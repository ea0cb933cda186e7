import YieldStm32.Net.WebSocket.Mask

/-!
# Payload transparency

What a client puts into a text or binary frame, and what the application reads.

* `frame` : the bytes of a client's frame;
* `Transparent` : whatever the application's time-outs, the stack's contents and what follows the frame, every message of
  this length is read as it was written;
* `Delivered` : the header comes in two receives, its length fits two bytes, and the pieces are aligned;
* `recvHeader_frame` : what the header's code makes of a frame;
* `transparent_iff` : the frames that are read right, in both servers.
-/

namespace YieldStm32

namespace WebSocket

/-! ## Frames -/

/-- The seven bits of length in the second byte. -/
def lenCode (len : Nat) : Nat := if len < 126 then len else if len ≤ 65535 then 126 else 127

/-- The length where it has a field of its own. -/
def sizeField (len : Nat) : List UInt8 :=
  if len < 126 then [] else if len ≤ 65535 then bytesBE 2 len else bytesBE 8 len

/-- The header behind its first two bytes. -/
def headerTail (mask : Mask) (len : Nat) : List UInt8 := sizeField len ++ List.ofFn mask

/-- A client's frame. -/
def frame (b0 : UInt8) (mask : Mask) (msg : List UInt8) : List UInt8 :=
  b0 :: UInt8.ofNat (128 + lenCode msg.length) :: (headerTail mask msg.length ++ applyMask mask 0 msg)

@[simp] theorem length_bytesBE (n x : Nat) : (bytesBE n x).length = n := by
  induction n generalizing x with
  | zero => rfl
  | succ n ih => rw [bytesBE, List.length_append, ih, List.length_singleton]

/-- Bytes written most significant first are read back. -/
theorem bigEndian_bytesBE {pld : Nat → UInt8} {i n x : Nat}
    (h : ∀ k < n, (bytesBE n x)[k]? = some (pld (i + k))) : bigEndian pld i n = x % 256 ^ n := by
  induction n generalizing x with
  | zero => simp [bigEndian, Nat.mod_one]
  | succ n ih =>
      have hlast := h n (Nat.lt_succ_self n)
      rw [bytesBE, List.getElem?_append_right (by simp)] at hlast
      have hbyte : pld (i + n) = UInt8.ofNat x := by simpa using hlast.symm
      have hinit := ih (x := x / 256) fun k hk => by
        rw [← h k (by omega), bytesBE, List.getElem?_append_left (by simpa using hk)]
      rw [bigEndian, hinit, hbyte, Nat.pow_succ, UInt8.toNat_ofNat', Nat.mul_comm (256 ^ n), Nat.mod_mul]
      omega

theorem length_sizeField (len : Nat) :
    (sizeField len).length = if len < 126 then 0 else if len ≤ 65535 then 2 else 8 := by
  unfold sizeField
  split
  · rfl
  · split <;> simp

theorem length_headerTail (mask : Mask) (len : Nat) :
    (headerTail mask len).length = (if len < 126 then 0 else if len ≤ 65535 then 2 else 8) + 4 := by
  rw [headerTail, List.length_append, length_sizeField, List.length_ofFn]

/-! ## Header words -/

section Word

variable (b0 : UInt8) {c : Nat}

/-- A field of a word is the field of its shifted part. -/
theorem and_shiftLeft (x m k : Nat) : x &&& (m <<< k) = ((x >>> k) &&& m) <<< k := by
  apply Nat.eq_of_testBit_eq
  intro j
  rw [Nat.testBit_and, Nat.testBit_shiftLeft, Nat.testBit_shiftLeft, Nat.testBit_and, Nat.testBit_shiftRight]
  by_cases h : k ≤ j
  · simp [h]
  · simp [h]

theorem word_masked_eq {b : Nat} (hb : b < 256) : (b0.toNat * 256 + b) &&& hdrMasked = b / 128 * 128 := by
  rw [show hdrMasked = 1 <<< 7 by rfl, and_shiftLeft, Nat.and_one_is_mod, Nat.shiftRight_eq_div_pow, Nat.shiftLeft_eq]
  omega

theorem word_pldLen_eq (b : Nat) : (b0.toNat * 256 + b) &&& hdrPldLen = b % 128 := by
  rw [show hdrPldLen = 2 ^ 7 - 1 by rfl, Nat.and_two_pow_sub_one_eq_mod]
  omega

theorem word_opcode_eq {b : Nat} (hb : b < 256) : (b0.toNat * 256 + b) &&& hdrOpcode = b0.toNat % 16 * 256 := by
  rw [show hdrOpcode = (2 ^ 4 - 1) <<< 8 by rfl, and_shiftLeft, Nat.and_two_pow_sub_one_eq_mod,
    Nat.shiftRight_eq_div_pow, Nat.shiftLeft_eq]
  omega

theorem word_masked (hc : c < 128) : (b0.toNat * 256 + (128 + c)) &&& hdrMasked = 128 := by
  rw [word_masked_eq b0 (by omega)]
  omega

theorem word_unmasked : b0.toNat * 256 &&& hdrMasked = 0 := by
  have h := word_masked_eq b0 (b := 0) (by decide)
  rwa [Nat.add_zero, Nat.zero_div, Nat.zero_mul] at h

theorem word_pldLen (hc : c < 128) : (b0.toNat * 256 + (128 + c)) &&& hdrPldLen = c := by
  rw [word_pldLen_eq]
  omega

theorem word_opcode (hc : c < 128) : (b0.toNat * 256 + (128 + c)) &&& hdrOpcode = b0.toNat % 16 * 256 :=
  word_opcode_eq b0 (by omega)

end Word

/-! ## Headers -/

section Header

variable {env : Env} {ws : Conn} {t : Sock} {b0 : UInt8} {c : Nat} {rest : List UInt8}

theorem bytesToGet_word (b0 : UInt8) (hc : c < 128) :
    bytesToGet (b0.toNat * 256 + (128 + c)) = 4 + if c < 126 then 0 else if c = 126 then 2 else 4 := by
  rw [bytesToGet, word_masked b0 hc, word_pldLen b0 hc]
  rfl

/-- The stack after the second receive. -/
def stack (env : Env) (c0 : Nat) (b0 b1 : UInt8) (got : List UInt8) : Nat → UInt8 :=
  Ring.copyIn (Ring.copyIn (env.junk c0) 0 [b0, b1]) 2 got

/-- The bytes at offset 2: those copied there, or what was there before. -/
theorem copyIn_two (pld : Nat → UInt8) (xs : List UInt8) (i : Nat) :
    Ring.copyIn pld 2 xs (2 + i) = (xs[i]?).getD (pld (2 + i)) := by
  unfold Ring.copyIn
  by_cases h : i < xs.length
  · rw [dif_pos (by omega), List.getElem?_eq_getElem h]
    simp
  · rw [dif_neg (by omega), List.getElem?_eq_none (by omega)]
    rfl

theorem stack_at (c0 : Nat) (b0 b1 : UInt8) (got : List UInt8) (i : Nat) :
    stack env c0 b0 b1 got (2 + i) = (got[i]?).getD (env.junk c0 (2 + i)) := by
  have hhdr : ¬ (0 ≤ 2 + i ∧ 2 + i - 0 < [b0, b1].length) := by
    rw [List.length_cons, List.length_singleton]
    omega
  have hword : Ring.copyIn (env.junk c0) 0 [b0, b1] (2 + i) = env.junk c0 (2 + i) := dif_neg hhdr
  rw [stack, copyIn_two, hword]

/-- A header whose first two bytes come together, masked as the role asks for. -/
theorem recvHeader_accept {b1 : UInt8} {hdr : Nat} (hhdr : b0.toNat * 256 + b1.toNat = hdr)
    (hrole : ¬ ((ws.role = .server ∧ hdr &&& hdrMasked = 0) ∨ (ws.role = .client ∧ hdr &&& hdrMasked ≠ 0)))
    (hin : t.incoming = b0 :: b1 :: rest) (hrest : bytesToGet hdr ≤ rest.length) (hfirst : 1 ≤ env.splits t.recvs) :
    let k := min (env.splits (t.recvs + 1) + 1) (bytesToGet hdr)
    recvHeader env ws t = (.ok hdr,
      (if hdr &&& hdrPldLen < 126 then { ws with rxSize := hdr &&& hdrPldLen } else ws).takeHeader hdr
        (stack env t.recvs b0 b1 (rest.take k)),
      { t with incoming := rest.drop k, recvs := t.recvs + 2 }) := by
  intro k
  have hword : bigEndian (Ring.copyIn (env.junk t.recvs) 0 [b0, b1]) 0 2 = hdr := by
    simpa [bigEndian, Ring.copyIn] using hhdr
  rw [recvHeader, recv_eq (by rw [hin]; simp), show min (env.splits t.recvs + 1) 2 = 2 by omega, hin]
  simp only [List.take_succ_cons, List.take_zero, List.drop_succ_cons, List.drop_zero]
  simp only [hword]
  rw [if_neg hrole, recv_eq (by exact hrest)]
  rfl

/-- A masked header whose first two bytes come together. -/
theorem recvHeader_eq (hrole : ws.role = .server) (hc : c < 128)
    (hin : t.incoming = b0 :: UInt8.ofNat (128 + c) :: rest)
    (hrest : bytesToGet (b0.toNat * 256 + (128 + c)) ≤ rest.length) (hfirst : 1 ≤ env.splits t.recvs) :
    let hdr := b0.toNat * 256 + (128 + c)
    let k := min (env.splits (t.recvs + 1) + 1) (bytesToGet hdr)
    recvHeader env ws t = (.ok hdr,
      (if c < 126 then { ws with rxSize := c } else ws).takeHeader hdr
        (stack env t.recvs b0 (UInt8.ofNat (128 + c)) (rest.take k)),
      { t with incoming := rest.drop k, recvs := t.recvs + 2 }) := by
  intro hdr k
  have hbyte : (UInt8.ofNat (128 + c)).toNat = 128 + c := by
    rw [UInt8.toNat_ofNat', Nat.mod_eq_of_lt (by omega)]
  have hmasked : hdr &&& hdrMasked = 128 := word_masked b0 hc
  have h := @recvHeader_accept env ws t b0 rest (UInt8.ofNat (128 + c)) hdr (by rw [hbyte])
    (by rw [hmasked, hrole]; simp) hin hrest hfirst
  rwa [word_pldLen b0 hc] at h

theorem lenCode_lt (len : Nat) : lenCode len < 128 := by
  unfold lenCode
  split
  · omega
  · split <;> omega

/-- What the stack must hold for the header to be taken as it was sent. -/
def HoldsTail (mask : Mask) (len : Nat) (pld : Nat → UInt8) : Prop :=
  ∀ i < (headerTail mask len).length, (headerTail mask len)[i]? = some (pld (2 + i))

theorem HoldsTail.mask {mask : Mask} {len : Nat} {pld : Nat → UInt8} (h : HoldsTail mask len pld) (i : Fin 4) :
    pld (2 + (sizeField len).length + i) = mask i := by
  have hi := h ((sizeField len).length + i) (by rw [headerTail, List.length_append, List.length_ofFn]; omega)
  rw [headerTail, List.getElem?_append_right (by omega), Nat.add_sub_cancel_left,
    List.getElem?_eq_getElem (by rw [List.length_ofFn]; exact i.isLt), List.getElem_ofFn] at hi
  rw [Nat.add_assoc]
  exact (Option.some.inj hi).symm

/-- The size of a header whose length field was received whole. -/
theorem takeHeader_size {len hdr : Nat} {pld : Nat → UInt8} (hhdr : hdr &&& hdrPldLen = lenCode len)
    (h : ∀ i < (sizeField len).length, (sizeField len)[i]? = some (pld (2 + i))) :
    ((if lenCode len < 126 then { ws with rxSize := lenCode len } else ws).takeHeader hdr pld).rxSize = len % 2 ^ 32 := by
  have hread : ∀ n, sizeField len = bytesBE n len → bigEndian pld 2 n = len % 256 ^ n := fun n hf =>
    bigEndian_bytesBE fun k hk => by rw [← h k (by rwa [hf, length_bytesBE]), hf]
  rw [Conn.takeHeader, hhdr]
  by_cases hsmall : len < 126
  · have hcode : lenCode len = len := if_pos hsmall
    have h6 : len ≠ 126 := by omega
    have h7 : len ≠ 127 := by omega
    rw [hcode, if_pos hsmall, Nat.mod_eq_of_lt (show len < 2 ^ 32 by omega)]
    simp [h6, h7]
  · by_cases hmid : len ≤ 65535
    · have hcode : lenCode len = 126 := by rw [lenCode, if_neg hsmall, if_pos hmid]
      have hsize := hread 2 (by rw [sizeField, if_neg hsmall, if_pos hmid])
      rw [hcode]
      simp only [↓reduceIte]
      omega
    · have hcode : lenCode len = 127 := by rw [lenCode, if_neg hsmall, if_neg hmid]
      have hsize := hread 8 (by rw [sizeField, if_neg hsmall, if_neg hmid])
      rw [hcode]
      simp only [show ¬ (127 = 126) by decide, ↓reduceIte]
      omega

theorem sizeField_at {mask : Mask} {len : Nat} {pld : Nat → UInt8} (h : HoldsTail mask len pld) :
    ∀ i < (sizeField len).length, (sizeField len)[i]? = some (pld (2 + i)) := by
  intro i hi
  rw [← h i (by rw [headerTail, List.length_append]; omega), headerTail, List.getElem?_append_left hi]

/-- The mask stands behind the length field. -/
theorem takeHeader_mask {mask : Mask} {len : Nat} {pld : Nat → UInt8} (h : HoldsTail mask len pld) :
    (ws.takeHeader (b0.toNat * 256 + (128 + lenCode len)) pld).mask = mask := by
  rw [Conn.takeHeader, word_masked b0 (lenCode_lt len), word_pldLen b0 (lenCode_lt len)]
  funext i
  have hptr : (if lenCode len = 126 then 4 else if lenCode len = 127 then 10 else 2) = 2 + (sizeField len).length := by
    rw [length_sizeField, lenCode]
    split
    · rw [if_neg (by omega), if_neg (by omega)]
    · split <;> rfl
  dsimp only
  rw [if_pos (by decide), hptr]
  exact h.mask i

/-- A header taken as it was sent. -/
theorem takeHeader_frame {mask : Mask} {len : Nat} {pld : Nat → UInt8} (h : HoldsTail mask len pld) :
    (if lenCode len < 126 then { ws with rxSize := lenCode len } else ws).takeHeader
      (b0.toNat * 256 + (128 + lenCode len)) pld = { ws with rxSize := len % 2 ^ 32, mask := mask } := by
  have hsize := @takeHeader_size ws len _ pld (word_pldLen b0 (lenCode_lt len)) (sizeField_at h)
  have hmask := @takeHeader_mask (if lenCode len < 126 then { ws with rxSize := lenCode len } else ws) b0 mask len pld h
  rw [← hsize, ← hmask]
  split <;> rfl

/-- How many bytes of the header's tail the second receive returns. -/
def tailGot (splits : Nat → Nat) (c0 len : Nat) : Nat :=
  min (splits (c0 + 1) + 1) (4 + if len < 126 then 0 else if len ≤ 65535 then 2 else 4)

theorem bytesToGet_frame (b0 : UInt8) (len : Nat) : bytesToGet (b0.toNat * 256 + (128 + lenCode len)) =
    4 + if len < 126 then 0 else if len ≤ 65535 then 2 else 4 := by
  rw [bytesToGet_word b0 (lenCode_lt len), lenCode]
  split
  · rfl
  · split <;> rfl

theorem tailGot_le (splits : Nat → Nat) (c0 : Nat) (mask : Mask) (len : Nat) :
    tailGot splits c0 len ≤ (headerTail mask len).length := by
  rw [length_headerTail, tailGot]
  split
  · omega
  · split <;> omega

/-- The part of a call up to the `switch`, on a frame whose first two bytes come together. -/
theorem nextHeader_frame (http : Bool) (timeout : Int) {mask : Mask} {msg xs : List UInt8} (hrole : ws.role = .server)
    (hidle : ws.rxSize = ws.rxOffs) (hin : t.incoming = frame b0 mask msg ++ xs) (hfirst : 1 ≤ env.splits t.recvs) :
    nextHeader http env timeout 0 ws t = (.ready,
      { (if lenCode msg.length < 126 then { ws with rxSize := lenCode msg.length } else ws).takeHeader
          (b0.toNat * 256 + (128 + lenCode msg.length)) (stack env t.recvs b0 (UInt8.ofNat (128 + lenCode msg.length))
            ((headerTail mask msg.length).take (tailGot env.splits t.recvs msg.length))) with
        rxOpcode := b0.toNat % 16 * 256, rxOffs := 0 },
      { t with
        incoming := (headerTail mask msg.length).drop (tailGot env.splits t.recvs msg.length) ++
          (applyMask mask 0 msg ++ xs)
        recvs := t.recvs + 2 }) := by
  have hle := tailGot_le env.splits t.recvs mask msg.length
  have hbytes := bytesToGet_frame b0 msg.length
  have hroom : bytesToGet (b0.toNat * 256 + (128 + lenCode msg.length)) ≤
      (headerTail mask msg.length ++ (applyMask mask 0 msg ++ xs)).length := by
    rw [hbytes, List.length_append, length_headerTail]
    split
    · omega
    · split <;> omega
  have hin' : t.incoming = b0 :: UInt8.ofNat (128 + lenCode msg.length) ::
      (headerTail mask msg.length ++ (applyMask mask 0 msg ++ xs)) := by
    rw [hin, frame]
    simp
  have hhdr := recvHeader_eq hrole (lenCode_lt _) hin' hroom hfirst
  have hgot : min (env.splits (t.recvs + 1) + 1) (bytesToGet (b0.toNat * 256 + (128 + lenCode msg.length))) =
      tailGot env.splits t.recvs msg.length := by
    rw [hbytes, tailGot]
  dsimp only at hhdr
  rw [nextHeader, if_pos hidle, hhdr, hgot, List.take_append_of_le_length hle, List.drop_append_of_le_length hle]
  dsimp only
  rw [word_opcode b0 (lenCode_lt _)]

end Header

/-! ## Reading a frame -/

section Read

variable {env : Env} {ws : Conn} {t : Sock} {b0 : UInt8} {mask : Mask} {msg xs : List UInt8} {http : Bool} {fuel : Nat}
  {recv : Nat → Int → Conn → Sock → Option (Except Int (DataType × List UInt8) × Conn × Sock)}
  {reads : List (Nat × Int)}

/-- The first byte of a text or a binary frame. -/
def Data (b0 : UInt8) : Prop := b0.toNat % 16 = 1 ∨ b0.toNat % 16 = 2

theorem Data.opcode (h : Data b0) : b0.toNat % 16 * 256 = opcodeText ∨ b0.toNat % 16 * 256 = opcodeBin := by
  unfold opcodeText opcodeBin
  rcases h with h | h
  · left
    omega
  · right
    omega

/-- The calls on a frame whose header was taken as it was sent. -/
theorem readFrame_frame (hrecv : ∀ size timeout ws t, ws.role = .server →
      recv size timeout ws t = recvLoop http env size (fuel + 1) timeout 0 ws t)
    (hdata : Data b0) (hrole : ws.role = .server) (hidle : ws.rxSize = ws.rxOffs)
    (hin : t.incoming = frame b0 mask msg ++ xs) (hfirst : 1 ≤ env.splits t.recvs) (hreads : reads ≠ [])
    (hsum : msg.length ≤ total (reads.map Prod.fst))
    (htail : HoldsTail mask msg.length (stack env t.recvs b0 (UInt8.ofNat (128 + lenCode msg.length))
      ((headerTail mask msg.length).take (tailGot env.splits t.recvs msg.length)))) :
    readFrame recv reads ws t = some (.ok (unmask mask
      (framePieces env.splits (reads.map Prod.fst) (t.recvs + 2) (msg.length % 2 ^ 32))
      ((headerTail mask msg.length).drop (tailGot env.splits t.recvs msg.length) ++ (applyMask mask 0 msg ++ xs)))) := by
  obtain ⟨⟨size, timeout⟩, reads, rfl⟩ := List.exists_cons_of_ne_nil hreads
  have hmod : msg.length % 2 ^ 32 ≤ msg.length := Nat.mod_le ..
  have hhdr := nextHeader_frame http timeout hrole hidle hin hfirst
  rw [takeHeader_frame htail] at hhdr
  have hread := readFrame_eq hrecv reads size hrole hhdr
    ⟨hrole, hdata.opcode, Nat.zero_le _, Nat.mod_lt _ (by decide)⟩
    (by simp only [List.length_append, length_applyMask]; omega)
    (by rw [List.map_cons] at hsum; dsimp only at hsum ⊢; omega)
  exact hread

/-- The first frame of a connection. -/
theorem readFrame_first (hrecv : ∀ size timeout ws t, ws.role = .server →
      recv size timeout ws t = recvLoop http env size (fuel + 1) timeout 0 ws t)
    (hdata : Data b0) (hrole : ws.role = .server) (hidle : ws.rxSize = ws.rxOffs) (hfirst : 1 ≤ env.splits 0)
    (hreads : reads ≠ []) (hsum : msg.length ≤ total (reads.map Prod.fst))
    (htail : HoldsTail mask msg.length (stack env 0 b0 (UInt8.ofNat (128 + lenCode msg.length))
      ((headerTail mask msg.length).take (tailGot env.splits 0 msg.length)))) :
    readFrame recv reads ws { incoming := frame b0 mask msg ++ xs } = some (.ok (unmask mask
      (framePieces env.splits (reads.map Prod.fst) 2 (msg.length % 2 ^ 32))
      ((headerTail mask msg.length).drop (tailGot env.splits 0 msg.length) ++ (applyMask mask 0 msg ++ xs)))) :=
  readFrame_frame hrecv hdata hrole hidle rfl hfirst hreads hsum htail

/-- A frame without payload: nothing is read, whatever the mask. -/
theorem readFrame_empty (hrecv : ∀ size timeout ws t, ws.role = .server →
      recv size timeout ws t = recvLoop http env size (fuel + 1) timeout 0 ws t)
    (hdata : Data b0) (hrole : ws.role = .server) (hidle : ws.rxSize = ws.rxOffs)
    (hin : t.incoming = frame b0 mask [] ++ xs) (hfirst : 1 ≤ env.splits t.recvs) (hreads : reads ≠ []) :
    readFrame recv reads ws t = some (.ok []) := by
  obtain ⟨⟨size, timeout⟩, reads, rfl⟩ := List.exists_cons_of_ne_nil hreads
  have hhdr := nextHeader_frame http timeout hrole hidle hin hfirst
  generalize hws : Conn.takeHeader _ _ _ = ws1 at hhdr
  have hsize : ws1.rxSize = 0 ∧ ws1.role = .server := by
    rw [← hws, Conn.takeHeader, word_pldLen b0 (lenCode_lt _)]
    exact ⟨rfl, hrole⟩
  have hread := readFrame_eq hrecv reads size hrole hhdr
    ⟨hsize.2, hdata.opcode, Nat.zero_le _, by rw [hsize.1]; decide⟩ (by simp [hsize.1]) (by simp [hsize.1])
  have hnone : ∀ ns ys, total ns = 0 → unmask ws1.mask ns ys = [] := by
    intro ns ys h0
    apply List.length_eq_zero_iff.1
    rw [length_unmask, h0, Nat.zero_min]
  rw [hread, hnone _ _ (by rw [total_framePieces] <;> simp [hsize.1])]

/-- The first two bytes of a header come apart: the second is taken from the stack. -/
theorem readFrame_apart (hrecv : ∀ size timeout ws t, ws.role = .server →
      recv size timeout ws t = recvLoop http env size (fuel + 1) timeout 0 ws t)
    (hrole : ws.role = .server) (hidle : ws.rxSize = ws.rxOffs) (hin : t.incoming = frame b0 mask msg ++ xs)
    (hfirst : env.splits t.recvs = 0) (hjunk : env.junk t.recvs 1 = 0) (size : Nat) :
    readFrame recv ((size, 1) :: reads) ws t = some (.error efatal) := by
  have hword : bigEndian (Ring.copyIn (env.junk t.recvs) 0 [b0]) 0 2 = b0.toNat * 256 := by
    simp [bigEndian, Ring.copyIn, hjunk]
  have hhdr : recvHeader env ws t = (.error efatal, ws, { t with
      incoming := t.incoming.drop 1
      recvs := t.recvs + 1 }) := by
    rw [recvHeader, recv_eq (by rw [hin, frame]; simp), hfirst, show min (0 + 1) 2 = 1 by rfl]
    dsimp only
    rw [show t.incoming.take 1 = [b0] by rw [hin, frame]; rfl, hword, word_unmasked, if_pos (Or.inl ⟨hrole, rfl⟩)]
  have hnext : nextHeader http env 1 0 ws t = (.stop efatal, ws, { t with
      incoming := t.incoming.drop 1
      recvs := t.recvs + 1 }) := by
    rw [nextHeader, if_pos hidle, hhdr]
    dsimp only
    rw [if_pos (Or.inr (Or.inl (by decide)))]
  rw [readFrame, hrecv _ _ _ _ hrole, recvLoop, hnext]

end Read

/-! ## Sending -/

section Send

variable {env : Env} {ws : Conn} {ptr : List UInt8}

/-- A piece of the message that starts at a multiple of the mask's length. -/
theorem applyMask_piece (mask : Mask) {offs : Nat} (h : offs % 4 = 0) (xs : List UInt8) :
    applyMask mask 0 xs = applyMask mask offs xs := by
  unfold applyMask
  congr 1
  funext i x
  have hidx : Fin.ofNat 4 (0 + i) = Fin.ofNat 4 (offs + i) := by
    apply Fin.ext
    show (0 + i) % 4 = (offs + i) % 4
    omega
  rw [hidx]

/-- The loop from `offs` on: the rest of the message goes out masked from its place, or up to a failing send. -/
theorem sendPayloadLoop_wire (hrole : ws.role = .client) {fuel offs : Nat} {t : Sock} (hfuel : ptr.length - offs ≤ fuel)
    (hoffs : offs % 32 = 0 ∨ offs = ptr.length) (hle : offs ≤ ptr.length) :
    ∃ sent, sent <+: applyMask ws.mask offs (ptr.drop offs) ∧
      (sendPayloadLoop env ws ptr fuel offs t).2.wire = t.wire ++ sent ∧
      ((sendPayloadLoop env ws ptr fuel offs t).1 = .ok ptr.length ∧ sent = applyMask ws.mask offs (ptr.drop offs) ∨
        ∃ i, (env.refuse i).isSome ∧ ∃ ec, (sendPayloadLoop env ws ptr fuel offs t).1 = .error ec) := by
  induction fuel generalizing offs t with
  | zero =>
      have hend : offs = ptr.length := by omega
      refine ⟨[], List.nil_prefix, by simp [sendPayloadLoop], Or.inl ⟨by rw [sendPayloadLoop, hend], ?_⟩⟩
      rw [hend, List.drop_length, applyMask_nil]
  | succ fuel ih =>
      rw [sendPayloadLoop]
      by_cases hlt : offs < ptr.length
      · have h32 : offs % 32 = 0 := hoffs.resolve_right (by omega)
        generalize hbuf : (ptr.drop offs).take 32 = buf
        have hlen : buf.length = min 32 (ptr.length - offs) := by rw [← hbuf, List.length_take, List.length_drop]
        have hrest : (ptr.drop offs).drop 32 = ptr.drop (offs + buf.length) := by
          rw [List.drop_drop]
          rcases Nat.le_total 32 (ptr.length - offs) with h | h
          · rw [hlen, Nat.min_eq_left h]
          · rw [List.drop_eq_nil_of_le (by omega), List.drop_eq_nil_of_le (by omega)]
        have hsplit : applyMask ws.mask offs (ptr.drop offs) =
            applyMask ws.mask 0 buf ++ applyMask ws.mask (offs + buf.length) (ptr.drop (offs + buf.length)) := by
          have h4 : offs % 4 = 0 := by omega
          rw [applyMask_piece ws.mask h4, ← hrest, ← applyMask_append, ← hbuf,
            List.take_append_drop]
        rw [if_pos hlt, hsplit]
        dsimp only
        rw [if_pos hrole]
        unfold Sock.send
        cases hsend : env.refuse t.sends with
        | some r =>
            refine ⟨(applyMask ws.mask 0 buf).take r.1, ?_, rfl, Or.inr ⟨t.sends, by rw [hsend]; rfl, r.2, rfl⟩⟩
            exact (List.take_prefix ..).trans (List.prefix_append ..)
        | none =>
            obtain ⟨sent, hpre, hwire, hret⟩ := @ih (offs + buf.length)
              { t with wire := t.wire ++ applyMask ws.mask 0 buf, sends := t.sends + 1 }
              (by omega) (by omega) (by omega)
            refine ⟨applyMask ws.mask 0 buf ++ sent, (List.prefix_append_right_inj _).2 hpre, ?_, ?_⟩
            · dsimp only
              rw [length_applyMask, hwire, List.append_assoc]
            · dsimp only
              rw [length_applyMask]
              exact hret.imp_left fun h => ⟨h.1, by rw [h.2]⟩
      · have hend : offs = ptr.length := by omega
        rw [if_neg hlt]
        refine ⟨[], List.nil_prefix, by simp, Or.inl ⟨by rw [hend], ?_⟩⟩
        rw [hend, List.drop_length, applyMask_nil]

end Send

/-! ## The frames that are read right -/

/-- The bytes of `WebSocket_SendPayload` in the client's role: the message under the mask, from its first byte on; all of
it unless a send fails. -/
def SendsMasked (mask : Mask) (len : Nat) : Prop :=
  ∀ (env : Env) (ws : Conn) (t : Sock) (msg : List UInt8), ws.role = .client → ws.mask = mask → msg.length = len →
    ∃ sent, sent <+: applyMask mask 0 msg ∧ (sendPayload env ws msg t).2.wire = t.wire ++ sent ∧
      ((sendPayload env ws msg t).1 = .ok len ∧ sent = applyMask mask 0 msg ∨
        ∃ i, (env.refuse i).isSome ∧ ∃ ec, (sendPayload env ws msg t).1 = .error ec)

theorem sendsMasked (mask : Mask) (len : Nat) : SendsMasked mask len := by
  intro env ws t msg hrole hmask hlen
  have h := @sendPayloadLoop_wire env ws msg hrole msg.length 0 t (Nat.le_refl _) (Or.inl rfl) (Nat.zero_le _)
  rw [hmask, List.drop_zero, hlen] at h
  rw [sendPayload, hlen]
  exact h

/-- A way to receive, as one of the two servers has it. -/
abbrev Receiver := Env → Nat → Nat → Int → Conn → Sock → Option (Except Int (DataType × List UInt8) × Conn × Sock)

/-- With these splits and reads every message of this length comes out as it was written, whatever else there is: the
other answers of the TCP layer, the contents of the stack, the time-outs, and what follows the frame. -/
def Transparent (recv : Receiver) (b0 : UInt8) (mask : Mask) (len : Nat) (splits : Nat → Nat) (sizes : List Nat) :
    Prop :=
  ∀ (env : Env) (ws : Conn) (reads : List (Nat × Int)) (msg rest : List UInt8), env.splits = splits →
    ws.role = .server → ws.rxSize = ws.rxOffs → reads.map Prod.fst = sizes → msg.length = len →
    ∃ fuel, readFrame (recv env fuel) reads ws { incoming := frame b0 mask msg ++ rest } = some (.ok msg)

/-- The header's first two bytes come together; and, unless the frame is empty, its length fits two bytes, the rest of
the header comes together, and the mask looks the same from the start of each piece of payload. -/
def Delivered (mask : Mask) (len : Nat) (splits : Nat → Nat) (sizes : List Nat) : Prop :=
  1 ≤ splits 0 ∧ (len = 0 ∨
    (len ≤ 65535 ∧ (headerTail mask len).length ≤ splits 1 + 1 ∧ Aligned mask 0 (framePieces splits sizes 2 len)))

section Iff

variable {b0 : UInt8} {mask : Mask} {len : Nat} {splits : Nat → Nat} {sizes : List Nat} {http : Bool} {recv : Receiver}

/-- The header's tail is received in full where its length fits two bytes and the second receive returns it whole. -/
theorem tailGot_eq_iff (splits : Nat → Nat) (mask : Mask) (len : Nat) :
    tailGot splits 0 len = (headerTail mask len).length ↔
      len ≤ 65535 ∧ (headerTail mask len).length ≤ splits 1 + 1 := by
  rw [length_headerTail, tailGot, Nat.zero_add]
  split
  · omega
  · split <;> omega

/-- Both servers receive as `recvLoop` does. -/
def Loops (http : Bool) (recv : Receiver) : Prop :=
  ∀ env fuel size timeout ws t, ws.role = .server →
    recv env fuel size timeout ws t = recvLoop http env size fuel timeout 0 ws t

theorem webSocketRecv_loops : Loops false webSocketRecv := fun _ _ _ _ _ _ _ => rfl

theorem uhttpSrvWSRecv_loops : Loops true uhttpSrvWSRecv := by
  intro env fuel size timeout ws t hrole
  rw [uhttpSrvWSRecv, ← hrole]

/-- Where the header's tail comes whole, the stack holds it. -/
theorem holdsTail_whole (env : Env) (b1 : UInt8) (h : tailGot splits 0 len = (headerTail mask len).length) :
    HoldsTail mask len (stack env 0 b0 b1 ((headerTail mask len).take (tailGot splits 0 len))) := by
  intro i hi
  rw [stack_at, h, List.take_length, List.getElem?_eq_getElem hi]
  rfl

/-- So it does, however much of it came, where it held it before. -/
theorem holdsTail_junk (env : Env) (b1 : UInt8) (got : Nat)
    (hjunk : ∀ i, env.junk 0 (2 + i) = ((headerTail mask len)[i]?).getD 0) :
    HoldsTail mask len (stack env 0 b0 b1 ((headerTail mask len).take got)) := by
  intro i hi
  rw [stack_at, List.getElem?_take]
  split
  · rw [List.getElem?_eq_getElem hi]
    rfl
  · rw [hjunk, List.getElem?_eq_getElem hi]
    rfl

theorem Delivered.transparent (hd : Delivered mask len splits sizes) (hrecv : Loops http recv) (hdata : Data b0)
    (hsizes : sizes ≠ []) (hsum : len ≤ total sizes) : Transparent recv b0 mask len splits sizes := by
  rintro env ws reads msg rest rfl hrole hidle rfl rfl
  obtain ⟨hfirst, hrest⟩ := hd
  have hreads : reads ≠ [] := fun h => hsizes (by rw [h]; rfl)
  refine ⟨1, ?_⟩
  rcases hrest with h0 | ⟨hlen, htail, hal⟩
  · obtain rfl := List.length_eq_zero_iff.1 h0
    exact readFrame_empty (hrecv env 1) hdata hrole hidle rfl hfirst hreads
  · have hgot := (tailGot_eq_iff env.splits mask msg.length).2 ⟨hlen, htail⟩
    have hmod : msg.length % 2 ^ 32 = msg.length := Nat.mod_eq_of_lt (by omega)
    rw [readFrame_first (hrecv env 1) hdata hrole hidle hfirst hreads hsum (holdsTail_whole env _ hgot), hgot,
      List.drop_length, List.nil_append, hmod]
    have hun := unmask_applyMask_iff mask 0 (framePieces env.splits (reads.map Prod.fst) 2 msg.length) msg
      (total_framePieces _ _ hsum) rest
    rw [hun.2 hal]

/-- An idle connection of a server. -/
def idle : Conn := ⟨true, 0, 0, 0, fun _ => 0, .server⟩

/-- A TCP layer with these splits, over a stack with these contents. -/
def envOf (splits : Nat → Nat) (junk : Nat → UInt8) : Env := ⟨splits, -5, fun _ => none, fun _ => junk, fun _ => 0⟩

/-- A call that returns was given fuel. -/
theorem readFrame_fuel (hrecv : Loops http recv) {env : Env} {fuel : Nat} {reads : List (Nat × Int)} {t : Sock}
    {out : Except Int (List UInt8)} (hreads : reads ≠ []) (h : readFrame (recv env fuel) reads idle t = some out) :
    ∃ k, fuel = k + 1 := by
  obtain ⟨⟨size, timeout⟩, reads, rfl⟩ := List.exists_cons_of_ne_nil hreads
  cases fuel with
  | zero =>
      rw [readFrame, hrecv _ _ _ _ _ _ rfl, recvLoop] at h
      cases h
  | succ k => exact ⟨k, rfl⟩

/-- The first two bytes have to come together: the stack may hold anything. -/
theorem Transparent.first (h : Transparent recv b0 mask len splits sizes) (hrecv : Loops http recv) (hsizes : sizes ≠ []) :
    1 ≤ splits 0 := by
  apply Nat.one_le_iff_ne_zero.2
  intro h0
  obtain ⟨size, sizes, rfl⟩ := List.exists_cons_of_ne_nil hsizes
  obtain ⟨fuel, hread⟩ := h (envOf splits fun _ => 0) idle ((size, 1) :: sizes.map (·, 1)) (List.replicate len 0) [] rfl
    rfl rfl (by simp [Function.comp_def]) List.length_replicate
  obtain ⟨k, rfl⟩ := readFrame_fuel hrecv (by simp) hread
  rw [readFrame_apart (hrecv _ (k + 1)) rfl rfl rfl h0 rfl] at hread
  cases hread

/-- What the calls return where the stack happens to hold the header's tail already. -/
theorem Transparent.unmask_eq (h : Transparent recv b0 mask len splits sizes) (hrecv : Loops http recv) (hdata : Data b0)
    (hsizes : sizes ≠ []) (hsum : len ≤ total sizes) {msg : List UInt8} (hmsg : msg.length = len) :
    unmask mask (framePieces splits sizes 2 (len % 2 ^ 32))
      ((headerTail mask len).drop (tailGot splits 0 len) ++ (applyMask mask 0 msg ++ [])) = msg := by
  have hfirst := h.first hrecv hsizes
  let env := envOf splits fun i => ((headerTail mask len)[i - 2]?).getD 0
  have hmap : (sizes.map (·, (0 : Int))).map Prod.fst = sizes := by simp [Function.comp_def]
  have hreads : sizes.map (·, (0 : Int)) ≠ [] := by simpa using hsizes
  obtain ⟨fuel, hread⟩ := h env idle (sizes.map (·, 0)) msg [] rfl rfl rfl hmap hmsg
  obtain ⟨k, rfl⟩ := readFrame_fuel hrecv hreads hread
  have htail : HoldsTail mask len (stack env 0 b0 (UInt8.ofNat (128 + lenCode len))
      ((headerTail mask len).take (tailGot splits 0 len))) := by
    apply holdsTail_junk
    intro i
    show ((headerTail mask len)[2 + i - 2]?).getD 0 = _
    rw [Nat.add_sub_cancel_left]
  subst hmsg
  rw [readFrame_first (hrecv env (k + 1)) hdata rfl rfl hfirst hreads (by rwa [hmap]) htail, hmap] at hread
  exact Except.ok.inj (Option.some.inj hread)

theorem Transparent.delivered (h : Transparent recv b0 mask len splits sizes) (hrecv : Loops http recv) (hdata : Data b0)
    (hsizes : sizes ≠ []) (hsum : len ≤ total sizes) : Delivered mask len splits sizes := by
  refine ⟨h.first hrecv hsizes, ?_⟩
  by_cases h0 : len = 0
  · exact Or.inl h0
  · right
    have hout := fun (msg : List UInt8) (hmsg : msg.length = len) => h.unmask_eq hrecv hdata hsizes hsum hmsg
    have hgot : tailGot splits 0 len = (headerTail mask len).length := by
      apply Nat.le_antisymm (tailGot_le splits 0 mask len)
      apply Nat.le_of_not_lt
      intro hlt
      -- a byte of the header is left, and the first byte read comes from it, whatever the message
      obtain ⟨x, xs, hx⟩ := List.exists_cons_of_ne_nil (List.ne_nil_of_length_pos (l :=
        (headerTail mask len).drop (tailGot splits 0 len)) (by rw [List.length_drop]; omega))
      have hhead : ∀ b : UInt8, (if framePieces splits sizes 2 (len % 2 ^ 32) = [] then none else some (x ^^^ mask 0)) =
          some b := by
        intro b
        have hb := congrArg List.head? (hout (List.replicate len b) List.length_replicate)
        rw [hx, List.cons_append, head?_unmask mask (framePieces_pos _ _ _ _), List.head?_replicate, if_neg h0] at hb
        exact hb
      have h01 := (hhead 0).symm.trans (hhead 1)
      exact absurd h01 (by decide)
    obtain ⟨hlen, htail⟩ := (tailGot_eq_iff splits mask len).1 hgot
    refine ⟨hlen, htail, ?_⟩
    have hmsg := hout (List.replicate len 0) List.length_replicate
    have hmod : len % 2 ^ 32 = len := Nat.mod_eq_of_lt (by omega)
    rw [hgot, List.drop_length, List.nil_append, hmod] at hmsg
    exact (unmask_applyMask_iff mask 0 _ _ (by rw [total_framePieces _ _ hsum, List.length_replicate]) []).1 hmsg

/-- **Payload transparency, exactly**: with these splits and reads both servers read every message of this length as it
was written, and the client masks it from its first byte on, if and only if the frame is `Delivered`. -/
theorem transparent_iff (b0 : UInt8) (mask : Mask) (len : Nat) (splits : Nat → Nat) (sizes : List Nat) (hdata : Data b0)
    (hsizes : sizes ≠ []) (hsum : len ≤ total sizes) :
    (Transparent webSocketRecv b0 mask len splits sizes ∧ Transparent uhttpSrvWSRecv b0 mask len splits sizes ∧
      SendsMasked mask len) ↔ Delivered mask len splits sizes := by
  constructor
  · rintro ⟨h, -, -⟩
    exact h.delivered webSocketRecv_loops hdata hsizes hsum
  · intro hd
    exact ⟨hd.transparent webSocketRecv_loops hdata hsizes hsum, hd.transparent uhttpSrvWSRecv_loops hdata hsizes hsum,
      sendsMasked mask len⟩

end Iff

/-- Reads of four bytes and of the rest: the second piece starts at a multiple of four. -/
theorem transparent_iff_fourAndRest :
    Data 0x82 ∧ 7 ≤ total [4, 100] ∧
      Transparent webSocketRecv 0x82 (fun i => UInt8.ofNat (i + 1)) 7 (fun _ => 31) [4, 100] ∧
      Transparent uhttpSrvWSRecv 0x82 (fun i => UInt8.ofNat (i + 1)) 7 (fun _ => 31) [4, 100] ∧
      SendsMasked (fun i => UInt8.ofNat (i + 1)) 7 := by
  have hdata : Data 0x82 := Or.inr rfl
  refine ⟨hdata, by decide, (transparent_iff 0x82 _ 7 _ [4, 100] hdata (by decide) (by decide)).2 ⟨by decide, Or.inr ?_⟩⟩
  exact ⟨by decide, by decide, by decide⟩

/-- Two zero bytes that come in two pieces are read as `0, 3`: the second is unmasked with the mask's first byte. -/
theorem not_transparent_twoPieces :
    readFrame (webSocketRecv (envOf (fun i => if i = 2 then 0 else 31) fun _ => 0) 1) [(2, 0)] idle
        { incoming := frame 0x82 (fun i => UInt8.ofNat (i + 1)) [0, 0] } = some (.ok [0, 3]) ∧
      ¬ Transparent webSocketRecv 0x82 (fun i => UInt8.ofNat (i + 1)) 2 (fun i => if i = 2 then 0 else 31) [2] ∧
      ¬ Transparent uhttpSrvWSRecv 0x82 (fun i => UInt8.ofNat (i + 1)) 2 (fun i => if i = 2 then 0 else 31) [2] := by
  have hnot : ¬ Delivered (fun i => UInt8.ofNat (i + 1)) 2 (fun i => if i = 2 then 0 else 31) [2] := by
    rintro ⟨-, h | ⟨-, -, h⟩⟩
    · cases h
    · exact absurd h (by decide)
  refine ⟨by decide, fun h => hnot ?_, fun h => hnot ?_⟩
  · exact h.delivered webSocketRecv_loops (Or.inr rfl) (by decide) (by decide)
  · exact h.delivered uhttpSrvWSRecv_loops (Or.inr rfl) (by decide) (by decide)

end WebSocket

end YieldStm32
