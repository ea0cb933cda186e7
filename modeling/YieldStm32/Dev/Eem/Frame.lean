import Mathlib.Data.Nat.Bitwise
import Mathlib.Tactic.IntervalCases
import YieldStm32.Lib.Little
import YieldStm32.Lib.Slots

/-!
# EEM frames (`dev/src/usb_eem.c`)

A transfer is one EEM packet after the other: a 16-bit header in the byte order of the host, and for data packets an
Ethernet frame with four bytes of checksum.

* `extractHdrFields` : `USBEEM_ExtractHdrFields`;
* `rxFrame`, `rxLoop` : the loop of `USBEEM_RxTask` over a transfer, with the detection of the byte order;
* `packFrame`, `packLoop` : the loop of `USBEEM_TxTask` that fills a transfer;
* `rxTransfer_pack` : what is packed is what is extracted.
-/

namespace YieldStm32.Eem

open Ring

abbrev Mem := Nat → UInt8

/-- `USBEEM_MAX_ETH_FRAME_LEN` -/
def maxEthFrameLen : Nat := 1518

/-- `sizeof(transfer)`, of either task -/
def transferSize : Nat := 1518 + 4 + 2

/-- `enum endiannes` -/
inductive Endiannes where
  | unknown
  | le
  | be
deriving DecidableEq, Repr

/-- `buf_t`, by the `size` bytes of its payload -/
structure Buf where
  pld : List UInt8
  size_le : pld.length ≤ maxEthFrameLen
deriving DecidableEq

/-! ## Headers -/

/-- `HTOBE16`, and `BETOH16`, which is the same macro -/
def htobe16 (x : BitVec 16) : BitVec 16 := (x &&& 0xff) <<< 8 ||| (x &&& 0xff00) >>> 8

/-- `frame->hdr`, as the processor reads it -/
def hdrAt (m : Mem) (p : Nat) : BitVec 16 := BitVec.ofNat 16 (Little.value (fun i => m (p + i)) 2)

/-- `type`, `cmd`, `pld_len` -/
structure HdrFields where
  type : BitVec 16
  cmd : BitVec 16
  pldLen : Nat
deriving DecidableEq, Repr

/-- `USBEEM_ExtractHdrFields` -/
def extractHdrFields (e : Endiannes) (hdr : BitVec 16) : HdrFields :=
  let hdr := if e = .le then hdr else htobe16 hdr
  let type := hdr &&& 0x8000
  let cmd := hdr &&& 0x3800
  let pldLen :=
    if type = 0x0000 then (hdr &&& 0x3FFF).toNat
    -- echo commands also carry payload
    else if cmd = 0x0000 ∨ cmd = 0x0800 then (hdr &&& 0x07FF).toNat
    else 0
  ⟨type, cmd, pldLen⟩

/-! ## `USBEEM_RxTask` -/

/-- The variables of the loop, and the frames stored in the receive ring, for which the task waits until there is room. -/
structure Rx where
  offs : Nat
  endiannes : Endiannes
  frames : List (List UInt8)
deriving DecidableEq

/-- The fields of a header while the byte order is not known, and the byte order after it: the order in which the packet
fills the whole transfer. -/
def detect (hdr : BitVec 16) (size : Nat) : HdrFields × Endiannes :=
  let be := extractHdrFields .be hdr
  let le := extractHdrFields .le hdr
  -- a packet of length zero looks the same in both
  if hdr = 0 ∧ size = 2 then (be, .unknown)
  else if size = be.pldLen + 2 then (be, .be)
  else if size = le.pldLen + 2 then (le, .le)
  else (le, .unknown)

/-- The fields of the next header, and the byte order after it. -/
def rxFields (m : Mem) (size : Nat) (s : Rx) : HdrFields × Endiannes :=
  let hdr := hdrAt m s.offs
  if s.endiannes = .be ∨ s.endiannes = .le then (extractHdrFields s.endiannes hdr, s.endiannes) else detect hdr size

/-- One round of the loop, with `false` where it is left by its `break`. -/
def rxFrame (m : Mem) (size : Nat) (s : Rx) : Rx × Bool :=
  let d := rxFields m size s
  let f := d.1
  if f.type ≠ 0x0000 then (⟨s.offs + (f.pldLen + 2), d.2, s.frames⟩, true)
  -- there must be four bytes for the checksum
  else if f.pldLen < 4 then (⟨s.offs, d.2, s.frames⟩, false)
  else
    let copySize := min maxEthFrameLen (f.pldLen - 4)
    (⟨s.offs + (f.pldLen + 2), d.2, s.frames ++ [copyOut m (s.offs + 2) copySize]⟩, true)

/-- The loop, for up to `n` rounds. -/
def rxLoop (m : Mem) (size : Nat) : Nat → Rx → Rx
  | 0, s => s
  | n + 1, s =>
    if s.offs < size then
      if (rxFrame m size s).2 then rxLoop m size n (rxFrame m size s).1 else (rxFrame m size s).1
    else s

/-- A transfer of `size` bytes: every round but the last moves on by two bytes or more. -/
def rxTransfer (m : Mem) (size : Nat) (e : Endiannes) : Rx := rxLoop m size size ⟨0, e, []⟩

theorem rxFrame_offs (m : Mem) (size : Nat) (s : Rx) (h : (rxFrame m size s).2 = true) :
    s.offs + 2 ≤ (rxFrame m size s).1.offs := by
  unfold rxFrame at h ⊢
  dsimp only at h ⊢
  by_cases htype : (rxFields m size s).1.type ≠ 0x0000
  · rw [if_pos htype]
    show s.offs + 2 ≤ s.offs + ((rxFields m size s).1.pldLen + 2)
    omega
  rw [if_neg htype] at h ⊢
  by_cases hshort : (rxFields m size s).1.pldLen < 4
  · rw [if_pos hshort] at h
    cases h
  rw [if_neg hshort]
  show s.offs + 2 ≤ s.offs + ((rxFields m size s).1.pldLen + 2)
  omega

/-- The rounds of `rxTransfer` are enough: with more of them the loop ends the same. -/
theorem rxLoop_ends {m : Mem} {size n : Nat} {s : Rx} (h : size ≤ s.offs + n) (k : Nat) :
    rxLoop m size (n + k) s = rxLoop m size n s := by
  induction n generalizing s with
  | zero =>
      rw [Nat.zero_add]
      cases k with
      | zero => rfl
      | succ k => exact if_neg (Nat.not_lt.2 h)
  | succ n ih =>
      rw [Nat.succ_add, rxLoop, rxLoop]
      split
      · split
        · rename_i hgo
          have := rxFrame_offs m size s hgo
          exact ih (by omega)
        · rfl
      · rfl

/-! ## `USBEEM_TxTask` -/

/-- `buf->size + sizeof(usbeem_hdr_t) + 4` -/
def Buf.frameSize (buf : Buf) : Nat := buf.pld.length + 2 + 4

/-- The header of a data packet: no command, no valid checksum. -/
def Buf.hdr (e : Endiannes) (buf : Buf) : BitVec 16 :=
  let hdr : BitVec 16 := 0x0000 ||| 0x0000 ||| BitVec.ofNat 16 (buf.pld.length + 4)
  if e = .le then hdr else htobe16 hdr

/-- The bogus checksum. -/
def crc : List UInt8 := [0xde, 0xad, 0xbe, 0xef]

/-- The variables of the loop. -/
structure Pack where
  transfer : Mem
  offs : Nat
  tail : BitVec 32
  cnt : Nat

/-- One round of the loop. -/
def packFrame (e : Endiannes) (buf : Buf) (p : Pack) : Pack :=
  let m := copyIn p.transfer p.offs (Little.bytes 2 (buf.hdr e).toNat)
  let m := copyIn m (p.offs + 2) buf.pld
  let m := copyIn m (p.offs + 2 + buf.pld.length) crc
  ⟨m, p.offs + buf.frameSize, p.tail + 1, p.cnt + 1⟩

/-- The loop, for up to `n` frames: the counter is compared with the head `n` times before they are equal. -/
def packLoop (e : Endiannes) (cap : Nat) (tx : Nat → Buf) : Nat → Pack → Pack
  | 0, p => p
  | n + 1, p =>
    let buf := tx (Slots.index cap p.tail)
    -- we cannot add this frame to the transfer
    if transferSize - p.offs < buf.frameSize then p else packLoop e cap tx n (packFrame e buf p)

/-- The transfer made of the frames of a ring of `cap` buffers. -/
def pack (e : Endiannes) (cap : Nat) (tx : Nat → Buf) (head tail : BitVec 32) (transfer : Mem) : Pack :=
  packLoop e cap tx (head - tail).toNat ⟨transfer, 0, tail, 0⟩

/-- A frame as it lies in a transfer. -/
def Buf.encode (e : Endiannes) (buf : Buf) : List UInt8 := Little.bytes 2 (buf.hdr e).toNat ++ (buf.pld ++ crc)

@[simp] theorem Buf.length_encode (e : Endiannes) (buf : Buf) : (buf.encode e).length = buf.frameSize := by
  simp only [encode, frameSize, List.length_append, Little.length_bytes, crc, List.length_cons, List.length_nil]
  omega

/-- A round adds the frame behind what is in the transfer. -/
theorem packFrame_transfer (e : Endiannes) (buf : Buf) (p : Pack) :
    copyOut (packFrame e buf p).transfer 0 (packFrame e buf p).offs = copyOut p.transfer 0 p.offs ++ buf.encode e := by
  have h1 := copyOut_copyIn p.transfer p.offs (Little.bytes 2 (buf.hdr e).toNat)
  rw [Little.length_bytes] at h1
  have h2 := copyOut_copyIn (copyIn p.transfer p.offs (Little.bytes 2 (buf.hdr e).toNat)) (p.offs + 2) buf.pld
  have h3 := copyOut_copyIn (copyIn (copyIn p.transfer p.offs (Little.bytes 2 (buf.hdr e).toNat)) (p.offs + 2) buf.pld)
    (p.offs + 2 + buf.pld.length) crc
  have hoffs : (packFrame e buf p).offs = p.offs + 2 + buf.pld.length + crc.length := by
    simp only [packFrame, Buf.frameSize, crc, List.length_cons, List.length_nil]
    omega
  rw [hoffs]
  exact h3.trans (by rw [h2, h1, List.append_assoc, List.append_assoc, Buf.encode])

/-- What the loop adds to a transfer: some frames of the ring, in order. -/
theorem packLoop_spec (e : Endiannes) (cap : Nat) (tx : Nat → Buf) (n : Nat) (p : Pack) :
    ∃ k ≤ n, let q := packLoop e cap tx n p
      q.cnt = p.cnt + k ∧ q.tail = p.tail + BitVec.ofNat 32 k ∧
        copyOut q.transfer 0 q.offs =
          copyOut p.transfer 0 p.offs ++ (Slots.list cap tx k p.tail).flatMap (Buf.encode e) ∧
        (p.offs ≤ transferSize → q.offs ≤ transferSize) := by
  induction n generalizing p with
  | zero => exact ⟨0, Nat.le_refl 0, rfl, by simp [packLoop], by simp [packLoop, Slots.list], id⟩
  | succ n ih =>
      rw [packLoop]
      dsimp only
      split
      · exact ⟨0, Nat.zero_le _, rfl, by simp, by simp [Slots.list], id⟩
      · rename_i hroom
        obtain ⟨k, hk, hcnt, htail, hbytes, hoffs⟩ := ih (packFrame e (tx (Slots.index cap p.tail)) p)
        refine ⟨k + 1, Nat.succ_le_succ hk, ?_, ?_, ?_, fun hle => hoffs ?_⟩
        · rw [hcnt]
          show p.cnt + 1 + k = _
          omega
        · rw [htail]
          show p.tail + 1 + BitVec.ofNat 32 k = _
          rw [BitVec.add_assoc, Nat.add_comm k 1, BitVec.ofNat_add]
          rfl
        · rw [hbytes, packFrame_transfer, Slots.list, List.flatMap_cons, List.append_assoc]
          rfl
        · show p.offs + (tx (Slots.index cap p.tail)).frameSize ≤ transferSize
          omega

/-! ## There and back -/

theorem htobe16_htobe16 (x : BitVec 16) : htobe16 (htobe16 x) = x := by
  unfold htobe16
  apply BitVec.eq_of_getLsbD_eq
  intro i hi
  simp only [BitVec.getLsbD_or, BitVec.getLsbD_shiftLeft, BitVec.getLsbD_ushiftRight, BitVec.getLsbD_and]
  interval_cases i <;> simp

/-- The header that was stored is read back. -/
theorem hdrAt_of_copyOut {m : Mem} {p : Nat} {x : BitVec 16} (h : copyOut m p 2 = Little.bytes 2 x.toNat) :
    hdrAt m p = x := by
  have hbyte : ∀ i < 2, m (p + i) = Little.byte x.toNat i := by
    intro i hi
    have hget := congrArg (fun bs => bs[i]?) h
    simpa [copyOut, Little.bytes, List.getElem?_range hi] using hget
  have hval : Little.value (fun i => m (p + i)) 2 = x.toNat % 256 ^ 2 :=
    (Little.value_congr hbyte).trans (Little.value_byte x.toNat 2)
  have hlt : x.toNat < 256 ^ 2 := x.isLt
  unfold hdrAt
  rw [hval, Nat.mod_eq_of_lt hlt, BitVec.ofNat_toNat, BitVec.setWidth_eq]

/-- The header of a frame says that it is a data packet, and how long it is. -/
theorem extractHdrFields_hdr {e : Endiannes} (buf : Buf) :
    (extractHdrFields e (buf.hdr e)).type = 0x0000 ∧ (extractHdrFields e (buf.hdr e)).pldLen = buf.pld.length + 4 := by
  have hlen : buf.pld.length ≤ 1518 := buf.size_le
  have hhdr : (if e = .le then buf.hdr e else htobe16 (buf.hdr e)) = BitVec.ofNat 16 (buf.pld.length + 4) := by
    have hzero : ∀ x : BitVec 16, 0x0000 ||| 0x0000 ||| x = x := fun x => by simp
    unfold Buf.hdr
    dsimp only
    rw [hzero]
    split
    · rfl
    · exact htobe16_htobe16 _
  have htype : BitVec.ofNat 16 (buf.pld.length + 4) &&& 0x8000 = 0x0000 := by
    apply BitVec.eq_of_toNat_eq
    rw [BitVec.toNat_and, BitVec.toNat_ofNat, Nat.mod_eq_of_lt (by omega)]
    exact (Nat.and_two_pow _ 15).trans (by rw [Nat.testBit_lt_two_pow (by omega)]; rfl)
  have hpld : (BitVec.ofNat 16 (buf.pld.length + 4) &&& 0x3FFF).toNat = buf.pld.length + 4 := by
    rw [BitVec.toNat_and, BitVec.toNat_ofNat, Nat.mod_eq_of_lt (by omega)]
    exact (Nat.and_two_pow_sub_one_eq_mod _ 14).trans (Nat.mod_eq_of_lt (by omega))
  unfold extractHdrFields
  dsimp only
  rw [hhdr]
  exact ⟨htype, (if_pos htype).trans hpld⟩

/-- One round at a frame. -/
theorem rxFrame_encode {m : Mem} {size : Nat} {s : Rx} {buf : Buf} (he : s.endiannes = .be ∨ s.endiannes = .le)
    (h : copyOut m s.offs buf.frameSize = buf.encode s.endiannes) :
    rxFrame m size s = (⟨s.offs + buf.frameSize, s.endiannes, s.frames ++ [buf.pld]⟩, true) := by
  have hsize : buf.frameSize = 2 + (buf.pld.length + 4) := by
    unfold Buf.frameSize
    omega
  rw [hsize, copyOut_add, copyOut_add, Buf.encode] at h
  obtain ⟨hhdr, hrest⟩ := List.append_inj h (by rw [length_copyOut, Little.length_bytes])
  obtain ⟨hpld, -⟩ := List.append_inj hrest (length_copyOut ..)
  obtain ⟨htype, hlen⟩ := @extractHdrFields_hdr s.endiannes buf
  have hfields : rxFields m size s = (extractHdrFields s.endiannes (buf.hdr s.endiannes), s.endiannes) := by
    unfold rxFields
    rw [hdrAt_of_copyOut hhdr]
    exact if_pos he
  have hmin : min maxEthFrameLen (buf.pld.length + 4 - 4) = buf.pld.length := Nat.min_eq_right buf.size_le
  unfold rxFrame
  dsimp only
  rw [hfields, if_neg (not_not.2 htype), hlen, if_neg (by omega), hmin, hpld, hsize]
  congr 2
  omega

/-- The loop over a transfer of whole frames, from any of them on. -/
theorem rxLoop_frames {m : Mem} {size n : Nat} {s : Rx} (bufs : List Buf)
    (he : s.endiannes = .be ∨ s.endiannes = .le) (hsize : s.offs + (bufs.flatMap (Buf.encode s.endiannes)).length = size)
    (h : copyOut m s.offs (bufs.flatMap (Buf.encode s.endiannes)).length = bufs.flatMap (Buf.encode s.endiannes))
    (hn : bufs.length ≤ n) : rxLoop m size n s = ⟨size, s.endiannes, s.frames ++ bufs.map Buf.pld⟩ := by
  induction bufs generalizing s n with
  | nil =>
      have hend : s.offs = size := hsize
      have hloop : rxLoop m size n s = s := by
        cases n with
        | zero => rfl
        | succ n => exact if_neg (by omega)
      rw [hloop, List.map_nil, List.append_nil, ← hend]
  | cons buf bufs ih =>
      obtain ⟨n, rfl⟩ := Nat.exists_eq_add_of_le' (Nat.le_trans (Nat.succ_le_succ (Nat.zero_le _)) hn)
      rw [List.flatMap_cons, List.length_append, Buf.length_encode] at hsize h
      rw [copyOut_add] at h
      obtain ⟨hbuf, hrest⟩ := List.append_inj h (by rw [length_copyOut, Buf.length_encode])
      have hpos : 0 < buf.frameSize := by
        unfold Buf.frameSize
        omega
      rw [rxLoop, if_pos (by omega), rxFrame_encode he hbuf, if_pos rfl]
      rw [@ih n ⟨s.offs + buf.frameSize, s.endiannes, s.frames ++ [buf.pld]⟩ he (by rw [← hsize, Nat.add_assoc]) hrest
        (Nat.le_of_succ_le_succ hn)]
      rw [List.append_assoc]
      rfl

theorem length_le_flatMap (e : Endiannes) (bufs : List Buf) : bufs.length ≤ (bufs.flatMap (Buf.encode e)).length := by
  induction bufs with
  | nil => exact Nat.le_refl 0
  | cons buf bufs ih =>
      rw [List.flatMap_cons, List.length_append, Buf.length_encode, List.length_cons, Buf.frameSize]
      omega

/-- **EEM framing round trip**: the bytes of a transfer packed from a ring of frames are taken apart into the same frames,
up to exactly the end of the transfer. -/
theorem rxTransfer_pack (e : Endiannes) (cap : Nat) (tx : Nat → Buf) (head tail : BitVec 32) (transfer m : Mem)
    (he : e ≠ .unknown) (hm : ∀ i < (pack e cap tx head tail transfer).offs,
      m i = (pack e cap tx head tail transfer).transfer i) :
    let p := pack e cap tx head tail transfer
    p.offs ≤ transferSize ∧
      rxTransfer m p.offs e = ⟨p.offs, e, (Slots.list cap tx p.cnt tail).map Buf.pld⟩ := by
  intro p
  obtain ⟨k, -, hcnt, -, hbytes, hoffs⟩ := packLoop_spec e cap tx (head - tail).toNat ⟨transfer, 0, tail, 0⟩
  have hbytes' : copyOut p.transfer 0 p.offs = (Slots.list cap tx k tail).flatMap (Buf.encode e) := hbytes
  have hk : p.cnt = k := hcnt.trans (Nat.zero_add k)
  have hm' : copyOut m 0 p.offs = copyOut p.transfer 0 p.offs :=
    copyOut_congr fun i hi => by rw [Nat.zero_add]; exact hm i hi
  have hlen : p.offs = ((Slots.list cap tx k tail).flatMap (Buf.encode e)).length := by
    rw [← hbytes', length_copyOut]
  refine ⟨hoffs (Nat.zero_le _), ?_⟩
  have hknown : e = .be ∨ e = .le := by
    cases e with
    | unknown => exact absurd rfl he
    | le => exact Or.inr rfl
    | be => exact Or.inl rfl
  have hcount : (Slots.list cap tx k tail).length ≤ p.offs := by
    rw [hlen]
    exact length_le_flatMap e _
  rw [hk]
  exact rxLoop_frames (Slots.list cap tx k tail) hknown (by rw [Nat.zero_add, ← hlen]) (by rw [← hlen, hm', hbytes'])
    hcount

/-- A ring with an empty frame and one of three bytes. -/
def twoBufs (i : Nat) : Buf := if i = 0 then ⟨[], by decide⟩ else ⟨[1, 2, 3], by decide⟩

theorem rxTransfer_pack_two :
    ((Endiannes.be ≠ .unknown) ∧
        ∀ i < (pack .be 2 twoBufs 1 0xffffffff fun _ => 0).offs,
          (pack .be 2 twoBufs 1 0xffffffff fun _ => 0).transfer i = (pack .be 2 twoBufs 1 0xffffffff fun _ => 0).transfer i) ∧
      rxTransfer (pack .be 2 twoBufs 1 0xffffffff fun _ => 0).transfer 15 .be = ⟨15, .be, [[1, 2, 3], []]⟩ := by
  have hne : Endiannes.be ≠ .unknown := by decide
  have hoffs : (pack .be 2 twoBufs 1 0xffffffff fun _ => 0).offs = 15 := by decide
  have hcnt : (pack .be 2 twoBufs 1 0xffffffff fun _ => 0).cnt = 2 := by decide
  have h := (rxTransfer_pack .be 2 twoBufs 1 0xffffffff (fun _ => 0) _ hne fun _ _ => rfl).2
  rw [hoffs, hcnt] at h
  exact ⟨⟨hne, fun _ _ => rfl⟩, h⟩

end YieldStm32.Eem
