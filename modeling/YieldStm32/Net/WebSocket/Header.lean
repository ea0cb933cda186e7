import YieldStm32.Net.WebSocket.Transparency

/-!
# Headers, written and read

What one side writes as a header and the other reads, and what becomes of a header that the TCP layer hands out in pieces.

* `word_or` : the first two bytes, as `sendHeader` puts them together;
* `RoundTrips` : a header comes out as it was sent, and nothing more is consumed;
* `roundTrips_iff` : the headers of which this is so;
* `received` : what the read of a header leaves;
* `received_iff` : the splits of the stream in which this is the header, and those in which it is what a stream that comes
  whole leaves.
-/

namespace YieldStm32

namespace WebSocket

/-! ## Headers sent -/

section Send

variable {op c : Nat}

theorem or_low (a : Nat) {b k : Nat} (hb : b < 2 ^ k) : a * 2 ^ k ||| b = a * 2 ^ k + b := by
  rw [← Nat.shiftLeft_eq, ← Nat.shiftLeft_add_eq_or_of_lt hb]

/-- The opcode, the final bit and the length are fields of their own. -/
theorem word_or (hop : op < 16) (hc : c < 256) : op * 256 ||| hdrFin ||| c = (128 + op) * 256 + c := by
  have hfin : op * 256 ||| hdrFin = (128 + op) * 2 ^ 8 := by
    rw [Nat.or_comm, show hdrFin = 1 * 2 ^ 15 by rfl, or_low 1 (by omega)]
    omega
  rw [hfin, or_low _ (k := 8) hc]
  omega

theorem word_or_masked (hop : op < 16) (hc : c < 128) :
    op * 256 ||| hdrFin ||| c ||| hdrMasked = (128 + op) * 256 + (128 + c) := by
  have hlow : c ||| hdrMasked = 128 + c := by
    rw [Nat.or_comm, show hdrMasked = 1 * 2 ^ 7 by rfl, or_low 1 (k := 7) hc]
    omega
  rw [Nat.or_assoc, hlow, word_or hop (by omega)]

theorem bytesBE_word (a b : Nat) (hb : b < 256) : bytesBE 2 (a * 256 + b) = [UInt8.ofNat a, UInt8.ofNat b] := by
  have hdiv : (a * 256 + b) / 256 = a := by omega
  have hlow : UInt8.ofNat (a * 256 + b) = UInt8.ofNat b := by
    apply UInt8.toNat_inj.1
    rw [UInt8.toNat_ofNat', UInt8.toNat_ofNat']
    omega
  simp [bytesBE, hdiv, hlow]

/-- `decoded_size` as the sender sets it. -/
def sentCode (size : Nat) : Nat := if size < 126 then size else if size < 0xffff then 126 else 127

/-- The length field the sender adds. -/
def sentField (size : Nat) : List UInt8 :=
  if size < 126 then [] else if size < 0xffff then bytesBE 2 size else bytesBE 8 size

theorem sentCode_lt (size : Nat) : sentCode size < 128 := by
  unfold sentCode
  split
  · omega
  · split <;> omega

/-- The second byte's masked bit. -/
def maskBit (role : Role) : Nat := if role = .client then 128 else 0

/-- The mask at the end of a client's header. -/
def maskField (ws : Conn) : List UInt8 := if ws.role = .client then List.ofFn ws.mask else []

def firstByte (op : Nat) : UInt8 := UInt8.ofNat (128 + op)

def secondByte (role : Role) (size : Nat) : UInt8 := UInt8.ofNat (maskBit role + sentCode size)

theorem firstByte_toNat (hop : op < 16) : (firstByte op).toNat = 128 + op := by
  rw [firstByte, UInt8.toNat_ofNat', Nat.mod_eq_of_lt (by omega)]

theorem secondByte_toNat (role : Role) (size : Nat) :
    (secondByte role size).toNat = (if role = .client then 128 else 0) + sentCode size := by
  have hc := sentCode_lt size
  rw [secondByte, UInt8.toNat_ofNat', Nat.mod_eq_of_lt]
  · rfl
  · unfold maskBit
    split <;> omega

theorem secondByte_masked (role : Role) (size : Nat) : 128 ≤ (secondByte role size).toNat ↔ role = .client := by
  have hc := sentCode_lt size
  rw [secondByte_toNat]
  split
  · rename_i h
    exact ⟨fun _ => h, fun _ => by omega⟩
  · rename_i h
    exact ⟨fun hle => absurd hle (by omega), fun hrole => absurd hrole h⟩

/-- A header as either side sends it. -/
theorem sendHeader_wire {env : Env} {ws : Conn} {t : Sock} (hsend : env.refuse t.sends = none) (hop : op < 16)
    (size : Nat) :
    (sendHeader env ws t (op * 256) size).2.1.role = ws.role ∧
    (sendHeader env ws t (op * 256) size).2.2.wire = t.wire ++ (firstByte op :: secondByte ws.role size ::
      (sentField size ++ maskField (sendHeader env ws t (op * 256) size).2.1)) := by
  have hc := sentCode_lt size
  have hsrv : op * 256 ||| hdrFin ||| sentCode size = _ := word_or hop (by omega)
  have hcli : op * 256 ||| hdrFin ||| sentCode size ||| hdrMasked = _ := word_or_masked hop hc
  unfold sentCode at hsrv hcli hc
  cases hrole : ws.role with
  | server =>
      simp only [sendHeader, hrole, Sock.send, hsend, maskField, firstByte, secondByte, maskBit, sentCode, sentField, hsrv]
      rw [bytesBE_word _ _ (by omega)]
      simp
  | client =>
      simp only [sendHeader, hrole, Sock.send, hsend, maskField, firstByte, secondByte, maskBit, sentCode, sentField, hcli]
      rw [bytesBE_word _ _ (by omega)]
      simp

end Send

/-! ## The round trip -/

/-- What one side sends as the header of a frame, and what is behind it, comes to the other side, whose receives return all
they ask for: it takes the opcode, the size and, from a client, the mask, and stops behind the header. -/
def RoundTrips (sender receiver : Env) (tx rx : Conn) (opcode size : Nat) (rest : List UInt8) : Prop :=
  let sent := sendHeader sender tx { incoming := [] } opcode size
  let got := recvHeader receiver rx { incoming := sent.2.2.wire ++ rest }
  ∃ hdr, got.1 = .ok hdr ∧ hdr &&& hdrOpcode = opcode ∧ got.2.1.rxSize = size ∧
    (tx.role = .client → got.2.1.mask = sent.2.1.mask) ∧ got.2.2.incoming = rest

section RoundTrip

variable {receiver : Env} {rx : Conn} {op size : Nat} {mask : List UInt8}

theorem bytesToGet_le (hdr : Nat) : bytesToGet hdr ≤ 8 := by
  unfold bytesToGet
  split
  · split
    · omega
    · split <;> omega
  · split
    · omega
    · split <;> omega

/-- A header masked as the other side expects it, the receives returning all they ask for. -/
theorem recvHeader_whole (hfull : ∀ i, 7 ≤ receiver.splits i) {b0 b1 : UInt8} (hmask : 128 ≤ b1.toNat ↔ rx.role = .server)
    {t : Sock} {tail rest : List UInt8} (hin : t.incoming = b0 :: b1 :: (tail ++ rest))
    (htail : bytesToGet (b0.toNat * 256 + b1.toNat) ≤ tail.length) :
    let hdr := b0.toNat * 256 + b1.toNat
    recvHeader receiver rx t = (.ok hdr,
      (if hdr &&& hdrPldLen < 126 then { rx with rxSize := hdr &&& hdrPldLen } else rx).takeHeader hdr
        (stack receiver t.recvs b0 b1 (tail.take (bytesToGet hdr))),
      { t with incoming := tail.drop (bytesToGet hdr) ++ rest, recvs := t.recvs + 2 }) := by
  intro hdr
  have hmasked : hdr &&& hdrMasked = b1.toNat / 128 * 128 := word_masked_eq b0 b1.toNat_lt
  have hrole : ¬ ((rx.role = .server ∧ hdr &&& hdrMasked = 0) ∨ (rx.role = .client ∧ hdr &&& hdrMasked ≠ 0)) := by
    rw [hmasked]
    cases hr : rx.role with
    | server =>
        have := hmask.2 hr
        simp
        omega
    | client =>
        have : ¬ 128 ≤ b1.toNat := fun h => by
          rw [hmask.1 h] at hr
          cases hr
        simp
        omega
  have hk : min (receiver.splits (t.recvs + 1) + 1) (bytesToGet hdr) = bytesToGet hdr := by
    have h1 := hfull (t.recvs + 1)
    have h8 := bytesToGet_le hdr
    omega
  have h := @recvHeader_accept receiver rx t b0 (tail ++ rest) b1 hdr rfl hrole hin
    (by rw [List.length_append]; exact Nat.le_add_right_of_le htail) (by have := hfull t.recvs; omega)
  dsimp only at h
  rwa [hk, List.take_append_of_le_length htail, List.drop_append_of_le_length htail] at h

theorem length_sentField (size : Nat) :
    (sentField size).length = if size < 126 then 0 else if size < 65535 then 2 else 8 := by
  unfold sentField
  split
  · rfl
  · split <;> simp

theorem length_maskField (ws : Conn) : (maskField ws).length = if ws.role = .client then 4 else 0 := by
  unfold maskField
  split <;> simp

/-- The word of a header, as the other side takes it apart. -/
theorem word_sent (b0 : UInt8) (role : Role) (size : Nat) :
    let hdr := b0.toNat * 256 + (secondByte role size).toNat
    hdr &&& hdrMasked = (if role = .client then 128 else 0) ∧ hdr &&& hdrPldLen = sentCode size := by
  have hc := sentCode_lt size
  intro hdr
  have hmasked : hdr &&& hdrMasked = _ := word_masked_eq b0 (secondByte role size).toNat_lt
  have hlen : hdr &&& hdrPldLen = _ := word_pldLen_eq b0 (secondByte role size).toNat
  rw [hmasked, hlen, secondByte_toNat]
  split <;> omega

theorem bytesToGet_sent (b0 : UInt8) (role : Role) (size : Nat) :
    bytesToGet (b0.toNat * 256 + (secondByte role size).toNat) =
      (if role = .client then 4 else 0) + if size < 126 then 0 else if size < 65535 then 2 else 4 := by
  obtain ⟨hmasked, hlen⟩ := word_sent b0 role size
  have hmask : (if (if role = .client then 128 else 0) ≠ 0 then 4 else 0) = if role = .client then 4 else 0 := by
    split <;> rfl
  rw [bytesToGet, hmasked, hlen, hmask, sentCode]
  congr 1
  split
  · rfl
  · split <;> rfl

/-- A size that fits two bytes, and the mask, are read as they were sent. -/
theorem takeHeader_sent (hsmall : size < 65535) {ws : Conn} {pld : Nat → UInt8} (b0 : UInt8)
    (hpld : ∀ i < (sentField size ++ maskField ws).length,
      (sentField size ++ maskField ws)[i]? = some (pld (2 + i))) :
    let hdr := b0.toNat * 256 + (secondByte ws.role size).toNat
    let rx' := (if hdr &&& hdrPldLen < 126 then { rx with rxSize := hdr &&& hdrPldLen } else rx).takeHeader hdr pld
    rx'.rxSize = size ∧ (ws.role = .client → rx'.mask = ws.mask) := by
  intro hdr
  obtain ⟨-, hlen⟩ := word_sent b0 ws.role size
  have hcode : sentCode size = lenCode size := by
    rw [sentCode, lenCode, if_pos hsmall, if_pos (show size ≤ 65535 by omega)]
  have hfield : sentField size = sizeField size := by
    rw [sentField, sizeField, if_pos hsmall, if_pos (show size ≤ 65535 by omega)]
  rw [hfield] at hpld
  rw [hcode] at hlen
  dsimp only
  rw [hlen]
  refine ⟨?_, fun hrole => ?_⟩
  · rw [takeHeader_size hlen fun i hi => ?_, Nat.mod_eq_of_lt (by omega)]
    rw [← hpld i (by rw [List.length_append]; omega), List.getElem?_append_left hi]
  · have hword : hdr = b0.toNat * 256 + (128 + lenCode size) := by
      rw [← hcode]
      show b0.toNat * 256 + _ = _
      rw [secondByte_toNat, if_pos hrole]
    rw [hword, takeHeader_mask fun i hi => ?_]
    rw [headerTail] at hi ⊢
    rw [maskField, if_pos hrole] at hpld
    exact hpld i hi

/-- **Headers come out as they were sent**, in either direction, if and only if their size is less than 65535: from there
on the sender writes eight bytes of size, and the receiver asks for four. -/
theorem roundTrips_iff (sender receiver : Env) (tx rx : Conn) (op size : Nat) (rest : List UInt8)
    (hop : op < 16) (hroles : tx.role ≠ rx.role)
    (hsend : ∀ i, sender.refuse i = none) (hfull : ∀ i, 7 ≤ receiver.splits i) :
    RoundTrips sender receiver tx rx (op * 256) size rest ↔ size < 65535 := by
  obtain ⟨hrole, hwire⟩ := sendHeader_wire (t := { incoming := [] }) (hsend 0) hop size
  rw [RoundTrips]
  generalize sendHeader sender tx { incoming := [] } (op * 256) size = sent at hrole hwire ⊢
  have hbytes := bytesToGet_sent (firstByte op) tx.role size
  have hlen : (sentField size ++ maskField sent.2.1).length =
      (if size < 126 then 0 else if size < 65535 then 2 else 8) + if tx.role = .client then 4 else 0 := by
    rw [List.length_append, length_sentField, length_maskField, hrole]
  have hmask : 128 ≤ (secondByte tx.role size).toNat ↔ rx.role = .server := by
    rw [secondByte_masked]
    cases htx : tx.role <;> cases hrx : rx.role <;> simp_all
  have hin : sent.2.2.wire ++ rest = firstByte op :: secondByte tx.role size ::
      (sentField size ++ maskField sent.2.1 ++ rest) := by
    rw [hwire]
    simp
  have hgot := @recvHeader_whole receiver rx hfull _ _ hmask { incoming := sent.2.2.wire ++ rest } _ _ hin
    (by rw [hbytes, hlen]; grind)
  dsimp only at hgot ⊢
  rw [hgot]
  constructor
  · rintro ⟨hdr, -, -, -, -, hrest⟩
    have := congrArg List.length hrest
    rw [List.length_append, List.length_drop, hbytes, hlen] at this
    grind
  · intro hsmall
    have hall : bytesToGet ((firstByte op).toNat * 256 + (secondByte tx.role size).toNat) =
        (sentField size ++ maskField sent.2.1).length := by
      rw [hbytes, hlen]
      grind
    have hopcode := word_opcode_eq (firstByte op) (secondByte tx.role size).toNat_lt
    have hop' : (firstByte op).toNat % 16 = op := by
      rw [firstByte_toNat hop]
      omega
    rw [hop'] at hopcode
    rw [hall, List.take_length, List.drop_length]
    have htake := @takeHeader_sent rx size hsmall sent.2.1
      (stack receiver 0 (firstByte op) (secondByte tx.role size) (sentField size ++ maskField sent.2.1)) (firstByte op)
      fun i hi => by rw [stack_at, List.getElem?_eq_getElem hi]; rfl
    rw [hrole] at htake
    exact ⟨_, rfl, hopcode, htake.1, htake.2, rfl⟩

end RoundTrip

/-- A text frame of 300 bytes, from a client to a server. -/
theorem roundTrips_iff_threeHundred :
    1 < 16 ∧ Role.client ≠ Role.server ∧ (∀ i, (envOf (fun _ => 7) fun _ => 0).refuse i = none) ∧
      (∀ i, 7 ≤ (envOf (fun _ => 7) fun _ => 0).splits i) ∧
      RoundTrips (envOf (fun _ => 7) fun _ => 0) (envOf (fun _ => 7) fun _ => 0) { idle with role := .client } idle
        (1 * 256) 300 [1, 2, 3] := by
  refine ⟨by decide, by decide, fun _ => rfl, fun _ => Nat.le_refl 7, ?_⟩
  exact (roundTrips_iff _ _ { idle with role := .client } idle 1 300 [1, 2, 3] (by decide) (by decide) (fun _ => rfl)
    fun _ => Nat.le_refl 7).2 (by decide)

/-- A header for 65535 bytes: the server stops at the mask, having taken the size's last four bytes for it. -/
theorem not_roundTrips_65535 :
    (recvHeader (envOf (fun _ => 7) fun _ => 0) idle
        { incoming := (sendHeader (envOf (fun _ => 7) fun _ => 0) { idle with role := .client } { incoming := [] } (1 * 256)
            65535).2.2.wire ++ [1, 2, 3] }).2.2.incoming = [0, 0, 0, 0, 1, 2, 3] ∧
      ¬ RoundTrips (envOf (fun _ => 7) fun _ => 0) (envOf (fun _ => 7) fun _ => 0) { idle with role := .client } idle
        (1 * 256) 65535 [1, 2, 3] := by
  refine ⟨by decide, ?_⟩
  rintro ⟨hdr, -, -, -, -, hrest⟩
  exact absurd hrest (by decide)

/-! ## Headers in pieces -/

/-- The word, the size and the mask that the read of a header delivers, and the stream behind it. -/
def received (env : Env) (ws : Conn) (t : Sock) : Option (Nat × Nat × Mask × List UInt8) :=
  match recvHeader env ws t with
  | (.ok hdr, ws, t) => some (hdr, ws.rxSize, ws.mask, t.incoming)
  | (.error _, _, _) => none

/-- The same with a TCP layer that hands out all that is asked for. -/
def Env.whole (env : Env) : Env := { env with splits := fun _ => 7 }

/-- The two receives of a header return all they ask for. -/
def Unbroken (splits : Nat → Nat) (c hdr : Nat) : Prop := 1 ≤ splits c ∧ bytesToGet hdr ≤ splits (c + 1) + 1

section Pieces

variable {env : Env} {ws : Conn} {t : Sock}

theorem recv_ok {size : Nat} {bs : List UInt8} {t' : Sock} (h : t.recv env size = (.ok bs, t')) :
    t'.recvs = t.recvs + 1 ∧ ∃ k, k ≤ env.splits t.recvs + 1 ∧ k ≤ size ∧ t'.incoming = t.incoming.drop k := by
  unfold Sock.recv at h
  dsimp only at h
  split at h
  · cases h
  · cases h
    exact ⟨rfl, _, Nat.min_le_left .., (Nat.min_le_right ..).trans (Nat.min_le_left ..), rfl⟩

/-- How much of the stream a header takes. -/
theorem recvHeader_drop {hdr : Nat} {ws' : Conn} {t' : Sock} (h : recvHeader env ws t = (.ok hdr, ws', t')) :
    ∃ k k', k ≤ env.splits t.recvs + 1 ∧ k ≤ 2 ∧ k' ≤ env.splits (t.recvs + 1) + 1 ∧ k' ≤ bytesToGet hdr ∧
      t'.incoming = t.incoming.drop (k + k') := by
  unfold recvHeader at h
  rcases h1 : t.recv env 2 with ⟨_ | bs, t1⟩
  · rw [h1] at h
    cases h
  · rw [h1] at h
    dsimp only at h
    obtain ⟨hrecvs, k, hk, hk2, hin⟩ := recv_ok h1
    split at h
    · cases h
    · generalize bigEndian _ 0 2 = w at h
      rcases h2 : t1.recv env (bytesToGet w) with ⟨_ | bs', t2⟩
      · rw [h2] at h
        cases h
      · rw [h2] at h
        obtain ⟨-, k', hk', hk'2, hin'⟩ := recv_ok h2
        cases h
        rw [hrecvs] at hk'
        exact ⟨k, k', hk, hk2, hk', hk'2, by rw [hin', hin, List.drop_drop]⟩

theorem received_drop {hdr size : Nat} {mask : Mask} {xs : List UInt8} (h : received env ws t = some (hdr, size, mask, xs)) :
    ∃ k k', k ≤ env.splits t.recvs + 1 ∧ k ≤ 2 ∧ k' ≤ env.splits (t.recvs + 1) + 1 ∧ k' ≤ bytesToGet hdr ∧
      xs = t.incoming.drop (k + k') := by
  unfold received at h
  rcases hr : recvHeader env ws t with ⟨_ | w, ws', t'⟩
  · rw [hr] at h
    cases h
  · rw [hr] at h
    cases h
    exact recvHeader_drop hr

variable {b0 : UInt8} {mask : Mask} {len : Nat} {rest : List UInt8}

/-- A header that leaves the stream where an unbroken one does, with the same word, came unbroken. -/
theorem unbroken_of_received {hdr size : Nat} {m : Mask} {xs : List UInt8}
    (h : received env ws t = some (hdr, size, m, xs)) (hlen : xs.length + 2 + bytesToGet hdr ≤ t.incoming.length) :
    Unbroken env.splits t.recvs hdr := by
  obtain ⟨k, k', hk, hk2, hk', hk'2, rfl⟩ := received_drop h
  rw [List.length_drop] at hlen
  unfold Unbroken
  omega

/-- An unbroken header, whatever the form of its length. -/
theorem received_unbroken (hrole : ws.role = .server)
    (hin : t.incoming = b0 :: UInt8.ofNat (128 + lenCode len) :: (headerTail mask len ++ rest))
    (hun : Unbroken env.splits t.recvs (b0.toNat * 256 + (128 + lenCode len))) :
    let hdr := b0.toNat * 256 + (128 + lenCode len)
    let ws' := (if lenCode len < 126 then { ws with rxSize := lenCode len } else ws).takeHeader hdr
      (stack env t.recvs b0 (UInt8.ofNat (128 + lenCode len)) ((headerTail mask len ++ rest).take (bytesToGet hdr)))
    received env ws t =
      some (hdr, ws'.rxSize, ws'.mask, (headerTail mask len ++ rest).drop (bytesToGet hdr)) := by
  intro hdr ws'
  have hroom : bytesToGet hdr ≤ (headerTail mask len ++ rest).length := by
    have h := bytesToGet_frame b0 len
    rw [List.length_append, length_headerTail]
    grind
  have h := recvHeader_eq hrole (lenCode_lt len) hin hroom hun.1
  have hk : min (env.splits (t.recvs + 1) + 1) (bytesToGet hdr) = bytesToGet hdr := Nat.min_eq_right hun.2
  dsimp only at h
  rw [received, h, hk]

theorem unbroken_whole (env : Env) (c hdr : Nat) : Unbroken env.whole.splits c hdr :=
  ⟨Nat.le_add_left 1 6, bytesToGet_le hdr⟩

/-- **Headers in pieces**: the read of a masked header delivers it, and stops behind it, if and only if each of its two
receives returns all it asks for and the size is not in the form of eight bytes; and it delivers what it does of a stream
that comes whole, and stops where it does there, if and only if each of them does. -/
theorem received_iff (env : Env) (ws : Conn) (t : Sock) (b0 : UInt8) (mask : Mask) (len : Nat) (rest : List UInt8)
    (hrole : ws.role = .server)
    (hin : t.incoming = b0 :: UInt8.ofNat (128 + lenCode len) :: (headerTail mask len ++ rest)) :
    (received env ws t = some (b0.toNat * 256 + (128 + lenCode len), len, mask, rest) ↔
      Unbroken env.splits t.recvs (b0.toNat * 256 + (128 + lenCode len)) ∧ len ≤ 65535) ∧
    (received env ws t = received env.whole ws t ↔
      Unbroken env.splits t.recvs (b0.toNat * 256 + (128 + lenCode len))) := by
  have hbytes := bytesToGet_frame b0 len
  have htail := length_headerTail mask len
  have htotal : t.incoming.length = 2 + (headerTail mask len).length + rest.length := by
    rw [hin]
    simp only [List.length_cons, List.length_append]
    omega
  refine ⟨⟨fun h => ?_, ?_⟩, fun h => ?_, fun hun => ?_⟩
  · have hun := unbroken_of_received h (by rw [htotal, hbytes, htail]; grind)
    obtain ⟨k, k', -, hk2, -, hk', hdrop⟩ := received_drop h
    have hlen := congrArg List.length hdrop
    rw [List.length_drop, htotal, htail] at hlen
    rw [hbytes] at hk'
    exact ⟨hun, by grind⟩
  · rintro ⟨hun, hlen⟩
    have hall : bytesToGet (b0.toNat * 256 + (128 + lenCode len)) = (headerTail mask len).length := by
      rw [hbytes, htail, if_pos hlen]
      grind
    have h := received_unbroken hrole hin hun
    dsimp only at h
    rw [hall, List.take_left, List.drop_left, takeHeader_frame fun i hi => ?_, Nat.mod_eq_of_lt (by omega)] at h
    · exact h
    · rw [stack_at, List.getElem?_eq_getElem hi]
      rfl
  · have hwhole := received_unbroken hrole hin (unbroken_whole env t.recvs _)
    dsimp only at hwhole
    rw [hwhole] at h
    refine unbroken_of_received h ?_
    rw [List.length_drop, htotal, hbytes, List.length_append, htail]
    grind
  · have hwhole := received_unbroken hrole hin (unbroken_whole env t.recvs _)
    rw [hwhole, received_unbroken hrole hin hun]
    rfl

end Pieces

/-- A short header that comes whole, behind another frame's last byte. -/
theorem received_iff_short :
    idle.role = .server ∧ received (envOf (fun _ => 31) fun _ => 0) idle
      { incoming := 0x81 :: UInt8.ofNat (128 + lenCode 5) :: (headerTail (fun i => UInt8.ofNat (i + 1)) 5 ++ [7]) } =
        some (0x81 * 256 + (128 + lenCode 5), 5, (fun i => UInt8.ofNat (i + 1) : Mask), ([7] : List UInt8)) :=
  ⟨rfl, (received_iff (envOf (fun _ => 31) fun _ => 0) idle _ 0x81 (fun i => UInt8.ofNat (i + 1)) 5 [7] rfl rfl).1.2
    ⟨⟨by decide, by decide⟩, by decide⟩⟩

/-- The same header, its first byte alone: the second is taken from the stack, and the header is refused. -/
theorem not_received_apart :
    received (envOf (fun i => if i = 0 then 0 else 31) fun _ => 0) idle
        { incoming := 0x81 :: 0x85 :: ([1, 2, 3, 4] ++ [7]) } = none ∧
      (received (envOf (fun i => if i = 0 then 0 else 31) fun _ => 0).whole idle
          { incoming := 0x81 :: 0x85 :: ([1, 2, 3, 4] ++ [7]) }).map (fun r => (r.1, r.2.1, List.ofFn r.2.2.1, r.2.2.2)) =
        some (0x8185, 5, [1, 2, 3, 4], [7]) :=
  ⟨rfl, by decide⟩

end WebSocket

end YieldStm32
