import YieldStm32.Dev.Eem.Receive
import YieldStm32.Lib.Run

/-!
# The detection of the byte order (`USBEEM_RxTask`)

The receive task among the transfers of a host and USB resets, round by round.

* `Order`, `Packet` : a host, and what its transfers are made of;
* `step` : a transfer that comes in, a round of the loop, a reset;
* `neverWrong_iff` : when the order detected is the host's;
* `right_of_packets` : a condition on the packets, for a host that is little endian.

An order is taken for the host's when the first bytes of a packet, read in it, announce a packet as long as the whole
transfer; big endian is tried first.
-/

namespace YieldStm32.Eem.Detection

open Ring Transition

/-! ## Hosts -/

/-- The byte order of a host. -/
inductive Order where
  | le
  | be
deriving DecidableEq, Repr

def Order.endiannes : Order → Endiannes
  | .le => .le
  | .be => .be

/-- The header that a host stores for `hdr`, as the processor reads it. -/
def Order.store : Order → BitVec 16 → BitVec 16
  | .le, hdr => hdr
  | .be, hdr => htobe16 hdr

/-- A data packet, a command or a packet of length zero: a header, and the payload it announces. -/
structure Packet where
  hdr : BitVec 16
  pld : List UInt8
  length_eq : pld.length = (extractHdrFields .le hdr).pldLen

/-- A packet as it lies in a transfer. -/
def Packet.encode (h : Order) (p : Packet) : List UInt8 := Little.bytes 2 (h.store p.hdr).toNat ++ p.pld

@[simp] theorem Packet.length_encode (h : Order) (p : Packet) : (p.encode h).length = 2 + p.pld.length := by
  rw [encode, List.length_append, Little.length_bytes]

theorem hdrAt_of_encode {m : Mem} {p : Nat} {h : Order} {pk : Packet}
    (hbytes : copyOut m p (pk.encode h).length = pk.encode h) : hdrAt m p = h.store pk.hdr := by
  rw [Packet.length_encode, copyOut_add, Packet.encode] at hbytes
  obtain ⟨hhdr, -⟩ := List.append_inj hbytes (by rw [length_copyOut, Little.length_bytes])
  exact hdrAt_of_copyOut hhdr

/-- The transfer that is taken apart, which is done where the offset has come to its size. -/
structure Task where
  rx : Rx
  transfer : Mem
  size : Nat

/-- A transfer comes in, on top of what the buffer held; a round of the loop; a USB reset. -/
inductive Event where
  | transfer (ps : List Packet) (old : Mem)
  | round
  | reset

def step (h : Order) (n : Task) : Event → Option Task
  | .transfer ps old =>
    if n.rx.offs < n.size then none
    else
      let bytes := ps.flatMap (Packet.encode h)
      some ⟨{ n.rx with offs := 0 }, copyIn old 0 bytes, bytes.length⟩
  | .round =>
    if n.rx.offs < n.size then
      let r := rxFrame n.transfer n.size n.rx
      -- the `break` leaves the loop
      some { n with rx := if r.2 then r.1 else { r.1 with offs := n.size } }
    else none
  | .reset => some { n with rx := { n.rx with endiannes := .unknown } }

/-- No transfer, no order, no frames. -/
def start : Task := ⟨⟨0, .unknown, []⟩, fun _ => 0, 0⟩

theorem step_round (h : Order) {n : Task} (hmore : n.rx.offs < n.size) :
    step h n .round = some { n with
      rx := if (rxFrame n.transfer n.size n.rx).2 then (rxFrame n.transfer n.size n.rx).1
        else { (rxFrame n.transfer n.size n.rx).1 with offs := n.size } } := if_pos hmore

/-- The loop over a transfer is rounds, until it is done. -/
theorem run_rounds (h : Order) {k : Nat} {n : Task} (hk : n.size ≤ n.rx.offs + k) :
    ∃ j n', run (step h) n (List.replicate j .round) = some n' ∧ n.size ≤ n'.rx.offs ∧
      n'.rx.endiannes = (rxLoop n.transfer n.size k n.rx).endiannes ∧
      n'.rx.frames = (rxLoop n.transfer n.size k n.rx).frames := by
  induction k generalizing n with
  | zero => exact ⟨0, n, rfl, hk, rfl, rfl⟩
  | succ k ih =>
      rw [rxLoop]
      by_cases hmore : n.rx.offs < n.size
      case neg =>
        rw [if_neg hmore]
        exact ⟨0, n, rfl, Nat.not_lt.1 hmore, rfl, rfl⟩
      rw [if_pos hmore]
      have hstep := step_round h hmore
      cases hgo : (rxFrame n.transfer n.size n.rx).2 with
      | false =>
          rw [hgo, if_neg Bool.false_ne_true] at hstep
          refine ⟨1, _, run_cons [] hstep, Nat.le_refl _, ?_, ?_⟩
          · rw [if_neg Bool.false_ne_true]
          · rw [if_neg Bool.false_ne_true]
      | true =>
          rw [hgo, if_pos rfl] at hstep
          have hoffs := rxFrame_offs n.transfer n.size n.rx hgo
          obtain ⟨j, n', hrun, hend⟩ := ih (n := { n with rx := (rxFrame n.transfer n.size n.rx).1 })
            (show n.size ≤ (rxFrame n.transfer n.size n.rx).1.offs + k by omega)
          rw [if_pos rfl]
          exact ⟨j + 1, n', (run_cons _ hstep).trans hrun, hend⟩

/-! ## Headers that mislead -/

/-- A transfer is as long as the packet that the header announces in the other order, which is tried first, or alone fits. -/
def Misleads : Order → BitVec 16 → Nat → Prop
  | .le, hdr, size => ¬ (hdr = 0 ∧ size = 2) ∧ size = (extractHdrFields .be hdr).pldLen + 2
  | .be, hdr, size => size ≠ (extractHdrFields .be hdr).pldLen + 2 ∧ size = (extractHdrFields .le hdr).pldLen + 2

theorem detect_right_iff (h : Order) (hdr : BitVec 16) (size : Nat) :
    (detect hdr size).2 = .unknown ∨ (detect hdr size).2 = h.endiannes ↔ ¬ Misleads h hdr size := by
  unfold detect
  dsimp only
  by_cases hzero : hdr = 0 ∧ size = 2
  · rw [if_pos hzero]
    refine iff_of_true (Or.inl rfl) ?_
    obtain ⟨rfl, rfl⟩ := hzero
    cases h with
    | le => exact fun hmis => hmis.1 ⟨rfl, rfl⟩
    | be => exact fun hmis => hmis.1 rfl
  rw [if_neg hzero]
  by_cases hbe : size = (extractHdrFields .be hdr).pldLen + 2
  · rw [if_pos hbe]
    cases h with
    | le => exact iff_of_false (fun hright => hright.elim nofun nofun) (not_not_intro ⟨hzero, hbe⟩)
    | be => exact iff_of_true (Or.inr rfl) fun hmis => hmis.1 hbe
  rw [if_neg hbe]
  by_cases hle : size = (extractHdrFields .le hdr).pldLen + 2
  · rw [if_pos hle]
    cases h with
    | le => exact iff_of_true (Or.inr rfl) fun hmis => hbe hmis.2
    | be => exact iff_of_false (fun hright => hright.elim nofun nofun) (not_not_intro ⟨hbe, hle⟩)
  rw [if_neg hle]
  refine iff_of_true (Or.inl rfl) ?_
  cases h with
  | le => exact fun hmis => hbe hmis.2
  | be => exact fun hmis => hle hmis.2

/-- The order is not known, or the host's. -/
def Task.Right (h : Order) (n : Task) : Prop := n.rx.endiannes = .unknown ∨ n.rx.endiannes = h.endiannes

/-- The order after a step. -/
def StaysRight (h : Order) (_ : Task) (_ : Event) (n' : Task) : Prop := n'.Right h

/-- No header that is read while the order is not known misleads. -/
def Unmistaken (h : Order) (n : Task) : Event → Prop
  | .round =>
    n.rx.offs < n.size → n.rx.endiannes = .unknown → ¬ Misleads h (hdrAt n.transfer n.rx.offs) n.size
  | .transfer .. | .reset => True

/-- The order after a round. -/
theorem endiannes_round {h : Order} {n n' : Task} (hs : step h n .round = some n') :
    n'.rx.endiannes = (rxFields n.transfer n.size n.rx).2 := by
  by_cases hmore : n.rx.offs < n.size
  · rw [step_round h hmore] at hs
    obtain rfl := Option.some.inj hs
    rw [← rxFrame_endiannes]
    dsimp only
    split <;> rfl
  · exact nomatch hs.symm.trans (if_neg hmore)

theorem staysRight_step {h : Order} {n n' : Task} {e : Event} (hn : n.Right h) (hs : step h n e = some n') :
    StaysRight h n e n' ↔ Unmistaken h n e := by
  cases e with
  | transfer ps old =>
      unfold step at hs
      dsimp only at hs
      split at hs
      · cases hs
      · obtain rfl := Option.some.inj hs
        exact iff_of_true hn True.intro
  | reset =>
      obtain rfl := Option.some.inj hs
      exact iff_of_true (Or.inl rfl) True.intro
  | round =>
      have hmore : n.rx.offs < n.size := by
        by_contra hdone
        exact nomatch hs.symm.trans (if_neg hdone)
      unfold StaysRight Task.Right Unmistaken
      rw [endiannes_round hs]
      unfold rxFields
      dsimp only
      rcases hn with hunknown | hright
      · have hnot : ¬ (n.rx.endiannes = .be ∨ n.rx.endiannes = .le) := by
          rw [hunknown]
          decide
        rw [if_neg hnot, detect_right_iff]
        exact ⟨fun hmis _ _ => hmis, fun hmis => hmis hmore hunknown⟩
      · have hknown : n.rx.endiannes = .be ∨ n.rx.endiannes = .le := by
          rw [hright]
          cases h <;> decide
        rw [if_pos hknown]
        refine iff_of_true (Or.inr hright) fun _ hunknown => ?_
        rw [hunknown] at hknown
        exact absurd hknown (by decide)

theorem neverWrong_iff (h : Order) (es : List Event) :
    Along (step h) (StaysRight h) start es ↔ Meets (step h) (Unmistaken h) start es := by
  refine along_iff_meets (I := Task.Right h) ?_ ?_ (Or.inl rfl)
  · intro n e _ hnone
    cases e with
    | transfer ps old => exact True.intro
    | reset => exact True.intro
    | round =>
        intro hmore
        exact nomatch hnone.symm.trans (step_round h hmore)
  · intro n e n' hn hs
    exact ⟨staysRight_step hn hs, (staysRight_step hn hs).2⟩

/-- A single packet whose header misleads. -/
theorem not_right_of_packet {h : Order} {p : Packet} (hmis : Misleads h (h.store p.hdr) (2 + p.pld.length)) (old : Mem) :
    ¬ Along (step h) (StaysRight h) start [.transfer [p] old, .round] := by
  intro halong
  have hbytes : [p].flatMap (Packet.encode h) = p.encode h := List.flatMap_singleton ..
  have hlength : ([p].flatMap (Packet.encode h)).length = 2 + p.pld.length := by
    rw [hbytes, Packet.length_encode]
  have hmore : 0 < ([p].flatMap (Packet.encode h)).length := by omega
  obtain ⟨-, hround⟩ := halong _ rfl
  obtain ⟨n', hs⟩ : ∃ n', step h ⟨⟨0, .unknown, []⟩, copyIn old 0 ([p].flatMap (Packet.encode h)),
      ([p].flatMap (Packet.encode h)).length⟩ .round = some n' := ⟨_, step_round h hmore⟩
  have hunmistaken := (staysRight_step (Or.inl rfl) hs).1 (hround n' hs).1 hmore rfl
  have hhdr : hdrAt (copyIn old 0 ([p].flatMap (Packet.encode h))) 0 = h.store p.hdr := by
    rw [hbytes]
    exact hdrAt_of_encode (copyOut_copyIn_self ..)
  dsimp only at hunmistaken
  rw [hhdr, hlength] at hunmistaken
  exact hunmistaken hmis

/-- A frame of 253 bytes and its checksum: the header is 0x0101 in either order. -/
def palindrome : Packet := ⟨0x0101, List.replicate 257 0, (List.length_replicate ..).trans (by decide)⟩

theorem not_neverWrong_palindrome :
    ¬ Along (step .le) (StaysRight .le) start [.transfer [palindrome] fun _ => 0, .round] := by
  have hlength : palindrome.pld.length = 257 := List.length_replicate ..
  refine not_right_of_packet ?_ _
  rw [hlength]
  exact ⟨by decide, by decide⟩

/-! ## Little-endian hosts -/

/-- No packet of a transfer that comes in misleads. -/
def Announced (_ : Task) : Event → Prop
  | .transfer ps _ => ∀ p ∈ ps, ¬ Misleads .le p.hdr (ps.flatMap (Packet.encode .le)).length
  | .round | .reset => True

/-- While the order is not known, headers are read as little endian. -/
theorem detect_fields_le {hdr : BitVec 16} {size : Nat} (h : ¬ Misleads .le hdr size) :
    (detect hdr size).1 = extractHdrFields .le hdr := by
  unfold detect
  dsimp only
  by_cases hzero : hdr = 0 ∧ size = 2
  · rw [if_pos hzero, hzero.1]
    decide
  · rw [if_neg hzero, if_neg fun hbe => h ⟨hzero, hbe⟩]
    split <;> rfl

/-- The loop is at the header of a packet, if it is not done, and no packet from there on misleads. -/
structure AtPacket (n : Task) : Prop where
  right : n.Right .le
  packets : n.rx.offs < n.size → ∃ ps : List Packet,
    copyOut n.transfer n.rx.offs (n.size - n.rx.offs) = ps.flatMap (Packet.encode .le) ∧
      ∀ p ∈ ps, ¬ Misleads .le p.hdr n.size

theorem AtPacket.fields {n : Task} (h : AtPacket n) {hdr : BitVec 16} (hhdr : hdrAt n.transfer n.rx.offs = hdr)
    (hmis : ¬ Misleads .le hdr n.size) : (rxFields n.transfer n.size n.rx).1 = extractHdrFields .le hdr := by
  unfold rxFields
  rw [hhdr]
  dsimp only
  rcases h.right with hunknown | hle
  · rw [hunknown, if_neg (by decide)]
    exact detect_fields_le hmis
  · rw [hle, if_pos (by decide)]
    rfl

theorem atPacket_round {n n' : Task} (h : AtPacket n) (hs : step .le n .round = some n') :
    AtPacket n' ∧ StaysRight .le n .round n' := by
  have hmore : n.rx.offs < n.size := by
    by_contra hdone
    exact nomatch hs.symm.trans (if_neg hdone)
  obtain ⟨ps, hbytes, hmis⟩ := h.packets hmore
  cases ps with
  | nil =>
      have hlength := congrArg List.length hbytes
      rw [length_copyOut] at hlength
      exact absurd hlength (Nat.sub_ne_zero_of_lt hmore)
  | cons p ps =>
      obtain ⟨hp, hps⟩ := List.forall_mem_cons.1 hmis
      have hlength := congrArg List.length hbytes
      rw [length_copyOut, List.flatMap_cons, List.length_append] at hlength
      rw [hlength, List.flatMap_cons, copyOut_add] at hbytes
      obtain ⟨hpacket, hrest⟩ := List.append_inj hbytes (length_copyOut ..)
      have hhdr : hdrAt n.transfer n.rx.offs = p.hdr := hdrAt_of_encode hpacket
      have hfields := h.fields hhdr hp
      have hright : StaysRight .le n .round n' :=
        (staysRight_step h.right hs).2 fun _ _ => by rw [hhdr]; exact hp
      refine ⟨⟨hright, fun hmore' => ?_⟩, hright⟩
      rw [step_round .le hmore] at hs
      obtain rfl := Option.some.inj hs
      rcases rxFrame_next n.transfer n.size n.rx with ⟨hbreak, -⟩ | ⟨hgo, -, hoffs, -⟩
      · dsimp only at hmore'
        rw [if_neg (by rw [hbreak]; decide)] at hmore'
        exact absurd hmore' (Nat.lt_irrefl _)
      · refine ⟨ps, ?_, hps⟩
        dsimp only
        rw [if_pos hgo, hoffs, hfields, ← p.length_eq]
        rw [Packet.length_encode] at hlength hrest
        have hleft : n.size - (n.rx.offs + (p.pld.length + 2)) = (ps.flatMap (Packet.encode .le)).length := by omega
        rw [hleft, Nat.add_comm p.pld.length]
        exact hrest

theorem atPacket_step {n n' : Task} {e : Event} (h : AtPacket n) (hannounced : Announced n e)
    (hs : step .le n e = some n') : AtPacket n' ∧ StaysRight .le n e n' := by
  cases e with
  | transfer ps old =>
      unfold step at hs
      dsimp only at hs
      split at hs
      · cases hs
      · obtain rfl := Option.some.inj hs
        exact ⟨⟨h.right, fun _ => ⟨ps, copyOut_copyIn_self .., hannounced⟩⟩, h.right⟩
  | reset =>
      obtain rfl := Option.some.inj hs
      exact ⟨⟨Or.inl rfl, h.packets⟩, Or.inl rfl⟩
  | round => exact atPacket_round h hs

/-- For a little-endian host, it is enough that no packet it sends has a header that, with its bytes swapped, announces a
packet as long as the transfer. -/
theorem right_of_packets {es : List Event} (h : Meets (step .le) Announced start es) :
    Along (step .le) (StaysRight .le) start es :=
  along_of_meets (I := AtPacket) (fun _ _ _ => atPacket_step) ⟨Or.inl rfl, fun hmore => absurd hmore (Nat.lt_irrefl 0)⟩ h

end YieldStm32.Eem.Detection
