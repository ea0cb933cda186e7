import YieldStm32.Dev.Eem.Frame

/-!
# What the receive task reads of a transfer (`USBEEM_RxTask`)

* `rxLoopAmong` : the loop, with USB resets that come in while the task waits for room in the ring;
* `rxRounds`, `rxCopy` : the headers it reads, and the bytes it copies;
* `Whole` : transfers whose packets have what their headers announce;
* `staysInside_iff` : when the task reads nothing but the transfer.

The length of a packet is compared with the size of the buffer it is copied to, and not with what is left of the transfer.
-/

namespace YieldStm32.Eem

open Ring

/-! ## The loop among the other tasks -/

/-- `USBEEM_ResetCallback`, if a reset came in before the round at this offset. -/
def Rx.interrupted (reset : Nat → Bool) (s : Rx) : Rx := if reset s.offs then { s with endiannes := .unknown } else s

/-- The loop of `USBEEM_RxTask`, for up to `n` rounds. -/
def rxLoopAmong (reset : Nat → Bool) (m : Mem) (size : Nat) : Nat → Rx → Rx
  | 0, s => s
  | n + 1, s =>
    if s.offs < size then
      let s := s.interrupted reset
      if (rxFrame m size s).2 then rxLoopAmong reset m size n (rxFrame m size s).1 else (rxFrame m size s).1
    else s

theorem rxLoopAmong_quiet (m : Mem) (size n : Nat) (s : Rx) :
    rxLoopAmong (fun _ => false) m size n s = rxLoop m size n s := by
  induction n generalizing s with
  | zero => rfl
  | succ n ih =>
      rw [rxLoopAmong, rxLoop]
      dsimp only
      rw [ih]
      rfl

/-- The loop is entered with `s`, and left with `s'`. -/
inductive Left (reset : Nat → Bool) (m : Mem) (size : Nat) : Rx → Rx → Prop where
  | done {s : Rx} (h : size ≤ s.offs) : Left reset m size s s
  | broken {s : Rx} (h : s.offs < size) (hbreak : (rxFrame m size (s.interrupted reset)).2 = false) :
    Left reset m size s (rxFrame m size (s.interrupted reset)).1
  | next {s s' : Rx} (h : s.offs < size) (hgo : (rxFrame m size (s.interrupted reset)).2 = true)
    (hrest : Left reset m size (rxFrame m size (s.interrupted reset)).1 s') : Left reset m size s s'

/-! ## What is read -/

/-- The states in which the rounds begin; each of them reads the header at its offset. -/
def rxRounds (reset : Nat → Bool) (m : Mem) (size : Nat) : Nat → Rx → List Rx
  | 0, _ => []
  | n + 1, s =>
    if s.offs < size then
      let s := s.interrupted reset
      s :: if (rxFrame m size s).2 then rxRounds reset m size n (rxFrame m size s).1 else []
    else []

/-- The start and the length of the copy of a round that stores a frame. -/
def rxCopy (m : Mem) (size : Nat) (s : Rx) : Option (Nat × Nat) :=
  let f := (rxFields m size s).1
  if f.type ≠ 0x0000 ∨ f.pldLen < 4 then none else some (s.offs + 2, min maxEthFrameLen (f.pldLen - 4))

theorem interrupted_offs (reset : Nat → Bool) (s : Rx) : (s.interrupted reset).offs = s.offs := by
  unfold Rx.interrupted
  split <;> rfl

theorem interrupted_frames (reset : Nat → Bool) (s : Rx) : (s.interrupted reset).frames = s.frames := by
  unfold Rx.interrupted
  split <;> rfl

section Frame

variable (m : Mem) (size : Nat) (s : Rx)

/-- The loop goes on, behind the payload, unless the packet is a data packet with no room for its checksum. -/
theorem rxFrame_next :
    (rxFrame m size s).2 = false ∧ (rxFields m size s).1.type = 0x0000 ∧ (rxFields m size s).1.pldLen < 4 ∨
      (rxFrame m size s).2 = true ∧ ¬ ((rxFields m size s).1.type = 0x0000 ∧ (rxFields m size s).1.pldLen < 4) ∧
        (rxFrame m size s).1.offs = s.offs + ((rxFields m size s).1.pldLen + 2) ∧
        (rxFrame m size s).1.endiannes = (rxFields m size s).2 := by
  unfold rxFrame
  dsimp only
  by_cases htype : (rxFields m size s).1.type = 0x0000
  · rw [if_neg (not_not.2 htype)]
    by_cases hshort : (rxFields m size s).1.pldLen < 4
    · rw [if_pos hshort]
      exact Or.inl ⟨rfl, htype, hshort⟩
    · rw [if_neg hshort]
      exact Or.inr ⟨rfl, fun h => hshort h.2, rfl, rfl⟩
  · rw [if_pos htype]
    exact Or.inr ⟨rfl, fun h => htype h.1, rfl, rfl⟩

theorem rxFrame_endiannes : (rxFrame m size s).1.endiannes = (rxFields m size s).2 := by
  unfold rxFrame
  dsimp only
  split
  · rfl
  · split <;> rfl

/-- The frames stored are the bytes copied. -/
theorem rxFrame_frames :
    (rxFrame m size s).1.frames = s.frames ++ (rxCopy m size s).toList.map fun r => copyOut m r.1 r.2 := by
  unfold rxFrame rxCopy
  dsimp only
  by_cases htype : (rxFields m size s).1.type = 0x0000
  · rw [if_neg (not_not.2 htype)]
    by_cases hshort : (rxFields m size s).1.pldLen < 4
    · rw [if_pos hshort, if_pos (Or.inr hshort)]
      exact (List.append_nil _).symm
    · rw [if_neg hshort, if_neg (not_or.2 ⟨not_not.2 htype, hshort⟩)]
      rfl
  · rw [if_pos htype, if_pos (Or.inl htype)]
    exact (List.append_nil _).symm

end Frame

section Loop

variable {reset : Nat → Bool} {m : Mem} {size : Nat}

theorem rxLoopAmong_frames (n : Nat) (s : Rx) :
    (rxLoopAmong reset m size n s).frames =
      s.frames ++ (rxRounds reset m size n s).flatMap fun t => (rxCopy m size t).toList.map fun r => copyOut m r.1 r.2 := by
  induction n generalizing s with
  | zero => exact (List.append_nil _).symm
  | succ n ih =>
      rw [rxLoopAmong, rxRounds]
      by_cases hmore : s.offs < size
      · rw [if_pos hmore, if_pos hmore]
        dsimp only
        rw [List.flatMap_cons, ← List.append_assoc, ← interrupted_frames reset s, ← rxFrame_frames]
        split
        · exact ih _
        · exact (List.append_nil _).symm
      · rw [if_neg hmore, if_neg hmore]
        exact (List.append_nil _).symm

/-- Each round but the last moves on by two bytes or more. -/
theorem left_rxLoopAmong {n : Nat} {s : Rx} (hn : size ≤ s.offs + n) :
    Left reset m size s (rxLoopAmong reset m size n s) := by
  induction n generalizing s with
  | zero => exact .done hn
  | succ n ih =>
      rw [rxLoopAmong]
      by_cases hmore : s.offs < size
      · rw [if_pos hmore]
        dsimp only
        cases hgo : (rxFrame m size (s.interrupted reset)).2 with
        | false =>
            rw [if_neg Bool.false_ne_true]
            exact .broken hmore hgo
        | true =>
            have hoffs := rxFrame_offs m size (s.interrupted reset) hgo
            rw [interrupted_offs] at hoffs
            rw [if_pos rfl]
            exact .next hmore hgo (ih (by omega))
      · rw [if_neg hmore]
        exact .done (Nat.not_lt.1 hmore)

end Loop

/-- The headers that are read lie in the transfer, and so do the bytes that are copied; and the loop comes to its end. -/
structure StaysInside (reset : Nat → Bool) (m : Mem) (size : Nat) (e : Endiannes) : Prop where
  headers : ∀ s ∈ rxRounds reset m size size ⟨0, e, []⟩, s.offs + 2 ≤ size
  copies : ∀ s ∈ rxRounds reset m size size ⟨0, e, []⟩, ∀ r, rxCopy m size s = some r → r.1 + r.2 ≤ size
  ends : Left reset m size ⟨0, e, []⟩ (rxLoopAmong reset m size size ⟨0, e, []⟩)

/-! ## Whole packets -/

/-- The header made of two bytes. -/
def header (b0 b1 : UInt8) : BitVec 16 := BitVec.ofNat 16 (b0.toNat + b1.toNat * 256)

/-- The fields of a header, and the byte order after it. -/
def fieldsIn (e : Endiannes) (hdr : BitVec 16) (size : Nat) : HdrFields × Endiannes :=
  if e = .be ∨ e = .le then (extractHdrFields e hdr, e) else detect hdr size

/-- The order in force at the header with `n` bytes from it to the end. -/
def orderAt (reset : Nat → Bool) (size n : Nat) (e : Endiannes) : Endiannes :=
  if reset (size - n) then .unknown else e

/-- What is left of a transfer of `size` bytes is packets, by the order in force: each has its header, and, if it is a data
packet with room for a checksum, the bytes that are copied of it; what comes behind a shorter data packet is not looked at. -/
inductive Whole (reset : Nat → Bool) (size : Nat) : Endiannes → List UInt8 → Prop where
  | nil {e : Endiannes} : Whole reset size e []
  | packet {e : Endiannes} {b0 b1 : UInt8} {rest : List UInt8} {f : HdrFields} {e' : Endiannes}
    (hfields : fieldsIn (orderAt reset size (rest.length + 2) e) (header b0 b1) size = (f, e'))
    (hcopy : f.type = 0x0000 → 4 ≤ f.pldLen → min maxEthFrameLen (f.pldLen - 4) ≤ rest.length)
    (hrest : ¬ (f.type = 0x0000 ∧ f.pldLen < 4) → Whole reset size e' (rest.drop f.pldLen)) :
    Whole reset size e (b0 :: b1 :: rest)

theorem hdrAt_eq (m : Mem) (p : Nat) : hdrAt m p = header (m p) (m (p + 1)) := by
  unfold hdrAt header
  rw [Little.value_succ, Little.value_succ, Little.value_zero, Nat.zero_add, Nat.pow_zero, Nat.mul_one, Nat.pow_one, Nat.add_zero]

section Whole

variable {reset : Nat → Bool} {m : Mem} {size : Nat}

theorem rxFields_eq {s : Rx} (h : s.offs ≤ size) :
    rxFields m size (s.interrupted reset) =
      fieldsIn (orderAt reset size (size - s.offs) s.endiannes) (header (m s.offs) (m (s.offs + 1))) size := by
  have horder : (s.interrupted reset).endiannes = orderAt reset size (size - s.offs) s.endiannes := by
    unfold Rx.interrupted orderAt
    rw [Nat.sub_sub_self h]
    split <;> rfl
  rw [← hdrAt_eq, ← horder, ← interrupted_offs reset s]
  rfl

/-- The rounds from `s` on stay inside the transfer, and so does the copy of each of them. -/
def RoundsInside (reset : Nat → Bool) (m : Mem) (size n : Nat) (s : Rx) : Prop :=
  ∀ t ∈ rxRounds reset m size n s, t.offs + 2 ≤ size ∧ ∀ r, rxCopy m size t = some r → r.1 + r.2 ≤ size

theorem rxCopy_inside_iff {s : Rx} :
    (∀ r, rxCopy m size s = some r → r.1 + r.2 ≤ size) ↔
      ((rxFields m size s).1.type = 0x0000 → 4 ≤ (rxFields m size s).1.pldLen →
        s.offs + 2 + min maxEthFrameLen ((rxFields m size s).1.pldLen - 4) ≤ size) := by
  unfold rxCopy
  dsimp only
  by_cases hnone : (rxFields m size s).1.type ≠ 0x0000 ∨ (rxFields m size s).1.pldLen < 4
  · rw [if_pos hnone]
    refine iff_of_true (fun r hr => nomatch hr) fun htype hlen => ?_
    rcases hnone with hcommand | hshort
    · exact absurd htype hcommand
    · omega
  · obtain ⟨hdata, hlong⟩ := not_or.1 hnone
    rw [if_neg hnone]
    exact ⟨fun h _ _ => h _ rfl, fun h r hr => Option.some.inj hr ▸ h (not_not.1 hdata) (Nat.not_lt.1 hlong)⟩

theorem roundsInside_iff {n : Nat} {s : Rx} (hn : size ≤ s.offs + n) :
    RoundsInside reset m size n s ↔ Whole reset size s.endiannes (copyOut m s.offs (size - s.offs)) := by
  induction n generalizing s with
  | zero =>
      have hzero : size - s.offs = 0 := Nat.sub_eq_zero_of_le hn
      rw [hzero]
      exact iff_of_true (fun t ht => absurd ht List.not_mem_nil) .nil
  | succ n ih =>
      unfold RoundsInside
      rw [rxRounds]
      by_cases hmore : s.offs < size
      case neg =>
        have hzero : size - s.offs = 0 := Nat.sub_eq_zero_of_le (Nat.not_lt.1 hmore)
        rw [if_neg hmore, hzero]
        exact iff_of_true (fun t ht => absurd ht List.not_mem_nil) .nil
      rw [if_pos hmore]
      dsimp only
      rw [List.forall_mem_cons, interrupted_offs, rxCopy_inside_iff, interrupted_offs]
      by_cases hheader : s.offs + 2 ≤ size
      case neg =>
        -- one byte is left
        have hone : size - s.offs = 1 := by omega
        rw [hone]
        refine iff_of_false (fun h => hheader h.1.1) fun h => ?_
        cases h
      have hbytes : copyOut m s.offs (size - s.offs) =
          m s.offs :: m (s.offs + 1) :: copyOut m (s.offs + 2) (size - (s.offs + 2)) := by
        have hsplit : size - s.offs = 2 + (size - (s.offs + 2)) := by omega
        rw [hsplit, copyOut_add]
        rfl
      have hlength : (copyOut m (s.offs + 2) (size - (s.offs + 2))).length + 2 = size - s.offs := by
        rw [length_copyOut]
        omega
      obtain ⟨f, e', hfe⟩ : ∃ f e', rxFields m size (s.interrupted reset) = (f, e') := ⟨_, _, rfl⟩
      have hfields : fieldsIn (orderAt reset size ((copyOut m (s.offs + 2) (size - (s.offs + 2))).length + 2) s.endiannes)
          (header (m s.offs) (m (s.offs + 1))) size = (f, e') := by
        rw [hlength, ← hfe]
        exact (rxFields_eq (Nat.le_of_lt hmore)).symm
      have hdrop : (copyOut m (s.offs + 2) (size - (s.offs + 2))).drop f.pldLen =
          copyOut m (s.offs + (f.pldLen + 2)) (size - (s.offs + (f.pldLen + 2))) := by
        rw [drop_copyOut]
        congr 1 <;> omega
      have hnext := rxFrame_next m size (s.interrupted reset)
      rw [hfe, interrupted_offs] at hnext
      dsimp only at hnext
      rw [hfe, hbytes]
      dsimp only
      constructor
      · rintro ⟨⟨-, hcopy⟩, hrest⟩
        refine .packet hfields (fun htype hlen => ?_) fun hgo => ?_
        · have hle := hcopy htype hlen
          rw [length_copyOut]
          omega
        · rcases hnext with ⟨-, hbreak⟩ | ⟨htrue, -, hoffs, horder⟩
          · exact absurd hbreak hgo
          · rw [htrue, if_pos rfl] at hrest
            have hwhole := (ih (by omega)).1 hrest
            rw [hoffs, horder] at hwhole
            rwa [hdrop]
      · intro hwhole
        cases hwhole with
        | @packet _ _ _ _ f' e'' hfields' hcopy hrest =>
          obtain ⟨rfl, rfl⟩ := Prod.mk.inj (hfields.symm.trans hfields')
          refine ⟨⟨hheader, fun htype hlen => ?_⟩, ?_⟩
          · have hle := hcopy htype hlen
            rw [length_copyOut] at hle
            omega
          · rcases hnext with ⟨hfalse, -⟩ | ⟨htrue, hgo, hoffs, horder⟩
            · rw [hfalse, if_neg Bool.false_ne_true]
              exact fun t ht => absurd ht List.not_mem_nil
            · rw [htrue, if_pos rfl]
              refine (ih (by omega)).2 ?_
              rw [hoffs, horder, ← hdrop]
              exact hrest hgo

end Whole

theorem staysInside_iff (reset : Nat → Bool) (m : Mem) (size : Nat) (e : Endiannes) :
    StaysInside reset m size e ↔ Whole reset size e (copyOut m 0 size) := by
  have hrounds : RoundsInside reset m size size ⟨0, e, []⟩ ↔ Whole reset size e (copyOut m 0 size) :=
    roundsInside_iff (Nat.le_add_left size 0)
  refine Iff.trans ⟨fun h t ht => ⟨h.headers t ht, h.copies t ht⟩, fun h => ?_⟩ hrounds
  exact ⟨fun t ht => (h t ht).1, fun t ht => (h t ht).2, left_rxLoopAmong (Nat.le_add_left size 0)⟩

/-- A data packet of 100 bytes is announced, and four of them come. -/
theorem not_staysInside_cut :
    ¬ StaysInside (fun _ => false) (copyIn (fun _ => 0) 0 [100, 0, 1, 2, 3, 4]) 6 .le := by
  intro h
  have hcopy := h.copies _ (List.mem_cons_self ..) (2, 96) (by decide)
  exact absurd hcopy (by decide)

end YieldStm32.Eem
