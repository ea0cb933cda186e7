import YieldStm32.Net.Mdns.Frame

/-!
# The accesses of `MDNSFrame_DecodeName`

* `Sane` : the invariant of the loop: what is read is in the frame and what is written in the destination, every byte of
  the destination before the pointer has been written, and what was consumed is in the frame;
* `inBounds_of_decodeName` : after any number of passes, and what holds if it has returned.
-/

namespace YieldStm32.Mdns

/-- The access is to a byte of the frame, or of the destination. -/
def InBounds (frameSize dstSize : Nat) : Access → Prop
  | .read i => i < frameSize
  | .write i => i < dstSize

namespace Decoder

variable {m : Nat → UInt8} {frameSize dstSize offset : Nat} {c c' : Decoder}

/-! ## What is written -/

section

variable (c : Decoder) (i n : Nat) (v : UInt8)

@[simp] theorem write_self : (c.write i v).dst i = v := Function.update_self ..
@[simp] theorem put_s : (c.put v).s = c.s := rfl
@[simp] theorem put_d : (c.put v).d = c.d + 1 := rfl
@[simp] theorem put_consumed : (c.put v).consumed = c.consumed := rfl
@[simp] theorem put_jumped : (c.put v).jumped = c.jumped := rfl
@[simp] theorem put_log : (c.put v).log = c.log ++ [.write c.d] := rfl
@[simp] theorem put_self : (c.put v).dst c.d = v := Function.update_self ..

end

/-- A label that is copied: where the pointers are, what was accessed and what is written. -/
structure Copied (m : Nat → UInt8) (n : Nat) (c c' : Decoder) : Prop where
  s : c'.s = c.s + n
  d : c'.d = c.d + n
  consumed : c'.consumed = c.consumed
  jumped : c'.jumped = c.jumped
  mem_log : ∀ a, a ∈ c'.log ↔ a ∈ c.log ∨ ∃ i < n, a = .read (c.s + i) ∨ a = .write (c.d + i)
  label : ∀ i < n, c'.dst (c.d + i) = m (c.s + i)
  before : ∀ j < c.d, c'.dst j = c.dst j

theorem copied (m : Nat → UInt8) (n : Nat) (c : Decoder) : Copied m n c (copy m n c) := by
  induction n generalizing c with
  | zero =>
      refine ⟨rfl, rfl, rfl, rfl, fun a => (or_iff_left ?_).symm, fun i hi => absurd hi (Nat.not_lt_zero i), fun _ _ => rfl⟩
      rintro ⟨i, hi, -⟩
      exact Nat.not_lt_zero i hi
  | succ n ih =>
      obtain ⟨hs, hd, hc, hj, hlog, hlabel, hbefore⟩ := ih ({ c.peek c.s with s := c.s + 1 }.put (m c.s))
      dsimp only [peek, put, write] at hs hd hc hj hlog hlabel hbefore
      refine ⟨?_, ?_, hc, hj, fun a => ?_, fun i hi => ?_, fun j hlt => ?_⟩
      · rw [copy]
        dsimp only [peek, put, write]
        omega
      · rw [copy]
        dsimp only [peek, put, write]
        omega
      · rw [copy]
        dsimp only [peek, put, write]
        rw [hlog]
        simp only [List.mem_append, List.mem_singleton]
        constructor
        · rintro (((ha | rfl) | rfl) | ⟨i, hi, ha⟩)
          · exact Or.inl ha
          · exact Or.inr ⟨0, Nat.succ_pos n, Or.inl rfl⟩
          · exact Or.inr ⟨0, Nat.succ_pos n, Or.inr rfl⟩
          · rw [Nat.add_right_comm, Nat.add_right_comm c.d] at ha
            exact Or.inr ⟨i + 1, Nat.succ_lt_succ hi, ha⟩
        · rintro (ha | ⟨i, hi, ha⟩)
          · exact Or.inl (Or.inl (Or.inl ha))
          · cases i with
            | zero => exact Or.inl (ha.imp Or.inr id)
            | succ i =>
                rw [← Nat.add_assoc, ← Nat.add_assoc, Nat.add_right_comm, Nat.add_right_comm c.d] at ha
                exact Or.inr ⟨i, Nat.lt_of_succ_lt_succ hi, ha⟩
      · rw [copy]
        cases i with
        | zero =>
            exact (hbefore c.d (Nat.lt_succ_self _)).trans (Function.update_self ..)
        | succ i =>
            have h := hlabel i (Nat.lt_of_succ_lt_succ hi)
            rwa [Nat.add_right_comm, Nat.add_right_comm c.s] at h
      · rw [copy]
        exact (hbefore j (Nat.lt_succ_of_lt hlt)).trans (Function.update_of_ne (Nat.ne_of_lt hlt) ..)

/-! ## The invariant -/

structure Sane (frameSize dstSize offset : Nat) (c : Decoder) : Prop where
  accesses : ∀ a ∈ c.log, InBounds frameSize dstSize a
  room : c.d ≤ dstSize
  written : ∀ j < c.d, .write j ∈ c.log
  consumed : c.consumed ≤ frameSize - offset
  position : c.jumped = false → c.s = offset + c.consumed

theorem sane_start (frameSize dstSize offset : Nat) (dst : Nat → UInt8) :
    Sane frameSize dstSize offset (start offset dst) :=
  ⟨fun _ h => absurd h List.not_mem_nil, Nat.zero_le _, fun _ h => absurd h (Nat.not_lt_zero _), Nat.zero_le _, fun _ => rfl⟩

theorem Sane.peek (h : Sane frameSize dstSize offset c) {i : Nat} (hi : i < frameSize) :
    Sane frameSize dstSize offset (c.peek i) := by
  refine ⟨fun a ha => ?_, h.room, fun j hj => List.mem_append_left _ (h.written j hj), h.consumed, h.position⟩
  rcases List.mem_append.1 ha with ha | ha
  · exact h.accesses a ha
  · rw [List.mem_singleton.1 ha]
    exact hi

theorem Sane.put (h : Sane frameSize dstSize offset c) (hroom : c.d < dstSize) (v : UInt8) :
    Sane frameSize dstSize offset (c.put v) := by
  refine ⟨fun a ha => ?_, hroom, fun j hj => ?_, h.consumed, h.position⟩
  · rcases List.mem_append.1 ha with ha | ha
    · exact h.accesses a ha
    · rw [List.mem_singleton.1 ha]
      exact hroom
  · rcases Nat.lt_succ_iff_lt_or_eq.1 hj with hj | rfl
    · exact List.mem_append_left _ (h.written j hj)
    · exact List.mem_append_right _ (List.mem_singleton_self _)

/-! ## One pass -/

/-- The pointer is behind the byte it was at, which was looked at, and `n` bytes are to be consumed. -/
def take (c : Decoder) (n : Nat) : Decoder := { c.peek c.s with s := c.s + 1 }.consume n

/-- What a pass does, if the destination has not been left. -/
inductive Passes (m : Nat → UInt8) (frameSize dstSize : Nat) (c : Decoder) : Option Int → Decoder → Prop
  | error (ec : Int) (s : Nat) (hec : ec < 0) (hs : c.s < frameSize) :
      Passes m frameSize dstSize c (some ec) { c.peek c.s with s := s }
  | outside (hs : frameSize ≤ c.s) : Passes m frameSize dstSize c (some efatal) c
  | done (hs : c.s < frameSize) (hzero : (m c.s).toNat = 0) (hroom : c.d < dstSize) :
      Passes m frameSize dstSize c (some (c.take 1).consumed) (c.take 1).terminate
  | label (l : Nat) (hl : (m c.s).toNat = l) (hpos : 0 < l) (hlt : l < 0x40) (hs : c.s + (l + 1) ≤ frameSize)
      (hroom : c.d + (l + 1) ≤ dstSize) :
      Passes m frameSize dstSize c none ((copy m l (c.take (l + 1))).put dot)
  | pointer (hs : c.s + 2 ≤ frameSize) (hp : 0xc0 ≤ (m c.s).toNat) :
      Passes m frameSize dstSize c none ((c.peek c.s).pointer m)

theorem pass_spec (m : Nat → UInt8) (frameSize : Nat) (hroom : c.d ≤ dstSize) :
    Passes m frameSize dstSize c (pass m frameSize dstSize c).1 (pass m frameSize dstSize c).2 := by
  unfold pass
  dsimp only
  by_cases hleft : 1 ≤ frameSize - c.s
  · have hs : c.s < frameSize := by omega
    rw [if_pos hleft]
    by_cases hlabel : (m c.s).toNat < 0x40
    · rw [if_pos ⟨hleft, hlabel⟩]
      unfold Decoder.label
      dsimp only [peek]
      split
      · exact .error eargval (c.s + 1) (by decide) hs
      · rename_i hfits
        split
        · rename_i hzero
          rw [hzero]
          exact .done hs hzero (by omega)
        · rename_i hpos
          exact .label _ rfl (Nat.pos_of_ne_zero hpos) hlabel (by omega) (by omega)
    · rw [if_neg fun h => hlabel h.2]
      by_cases hp : 2 ≤ frameSize - c.s ∧ 0xc0 ≤ (m c.s).toNat
      · rw [if_pos hp]
        exact .pointer (by omega) hp.2
      · rw [if_neg hp]
        exact .error efatal c.s (by decide) hs
  · rw [if_neg hleft, if_neg fun h => hleft h.1, if_neg fun h => hleft (Nat.le_of_succ_le h.1)]
    exact .outside (by omega)

theorem passes_of_eq {o : Option Int} (hroom : c.d ≤ dstSize) (h : pass m frameSize dstSize c = (o, c')) :
    Passes m frameSize dstSize c o c' := by
  have hspec := @pass_spec dstSize c m frameSize hroom
  rw [h] at hspec
  exact hspec

/-- A label that is in the frame, and for which there is room. -/
theorem pass_label {l : Nat} (hl : (m c.s).toNat = l) (hpos : 0 < l) (hlt : l < 0x40) (hs : c.s + (l + 1) ≤ frameSize)
    (hroom : c.d + (l + 1) ≤ dstSize) :
    pass m frameSize dstSize c = (none, (copy m l (c.take (l + 1))).put dot) := by
  have hleft : 1 ≤ frameSize - c.s := by omega
  have hfits : ¬ (frameSize - c.s - 1 < l ∨ dstSize - c.d < l + 1) := by omega
  unfold pass
  dsimp only
  rw [hl, if_pos hleft, if_pos ⟨hleft, hlt⟩]
  unfold Decoder.label
  dsimp only [peek]
  rw [hl, if_neg hfits, if_neg (Nat.ne_of_gt hpos)]
  rfl

/-- The end of a name. -/
theorem pass_zero (hzero : (m c.s).toNat = 0) (hs : c.s < frameSize) (hroom : c.d < dstSize) :
    pass m frameSize dstSize c = (some ((c.take 1).consumed : Int), (c.take 1).terminate) := by
  have hleft : 1 ≤ frameSize - c.s := by omega
  have hfits : ¬ (frameSize - c.s - 1 < 0 ∨ dstSize - c.d < 0 + 1) := by omega
  unfold pass
  dsimp only
  rw [hzero, if_pos hleft, if_pos ⟨hleft, by decide⟩]
  unfold Decoder.label
  dsimp only [peek]
  rw [hzero, if_neg hfits, if_pos rfl]
  rfl

/-- What is consumed where no pointer was followed is what the pointer goes over. -/
theorem Sane.consume (h : Sane frameSize dstSize offset c) {n : Nat} (hn : c.s + n ≤ frameSize) :
    (c.consume n).consumed ≤ frameSize - offset ∧
      (c.jumped = false → c.s + n = offset + (c.consume n).consumed) := by
  unfold Decoder.consume
  dsimp only
  cases hj : c.jumped with
  | true => exact ⟨h.consumed, fun h => by cases h⟩
  | false =>
      have hpos := h.position hj
      rw [if_neg Bool.false_ne_true]
      omega

/-- The state after a label of `n - 1` bytes, without the bytes. -/
theorem Sane.take (h : Sane frameSize dstSize offset c) {n : Nat} (hpos : 0 < n) (hs : c.s + n ≤ frameSize) :
    Sane frameSize dstSize offset { c.take n with s := c.s + n } := by
  have hpeek := h.peek (show c.s < frameSize by omega)
  obtain ⟨hle, heq⟩ := h.consume hs
  exact ⟨hpeek.accesses, h.room, hpeek.written, hle, heq⟩

/-- A pass that goes on keeps the invariant. -/
theorem sane_goes (h : Sane frameSize dstSize offset c) (hp : Passes m frameSize dstSize c none c') :
    Sane frameSize dstSize offset c' := by
  cases hp with
  | label l hl hpos hlt hs hroom =>
      have htake := h.take (Nat.succ_pos l) hs
      have hcopy := copied m l (c.take (l + 1))
      have hd : (copy m l (c.take (l + 1))).d = c.d + l := hcopy.d
      have hsane : Sane frameSize dstSize offset (copy m l (c.take (l + 1))) := by
        refine ⟨fun a ha => ?_, ?_, fun j hj => ?_, ?_, fun hj => ?_⟩
        · rcases (hcopy.mem_log a).1 ha with ha | ⟨i, hi, rfl | rfl⟩
          · exact htake.accesses a ha
          · show c.s + 1 + i < frameSize
            omega
          · show c.d + i < dstSize
            omega
        · omega
        · rw [hcopy.mem_log]
          by_cases hlt : j < c.d
          · exact Or.inl (htake.written j hlt)
          · exact Or.inr ⟨j - c.d, by omega, Or.inr (congrArg Access.write (show j = c.d + (j - c.d) by omega))⟩
        · rw [hcopy.consumed]
          exact htake.consumed
        · rw [hcopy.s, hcopy.consumed, ← htake.position (hcopy.jumped.symm.trans hj)]
          exact Nat.add_right_comm c.s 1 l
      exact hsane.put (by omega) dot
  | pointer hs hp =>
      obtain ⟨hle, -⟩ := h.consume hs
      have hpeek := (h.peek (show c.s < frameSize by omega)).peek (show c.s + 1 < frameSize by omega)
      exact ⟨hpeek.accesses, h.room, hpeek.written, hle, fun hj => by cases hj⟩

/-- What the function leaves: accesses in bounds, and, if it is no error, a string in the destination that it has written,
and no more bytes of the frame than there are. -/
structure Left (frameSize dstSize offset : Nat) (ec : Int) (c : Decoder) : Prop where
  accesses : ∀ a ∈ c.log, InBounds frameSize dstSize a
  string : 0 ≤ ec → ∃ i < dstSize, c.dst i = 0 ∧ ∀ j ≤ i, .write j ∈ c.log
  consumed : 0 ≤ ec → ec ≤ ((frameSize - offset : Nat) : Int)

theorem left_ends {ec : Int} (h : Sane frameSize dstSize offset c) (hp : Passes m frameSize dstSize c (some ec) c') :
    Left frameSize dstSize offset ec c' := by
  cases hp with
  | error ec s hec hs =>
      exact ⟨(h.peek hs).accesses, fun hpos => absurd hpos (Int.not_le.2 hec), fun hpos => absurd hpos (Int.not_le.2 hec)⟩
  | outside hs => exact ⟨h.accesses, fun hpos => absurd hpos (by decide), fun hpos => absurd hpos (by decide)⟩
  | done hs hzero hroom =>
      have htake := h.take Nat.one_pos (show c.s + 1 ≤ frameSize from hs)
      have hd : (c.take 1).d = c.d := rfl
      unfold terminate
      split
      · rename_i hpos
        rw [hd] at hpos ⊢
        refine ⟨fun a ha => ?_, fun _ => ⟨c.d - 1, by omega, write_self .., fun j hj => ?_⟩, fun _ => ?_⟩
        · rcases List.mem_append.1 ha with ha | ha
          · exact htake.accesses a ha
          · rw [List.mem_singleton.1 ha]
            show c.d - 1 < dstSize
            omega
        · exact List.mem_append_left _ (htake.written j (show j < c.d by omega))
        · exact Int.ofNat_le.2 htake.consumed
      · rename_i hzero'
        have hput := htake.put (show c.d < dstSize from hroom) 0
        rw [hd, not_not] at hzero'
        refine ⟨hput.accesses, fun _ => ⟨0, by omega, ?_, fun j hj => ?_⟩, fun _ => Int.ofNat_le.2 htake.consumed⟩
        · have hself := put_self (c.take 1) 0
          rwa [hd, hzero'] at hself
        · exact hput.written j (show j < c.d + 1 by omega)

/-- After any number of passes. -/
theorem left_decodeName (m : Nat → UInt8) (frameSize offset dstSize : Nat) (dst : Nat → UInt8) (k : Nat) :
    (∀ a ∈ (decodeName m frameSize offset dstSize dst k).2.log, InBounds frameSize dstSize a) ∧
      ∀ ec ∈ (decodeName m frameSize offset dstSize dst k).1,
        Left frameSize dstSize offset ec (decodeName m frameSize offset dstSize dst k).2 := by
  obtain ⟨hgo, hend⟩ := @Loop.passes_induction _ _ (pass m frameSize dstSize) (Sane frameSize dstSize offset)
    (Left frameSize dstSize offset) (fun c c' h hp => sane_goes h (passes_of_eq h.room hp))
    (fun c c' ec h hp => left_ends h (passes_of_eq h.room hp)) k (.start offset dst) (sane_start frameSize dstSize offset dst)
  refine ⟨?_, hend⟩
  cases hres : (decodeName m frameSize offset dstSize dst k).1 with
  | none => exact (hgo hres).accesses
  | some ec => exact (hend ec hres).accesses

end Decoder

/-- **`MDNSFrame_DecodeName` stays in bounds**, in any part of a run, and leaves a string in the destination. -/
theorem inBounds_of_decodeName (m : Nat → UInt8) (frameSize offset dstSize : Nat) (dst : Nat → UInt8) (k : Nat) :
    (∀ a ∈ (decodeName m frameSize offset dstSize dst k).2.log, InBounds frameSize dstSize a) ∧
      ∀ ec ∈ (decodeName m frameSize offset dstSize dst k).1, 0 ≤ ec →
        (∃ i < dstSize, (decodeName m frameSize offset dstSize dst k).2.dst i = 0 ∧
            ∀ j ≤ i, .write j ∈ (decodeName m frameSize offset dstSize dst k).2.log) ∧
          ec ≤ ((frameSize - offset : Nat) : Int) := by
  obtain ⟨haccesses, hleft⟩ := Decoder.left_decodeName m frameSize offset dstSize dst k
  exact ⟨haccesses, fun ec hec hpos => ⟨(hleft ec hec).string hpos, (hleft ec hec).consumed hpos⟩⟩

end YieldStm32.Mdns
