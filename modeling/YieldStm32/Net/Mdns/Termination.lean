import YieldStm32.Net.Mdns.Bounds
import Mathlib.Order.Interval.Finset.Nat

/-!
# When `MDNSFrame_DecodeName` ends

Labels use up the destination; pointers use up nothing.

* `Label`, `Pointer` : what may follow an offset in a frame;
* `Next` : from an offset, with so much room in the destination, to the next one;
* `Cyclic` : pointers lead from an offset back to it;
* `ends_iff` : the loop ends if and only if no such offset is come to.
-/

namespace YieldStm32.Mdns

open Relation Loop

variable {m : Nat → UInt8} {frameSize dstSize : Nat}

/-- At `o` there is a label, and `o'` is behind it. -/
def Label (m : Nat → UInt8) (frameSize o o' : Nat) : Prop :=
  0 < (m o).toNat ∧ (m o).toNat < 0x40 ∧ o' = o + ((m o).toNat + 1) ∧ o' ≤ frameSize

/-- At `o` there is a pointer to `o'`. -/
def Pointer (m : Nat → UInt8) (frameSize o o' : Nat) : Prop :=
  o + 2 ≤ frameSize ∧ 0xc0 ≤ (m o).toNat ∧ o' = Decoder.target m o

/-- From an offset and the bytes that are free in the destination to the next one. -/
def Next (m : Nat → UInt8) (frameSize : Nat) (x y : Nat × Nat) : Prop :=
  (Label m frameSize x.1 y.1 ∧ x.2 = y.2 + (y.1 - x.1)) ∨ (Pointer m frameSize x.1 y.1 ∧ x.2 = y.2)

/-- Pointers lead from an offset back to it. -/
def Cyclic (m : Nat → UInt8) (frameSize o : Nat) : Prop := TransGen (Pointer m frameSize) o o

/-! ## The loop walks from offset to offset -/

namespace Decoder

/-- Where the loop is. -/
def place (dstSize : Nat) (c : Decoder) : Nat × Nat := (c.s, dstSize - c.d)

theorem next_of_goes {c c' : Decoder} (hroom : c.d ≤ dstSize) (h : pass m frameSize dstSize c = (none, c')) :
    c'.d ≤ dstSize ∧ Next m frameSize (c.place dstSize) (c'.place dstSize) := by
  have hspec := passes_of_eq hroom h
  cases hspec with
  | label l hl hpos hlt hs hroom' =>
      have hcopy := copied m l (c.take (l + 1))
      have hs' : (copy m l (c.take (l + 1))).s = c.s + 1 + l := hcopy.s
      have hd' : (copy m l (c.take (l + 1))).d = c.d + l := hcopy.d
      unfold place Next Label
      rw [put_d, put_s, hs', hd']
      dsimp only
      exact ⟨by omega, Or.inl ⟨⟨by omega, by omega, by omega, by omega⟩, by omega⟩⟩
  | pointer hs hp => exact ⟨hroom, Or.inr ⟨⟨hs, hp, rfl⟩, rfl⟩⟩

/-- Where there is a next offset, the loop goes on to it. -/
theorem goes_of_next {c : Decoder} {y : Nat × Nat} (hroom : c.d ≤ dstSize) (h : Next m frameSize (c.place dstSize) y) :
    ∃ c', pass m frameSize dstSize c = (none, c') ∧ c'.d ≤ dstSize ∧ c'.place dstSize = y := by
  obtain ⟨o, c', hp⟩ : ∃ o c', pass m frameSize dstSize c = (o, c') := ⟨_, _, rfl⟩
  have hnone : o = none := by
    unfold Next place at h
    dsimp only at h
    rcases h with ⟨⟨hpos, hlt, hy, hle⟩, hy2⟩ | ⟨⟨hs, hge, hy⟩, -⟩
    · rw [pass_label rfl hpos hlt (by omega) (by omega)] at hp
      exact (congrArg Prod.fst hp).symm
    · have hleft : 2 ≤ frameSize - c.s := by omega
      have hlabel : ¬ (1 ≤ frameSize - c.s ∧ (m c.s).toNat < 0x40) := by omega
      unfold pass at hp
      dsimp only at hp
      rw [if_neg hlabel, if_pos ⟨hleft, hge⟩] at hp
      exact (congrArg Prod.fst hp).symm
  subst hnone
  obtain ⟨hroom', hnext⟩ := next_of_goes hroom hp
  refine ⟨c', hp, hroom', ?_⟩
  unfold Next Label Pointer at hnext h
  rcases hnext with ⟨⟨hpos, hlt, hy, hle⟩, hy2⟩ | ⟨⟨hs, hge, hy⟩, hy2⟩ <;>
    rcases h with ⟨⟨hpos', hlt', hy', hle'⟩, hy2'⟩ | ⟨⟨hs', hge', hy'⟩, hy2'⟩
  · exact Prod.ext (hy.trans hy'.symm) (by omega)
  · omega
  · omega
  · exact Prod.ext (hy.trans hy'.symm) (hy2.symm.trans hy2')

theorem acc_goes_iff {c : Decoder} (hroom : c.d ≤ dstSize) :
    Acc (Goes (pass m frameSize dstSize)) c ↔ Acc (flip (Next m frameSize)) (c.place dstSize) := by
  constructor
  · intro h
    induction h with
    | intro c _ ih =>
        refine Acc.intro _ fun y hy => ?_
        obtain ⟨c', hp, hroom', rfl⟩ := goes_of_next hroom hy
        exact ih c' hp hroom'
  · intro h
    generalize hx : c.place dstSize = x at h
    induction h generalizing c with
    | intro x _ ih =>
        subst hx
        refine Acc.intro c fun c' hp => ?_
        obtain ⟨hroom', hnext⟩ := next_of_goes hroom hp
        exact ih _ hnext hroom' rfl

end Decoder

/-! ## Finitely many places -/

variable {x y : Nat × Nat} {o o' room : Nat}

theorem target_lt (m : Nat → UInt8) (o : Nat) : Decoder.target m o < 0x4000 := by
  have hhigh : (m o).toNat &&& 0x3f < 2 ^ 6 := Nat.and_lt_two_pow _ (by decide)
  have hlow : (m (o + 1)).toNat < 2 ^ 14 := (UInt8.toNat_lt (m (o + 1))).trans (by decide)
  refine Nat.or_lt_two_pow (n := 14) ?_ hlow
  rw [Nat.shiftLeft_eq]
  omega

theorem next_le (h : Next m frameSize x y) : y.1 ≤ frameSize + 0x4000 ∧ y.2 ≤ x.2 := by
  rcases h with ⟨hlabel, hroom⟩ | ⟨⟨-, -, htarget⟩, hroom⟩
  · exact ⟨hlabel.2.2.2.trans (Nat.le_add_right _ _), hroom ▸ Nat.le_add_right _ _⟩
  · have hlt := target_lt m x.1
    exact ⟨by omega, hroom.ge⟩

theorem reachable_finite (m : Nat → UInt8) (frameSize : Nat) (x : Nat × Nat) :
    {y | ReflTransGen (Next m frameSize) x y}.Finite := by
  refine (Set.finite_Iic (x.1 + (frameSize + 0x4000), x.2)).subset fun y hy => ?_
  induction hy with
  | refl => exact ⟨Nat.le_add_right _ _, Nat.le_refl _⟩
  | tail _ hyz ih =>
      obtain ⟨hplace, hroom⟩ := next_le hyz
      exact ⟨hplace.trans (Nat.le_add_left _ _), hroom.trans ih.2⟩

/-! ## Cycles are made of pointers -/

/-- A way that leaves the room as it is follows pointers only. -/
theorem pointers_of_next (h : TransGen (Next m frameSize) x y) :
    y.2 ≤ x.2 ∧ (y.2 = x.2 → TransGen (Pointer m frameSize) x.1 y.1) := by
  have step : ∀ {x y}, Next m frameSize x y → y.2 = x.2 → Pointer m frameSize x.1 y.1 := by
    rintro x y (⟨⟨hpos, -, hplace, -⟩, hroom⟩ | ⟨hpointer, -⟩) heq
    · omega
    · exact hpointer
  induction h with
  | single h => exact ⟨(next_le h).2, fun heq => .single (step h heq)⟩
  | tail _ hyz ih =>
      obtain ⟨hle, hpointers⟩ := ih
      have hle' := (next_le hyz).2
      exact ⟨hle'.trans hle, fun heq => (hpointers (by omega)).tail (step hyz (by omega))⟩

theorem next_of_pointers (room : Nat) (h : TransGen (Pointer m frameSize) o o') :
    TransGen (Next m frameSize) (o, room) (o', room) :=
  h.lift (fun o => (o, room)) fun _ _ hpointer => Or.inr ⟨hpointer, rfl⟩

theorem cyclic_iff : TransGen (Next m frameSize) x x ↔ Cyclic m frameSize x.1 :=
  ⟨fun h => (pointers_of_next h).2 rfl, fun h => next_of_pointers x.2 h⟩

/-- **When the decoding loop ends**: if and only if it does not come to an offset from which pointers lead back to it. -/
theorem ends_iff (m : Nat → UInt8) (frameSize offset dstSize : Nat) (dst : Nat → UInt8) :
    Ends (Decoder.pass m frameSize dstSize) (.start offset dst) ↔
      ∀ o room, ReflTransGen (Next m frameSize) (offset, dstSize) (o, room) → ¬ Cyclic m frameSize o := by
  rw [ends_iff_acc, Decoder.acc_goes_iff (Nat.zero_le dstSize), acc_iff_acyclic (reachable_finite m frameSize _)]
  constructor
  · intro h o room hreach hcyclic
    exact h (o, room) hreach (cyclic_iff.2 hcyclic)
  · intro h y hreach hcycle
    exact h y.1 y.2 hreach (cyclic_iff.1 hcycle)

/-- A pointer at offset 12, behind the header, that points to itself. -/
def selfPointer (i : Nat) : UInt8 := [0, 0, 0, 0, 0, 1, 0, 0, 0, 0, 0, 0, 0xc0, 12].getD i 0

theorem not_ends_selfPointer : ¬ Ends (Decoder.pass selfPointer 14 256) (.start 12 fun _ => 0) := by
  rw [ends_iff_acc, Decoder.acc_goes_iff (Nat.zero_le 256)]
  intro h
  have hpointer : Pointer selfPointer 14 12 12 := ⟨by decide, by decide, by decide⟩
  exact not_transGen_self_of_acc h (next_of_pointers 256 (.single hpointer))

end YieldStm32.Mdns
