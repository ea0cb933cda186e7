import Mathlib.Algebra.Group.Nat.Defs

/-!
# Masks

A number as a set of bits.

* `Bits m P` : the bits of `m` are those with `P`;
* `Bits.zero`, `Bits.bit`, `Bits.or` : how masks are put together;
* `Bits.eq_iff`, `Bits.covers_iff` : what comparing masks says of the sets.
-/

namespace Mask

/-- The bits of `m` are those with `P`. -/
def Bits (m : Nat) (P : Nat → Prop) : Prop := ∀ k, m.testBit k = true ↔ P k

variable {m n : Nat} {P Q : Nat → Prop}

theorem Bits.zero : Bits 0 fun _ => False := by
  intro k
  rw [Nat.zero_testBit]
  simp

theorem Bits.bit (a : Nat) : Bits (1 <<< a) fun k => k = a := by
  intro k
  rw [Nat.one_shiftLeft, Nat.testBit_two_pow, decide_eq_true_eq]
  exact eq_comm

theorem Bits.or (hm : Bits m P) (hn : Bits n Q) : Bits (m ||| n) fun k => P k ∨ Q k := by
  intro k
  rw [Nat.testBit_or, Bool.or_eq_true, hm k, hn k]

theorem Bits.congr (hm : Bits m P) (h : ∀ k, P k ↔ Q k) : Bits m Q := fun k => (hm k).trans (h k)

theorem Bits.eq_iff (hm : Bits m P) (hn : Bits n Q) : m = n ↔ ∀ k, P k ↔ Q k := by
  constructor
  · rintro rfl k
    exact (hm k).symm.trans (hn k)
  · intro h
    exact Nat.eq_of_testBit_eq fun k => Bool.eq_iff_iff.2 ((hm k).trans ((h k).trans (hn k).symm))

/-- `m` has all that `n` has. -/
theorem Bits.covers_iff (hm : Bits m P) (hn : Bits n Q) : m &&& n = n ↔ ∀ k, Q k → P k := by
  have hand : Bits (m &&& n) fun k => P k ∧ Q k := by
    intro k
    rw [Nat.testBit_and, Bool.and_eq_true, hm k, hn k]
  rw [hand.eq_iff hn]
  exact forall_congr' fun k => and_iff_right_iff_imp

end Mask
