import Mathlib.Data.Nat.ModEq

/-!
# Free-running 32-bit counters

Counters and sequence numbers are used modulo `2 ^ 32`; the distance from `b` on to `a` is `(a - b).toNat`.
-/

namespace Counter

/-- The counter `n` steps on. -/
def adv (a : BitVec 32) (n : Nat) : BitVec 32 := a + BitVec.ofNat 32 n

@[simp] theorem adv_zero (a : BitVec 32) : adv a 0 = a := by
  simp [adv]

theorem adv_adv (a : BitVec 32) (m n : Nat) : adv (adv a m) n = adv a (m + n) := by
  rw [adv, adv, adv, BitVec.ofNat_add, BitVec.add_assoc]

theorem adv_succ (a : BitVec 32) (n : Nat) : adv (a + 1) n = adv a (n + 1) := by
  rw [Nat.add_comm, ← adv_adv]
  rfl

theorem toNat_adv (a : BitVec 32) (n : Nat) : (adv a n).toNat = (a.toNat + n) % 2 ^ 32 := by
  rw [adv, BitVec.toNat_add, BitVec.toNat_ofNat, Nat.add_mod_mod]

/-- The distance grows as the front moves on. -/
theorem adv_sub (a b : BitVec 32) {n : Nat} (h : (a - b).toNat + n < 2 ^ 32) :
    (adv a n - b).toNat = (a - b).toNat + n := by
  unfold adv
  bv_omega

theorem adv_sub_self (a : BitVec 32) {n : Nat} (h : n < 2 ^ 32) : (adv a n - a).toNat = n := by
  unfold adv
  bv_omega

/-- The distance shrinks as the back moves on. -/
theorem sub_adv (a b : BitVec 32) {n : Nat} (h : n ≤ (a - b).toNat) : (a - adv b n).toNat = (a - b).toNat - n := by
  unfold adv
  bv_omega

/-- A counter is as far on from another one as their distance says. -/
theorem adv_toNat_sub (a b : BitVec 32) : adv b (a - b).toNat = a := by
  unfold adv
  bv_omega

end Counter
