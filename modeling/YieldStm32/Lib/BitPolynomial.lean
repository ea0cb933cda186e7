import Mathlib.Algebra.Group.Hom.End
import Mathlib.Algebra.Ring.Basic
import Mathlib.Data.Nat.Bitwise
import Mathlib.Data.Nat.Prime.Basic
import Mathlib.Dynamics.PeriodicPts.Defs
import Mathlib.Tactic.Abel

/-!
# Polynomials of bits

The bits of a number are the coefficients of a polynomial, which is evaluated in rings where every element is its own
negative, and where a given polynomial `p` has the value zero. Products and powers are computed with numbers below `2 ^ n`,
the degree of `p` being `n`.

* `eval x c` : the value at `x`;
* `shift`, `mul`, `power` : the product with `x`, a product, a power of `x`;
* `minimalPeriod_eq` : the period of an additive map at every element but zero, by powers that are computed.
-/

namespace BitPolynomial

section Eval

variable {R : Type*} [Ring R] (x : R)

/-- The value of a polynomial. -/
def eval (c : Nat) : R :=
  if h : c = 0 then 0 else (if c % 2 = 1 then 1 else 0) + x * eval (c / 2)
decreasing_by exact Nat.div_lt_self (Nat.pos_of_ne_zero h) Nat.one_lt_two

@[simp] theorem eval_zero : eval x 0 = 0 := by
  rw [eval, dif_pos rfl]

theorem eval_eq (c : Nat) : eval x c = (if c % 2 = 1 then 1 else 0) + x * eval x (c / 2) := by
  by_cases h : c = 0
  · simp [h]
  · conv_lhs => rw [eval, dif_neg h]

@[simp] theorem eval_one : eval x 1 = 1 := by
  rw [eval_eq]
  simp

theorem eval_two_mul (c : Nat) : eval x (2 * c) = x * eval x c := by
  rw [eval_eq, Nat.mul_mod_right, Nat.mul_div_cancel_left c Nat.two_pos]
  simp

theorem eval_two_pow (k : Nat) : eval x (2 ^ k) = x ^ k := by
  induction k with
  | zero => simp
  | succ k ih => rw [Nat.pow_succ', eval_two_mul, ih, pow_succ']

variable {x}

/-- Bits are added one by one. -/
theorem eval_xor (h2 : ∀ r : R, r + r = 0) (a b : Nat) : eval x (a ^^^ b) = eval x a + eval x b := by
  induction a using Nat.strong_induction_on generalizing b with
  | _ a ih =>
      by_cases ha : a = 0
      · rw [ha, Nat.zero_xor, eval_zero, zero_add]
      · rw [eval_eq x (a ^^^ b), eval_eq x a, eval_eq x b, Nat.xor_div_two,
          ih (a / 2) (Nat.div_lt_self (Nat.pos_of_ne_zero ha) Nat.one_lt_two), mul_add]
        have hbit : (if (a ^^^ b) % 2 = 1 then 1 else 0 : R) =
            (if a % 2 = 1 then 1 else 0) + if b % 2 = 1 then 1 else 0 := by
          have hone := h2 1
          rcases Nat.mod_two_eq_zero_or_one a with ha | ha
          · rcases Nat.mod_two_eq_zero_or_one b with hb | hb
            · simp [Nat.xor_mod_two_eq, Nat.add_mod, ha, hb]
            · simp [Nat.xor_mod_two_eq, Nat.add_mod, ha, hb]
          · rcases Nat.mod_two_eq_zero_or_one b with hb | hb
            · simp [Nat.xor_mod_two_eq, Nat.add_mod, ha, hb]
            · simp [Nat.xor_mod_two_eq, Nat.add_mod, ha, hb, hone]
        rw [hbit]
        abel

end Eval

/-! ## Computing with remainders -/

section

variable (n p : Nat)

/-- The product with `x`. -/
def shift (c : Nat) : Nat := if 2 * c < 2 ^ n then 2 * c else (2 * c) ^^^ p

/-- The product of the lowest `k` coefficients of `a` with `b`. -/
def mulLoop : Nat → Nat → Nat → Nat
  | 0, _, _ => 0
  | k + 1, a, b => (if a % 2 = 1 then b else 0) ^^^ shift n p (mulLoop k (a / 2) b)

/-- The product. -/
def mul (a b : Nat) : Nat := mulLoop n p (a.log2 + 1) a b

/-- The power of `x` with an exponent of `k` bits. -/
def power : Nat → Nat → Nat
  | 0, _ => 1
  | k + 1, e =>
      let r := power k (e / 2)
      let r := mul n p r r
      if e % 2 = 1 then shift n p r else r

variable {n p} {R : Type*} [Ring R] {x : R}

theorem eval_shift (h2 : ∀ r : R, r + r = 0) (hp : eval x p = 0) (c : Nat) : eval x (shift n p c) = x * eval x c := by
  unfold shift
  split
  · exact eval_two_mul x c
  · rw [eval_xor h2, hp, add_zero, eval_two_mul]

theorem eval_mulLoop (h2 : ∀ r : R, r + r = 0) (hp : eval x p = 0) {k a : Nat} (ha : a < 2 ^ k) (b : Nat) :
    eval x (mulLoop n p k a b) = eval x a * eval x b := by
  induction k generalizing a with
  | zero =>
      obtain rfl : a = 0 := by simpa using ha
      simp [mulLoop]
  | succ k ih =>
      have hhalf : a / 2 < 2 ^ k := by
        rw [Nat.pow_succ] at ha
        omega
      rw [mulLoop, eval_xor h2, eval_shift h2 hp, ih hhalf, eval_eq x a, add_mul, mul_assoc]
      congr 1
      split
      · rw [one_mul]
      · rw [eval_zero, zero_mul]

theorem eval_mul (h2 : ∀ r : R, r + r = 0) (hp : eval x p = 0) (a b : Nat) :
    eval x (mul n p a b) = eval x a * eval x b := eval_mulLoop h2 hp Nat.lt_log2_self b

theorem eval_power (h2 : ∀ r : R, r + r = 0) (hp : eval x p = 0) {k e : Nat} (he : e < 2 ^ k) :
    eval x (power n p k e) = x ^ e := by
  induction k generalizing e with
  | zero =>
      obtain rfl : e = 0 := by simpa using he
      simp [power]
  | succ k ih =>
      have hhalf : e / 2 < 2 ^ k := by
        rw [Nat.pow_succ] at he
        omega
      have hsquare : eval x (mul n p (power n p k (e / 2)) (power n p k (e / 2))) = x ^ (2 * (e / 2)) := by
        rw [eval_mul h2 hp, ih hhalf, ← pow_add, Nat.two_mul]
      unfold power
      dsimp only
      split
      · rename_i hodd
        rw [eval_shift h2 hp, hsquare, ← pow_succ']
        congr 1
        omega
      · rename_i heven
        rw [hsquare]
        congr 1
        omega

end

/-! ## Periods -/

/-- A divisor of `N` that divides no `N / q` is `N`. -/
theorem eq_of_dvd_of_prime {d N : Nat} (hN : N ≠ 0) (hd : d ∣ N) (hq : ∀ q, q.Prime → q ∣ N → ¬ d ∣ N / q) : d = N := by
  obtain ⟨k, rfl⟩ := hd
  by_contra hne
  have hk : k ≠ 1 := fun h => hne (by rw [h, Nat.mul_one])
  obtain ⟨q, hprime, l, rfl⟩ := Nat.exists_prime_and_dvd hk
  refine hq q hprime ((Nat.dvd_mul_right q l).mul_left d) ⟨l, ?_⟩
  rw [Nat.mul_left_comm, Nat.mul_div_cancel_left _ hprime.pos]

section Period

variable {V : Type*} [AddCommGroup V] {T : AddMonoid.End V} {n p k N : Nat}

theorem end_add_self (h2 : ∀ v : V, v + v = 0) (r : AddMonoid.End V) : r + r = 0 := by
  ext v
  exact h2 (r v)

/-- A power that moves each element but zero: its difference from one has an inverse `s`. -/
theorem power_ne (h2 : ∀ v : V, v + v = 0) (hp : eval T p = 0) {e s : Nat} (he : e < 2 ^ k)
    (hs : mul n p s (power n p k e ^^^ 1) = 1) {v : V} (hv : v ≠ 0) : (T ^ e) v ≠ v := by
  intro hfix
  have h2' := end_add_self h2
  have hprod : eval T s * (T ^ e + 1) = 1 := by
    rw [← eval_power h2' hp he, ← eval_one T, ← eval_xor h2', ← eval_mul h2' hp, hs]
  have hzero : (T ^ e + 1) v = 0 := by
    show (T ^ e) v + v = 0
    rw [hfix, h2]
  apply hv
  calc v = (eval T s * (T ^ e + 1)) v := by rw [hprod]; rfl
    _ = eval T s ((T ^ e + 1) v) := rfl
    _ = 0 := by rw [hzero, map_zero]

/-- **The period of an additive map** at every element but zero. -/
theorem minimalPeriod_eq (h2 : ∀ v : V, v + v = 0) (hp : eval T p = 0) (hN : N ≠ 0) (hk : N < 2 ^ k)
    (hone : power n p k N = 1)
    (hq : ∀ q, q.Prime → q ∣ N → ∃ s, mul n p s (power n p k (N / q) ^^^ 1) = 1) {v : V} (hv : v ≠ 0) :
    Function.minimalPeriod T v = N := by
  have hiter (e : Nat) (v : V) : (T ^ e) v = T^[e] v := by
    rw [AddMonoid.End.coe_pow]
  apply eq_of_dvd_of_prime hN
  · apply Function.IsPeriodicPt.minimalPeriod_dvd
    show T^[N] v = v
    rw [← hiter, ← eval_power (end_add_self h2) hp hk, hone, eval_one]
    rfl
  · intro q hprime hdvd hd
    obtain ⟨s, hs⟩ := hq q hprime hdvd
    apply power_ne h2 hp ((Nat.div_le_self N q).trans_lt hk) hs hv
    rw [hiter]
    exact (Function.isPeriodicPt_minimalPeriod T v).trans_dvd hd

end Period

end BitPolynomial
