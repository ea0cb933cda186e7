import Mathlib.Algebra.Group.Nat.Defs
import Mathlib.Data.List.Basic
import Mathlib.Data.List.Induction
import Mathlib.Data.Nat.Digits.Defs

/-!
# Numerals

The digits of a number in a base, most significant first, as a loop that divides until nothing is left produces them. `0`
has one digit.

* `digits b k v` : the digits of `v`, the last `k` at most;
* `value b ds` : the number that digits stand for, as a loop that multiplies and adds computes it;
* `value_digits` : the digits of a number stand for it;
* `lt_value_digits` : in a larger base they stand for more, where there is more than one;
* `reverse_digits` : they are those of `Nat.digits`, the other way round.
-/

namespace Numeral

/-- The digits of `v`, the last `k` at most. -/
def digits (b : Nat) : Nat → Nat → List Nat
  | 0, _ => []
  | k + 1, v => (if v / b = 0 then [] else digits b k (v / b)) ++ [v % b]

/-- What digits stand for. -/
def value (b : Nat) (ds : List Nat) : Nat := ds.foldl (fun n d => n * b + d) 0

variable {b k v : Nat}

theorem digits_succ (b k v : Nat) :
    digits b (k + 1) v = (if v / b = 0 then [] else digits b k (v / b)) ++ [v % b] := rfl

theorem value_append_singleton (b : Nat) (ds : List Nat) (d : Nat) : value b (ds ++ [d]) = value b ds * b + d := by
  rw [value, List.foldl_append]
  rfl

/-- Zeros in front do not count. -/
theorem value_zeros_append (b : Nat) {zs : List Nat} (h : ∀ d ∈ zs, d = 0) (ds : List Nat) : value b (zs ++ ds) = value b ds := by
  induction zs with
  | nil => rfl
  | cons d zs ih =>
      obtain rfl := h d List.mem_cons_self
      have hstep : value b (0 :: (zs ++ ds)) = value b (zs ++ ds) := by
        unfold value
        rw [List.foldl_cons, Nat.zero_mul]
      exact hstep.trans (ih fun d hd => h d (List.mem_cons_of_mem 0 hd))

theorem value_digits (hb : 0 < b) (h : v < b ^ k) : value b (digits b k v) = v := by
  induction k generalizing v with
  | zero =>
      obtain rfl : v = 0 := Nat.lt_one_iff.1 h
      rfl
  | succ k ih =>
      rw [digits_succ, value_append_singleton]
      split
      · rename_i hzero
        have hdiv := Nat.div_add_mod v b
        rw [hzero, Nat.mul_zero, Nat.zero_add] at hdiv
        rw [hdiv]
        exact (congrArg (· + v) (Nat.zero_mul b)).trans (Nat.zero_add v)
      · rw [ih ((Nat.div_lt_iff_lt_mul hb).2 (by rwa [pow_succ] at h)), Nat.mul_comm]
        exact Nat.div_add_mod v b

theorem length_digits_le (b k v : Nat) : (digits b k v).length ≤ k := by
  induction k generalizing v with
  | zero => exact Nat.le_refl 0
  | succ k ih =>
      rw [digits_succ, List.length_append]
      split
      · exact Nat.succ_le_succ (Nat.zero_le k)
      · exact Nat.succ_le_succ (ih (v / b))

theorem digits_succ_ne_nil (b k v : Nat) : digits b (k + 1) v ≠ [] := by
  rw [digits_succ]
  exact List.append_ne_nil_of_right_ne_nil _ (List.cons_ne_nil _ _)

theorem digits_lt (hb : 0 < b) : ∀ d ∈ digits b k v, d < b := by
  induction k generalizing v with
  | zero => exact fun d hd => absurd hd List.not_mem_nil
  | succ k ih =>
      intro d hd
      rw [digits_succ] at hd
      rcases List.mem_append.1 hd with hd | hd
      · split at hd
        · exact absurd hd List.not_mem_nil
        · exact ih d hd
      · rw [List.mem_singleton.1 hd]
        exact Nat.mod_lt v hb

/-- One digit. -/
theorem digits_of_lt (h : v < b) (k : Nat) : digits b (k + 1) v = [v] := by
  rw [digits_succ, if_pos (Nat.div_eq_of_lt h), Nat.mod_eq_of_lt h]
  rfl

/-- More than one. -/
theorem digits_of_le (hb : 0 < b) (h : b ≤ v) (k : Nat) : digits b (k + 1) v = digits b k (v / b) ++ [v % b] := by
  rw [digits_succ, if_neg (Nat.ne_of_gt (Nat.div_pos h hb))]

/-- The first digit is not zero, unless it is the only one. -/
theorem head_digits (hb : 1 < b) (hv : 0 < v) (h : v < b ^ k) : (digits b k v).head? ≠ some 0 := by
  induction k generalizing v with
  | zero => exact fun hnone => by cases hnone
  | succ k ih =>
      by_cases hlt : v < b
      · rw [digits_of_lt hlt]
        exact fun hzero => Nat.ne_of_gt hv (Option.some.inj hzero)
      · have hdiv : v / b < b ^ k := (Nat.div_lt_iff_lt_mul (by omega)).2 (by rwa [pow_succ] at h)
        have hpos : 0 < v / b := Nat.div_pos (Nat.not_lt.1 hlt) (by omega)
        have hne : digits b k (v / b) ≠ [] := by
          cases k with
          | zero => exact absurd (Nat.lt_one_iff.1 hdiv) (Nat.ne_of_gt hpos)
          | succ k => exact digits_succ_ne_nil b k (v / b)
        rw [digits_of_le (by omega) (Nat.not_lt.1 hlt), List.head?_append_of_ne_nil _ hne]
        exact ih hpos hdiv

/-- Digits stand for more in a larger base. -/
theorem value_le_value {c : Nat} (hbc : b ≤ c) (ds : List Nat) : value b ds ≤ value c ds := by
  induction ds using List.reverseRecOn with
  | nil => exact Nat.le_refl 0
  | append_singleton ds d ih =>
      rw [value_append_singleton, value_append_singleton]
      exact Nat.add_le_add_right (Nat.mul_le_mul ih hbc) d

/-- In a larger base, the digits of a number that has more than one stand for more. -/
theorem lt_value_digits {c : Nat} (hb : 0 < b) (hbc : b < c) (hv : b ≤ v) (hk : v < b ^ k) : v < value c (digits b k v) := by
  cases k with
  | zero => exact absurd (Nat.lt_one_iff.1 hk) (Nat.ne_of_gt (Nat.lt_of_lt_of_le hb hv))
  | succ k =>
      have hpos : 0 < v / b := Nat.div_pos hv hb
      have hdiv : v / b < b ^ k := (Nat.div_lt_iff_lt_mul hb).2 (by rwa [pow_succ] at hk)
      have hle := value_le_value (Nat.le_of_lt hbc) (digits b k (v / b))
      rw [value_digits hb hdiv] at hle
      rw [digits_of_le hb hv, value_append_singleton]
      calc v = b * (v / b) + v % b := (Nat.div_add_mod v b).symm
        _ < c * (v / b) + v % b := Nat.add_lt_add_right (Nat.mul_lt_mul_of_pos_right hbc hpos) _
        _ ≤ c * value c (digits b k (v / b)) + v % b := Nat.add_le_add_right (Nat.mul_le_mul_left c hle) _
        _ = value c (digits b k (v / b)) * c + v % b := by rw [Nat.mul_comm]

/-- The digits of a number other than zero, least significant first. -/
theorem reverse_digits (hb : 1 < b) (hv : 0 < v) (h : v < b ^ k) : (Nat.digits b v).reverse = digits b k v := by
  induction k generalizing v with
  | zero => exact absurd (Nat.lt_one_iff.1 h) (Nat.ne_of_gt hv)
  | succ k ih =>
      rw [Nat.digits_def' hb hv, List.reverse_cons, digits_succ]
      split
      · rename_i hzero
        rw [hzero, Nat.digits_zero]
        rfl
      · rename_i hne
        rw [ih (Nat.pos_of_ne_zero hne) ((Nat.div_lt_iff_lt_mul (by omega)).2 (by rwa [pow_succ] at h))]

end Numeral
