import Mathlib.Data.Nat.ModEq
import Mathlib.Data.List.Basic
import Mathlib.Algebra.BigOperators.Group.List.Basic

/-!
# One's complement sums

Words of `w` bits that are added with the carry put back in at the low end. They stand for the residues modulo
`2 ^ w - 1`; zero has two of them, no ones and all ones.

* `fold w n` : a wide sum brought into `w` bits;
* `add` : the sum of two words; `total a ws` : the wide sum of many, folded at the end;
* `foldl_add` : adding one word after the other gives the same;
* `total_complement` : the complement of a sum fills it up to all ones;
* `total_ne_of_replaced` : and no other residue in the place of a word does.
-/

namespace EndAround

/-- What is above `w` bits is added below, until nothing is. -/
def fold (w n : Nat) : Nat := if 0 < w ∧ 2 ^ w ≤ n then fold w (n % 2 ^ w + n / 2 ^ w) else n
termination_by n
decreasing_by
  rename_i h
  have hbase : 2 ≤ 2 ^ w := Nat.le_self_pow (Nat.ne_of_gt h.1) 2
  have hdiv := Nat.mod_add_div n (2 ^ w)
  have hmul : 2 * (n / 2 ^ w) ≤ 2 ^ w * (n / 2 ^ w) := Nat.mul_le_mul_right _ hbase
  omega

variable {w : Nat}

theorem fold_eq (w n : Nat) : fold w n = if 0 < w ∧ 2 ^ w ≤ n then fold w (n % 2 ^ w + n / 2 ^ w) else n := by
  rw [fold]

theorem fold_of_lt {n : Nat} (h : n < 2 ^ w) : fold w n = n := by
  rw [fold_eq, if_neg fun hle => Nat.not_le.2 h hle.2]

theorem fold_lt (hw : 0 < w) (n : Nat) : fold w n < 2 ^ w := by
  induction n using fold.induct (w := w) with
  | case1 n h ih => rwa [fold_eq, if_pos h]
  | case2 n h =>
      rw [fold_eq, if_neg h]
      exact Nat.not_le.1 fun hle => h ⟨hw, hle⟩

theorem fold_modEq (w n : Nat) : fold w n ≡ n [MOD 2 ^ w - 1] := by
  induction n using fold.induct (w := w) with
  | case1 n h ih =>
      rw [fold_eq, if_pos h]
      refine ih.trans ?_
      have hbase : 2 ^ w ≡ 1 [MOD 2 ^ w - 1] := Nat.modEq_sub Nat.one_le_two_pow
      have hmul := (hbase.mul_right (n / 2 ^ w)).symm.add_left (n % 2 ^ w)
      rwa [Nat.one_mul, Nat.mod_add_div] at hmul
  | case2 n h => rw [fold_eq, if_neg h]

/-- No sum but that of zeros is no ones. -/
theorem fold_eq_zero_iff (w n : Nat) : fold w n = 0 ↔ n = 0 := by
  induction n using fold.induct (w := w) with
  | case1 n h ih =>
      have hquot : 0 < n / 2 ^ w := Nat.div_pos h.2 (Nat.two_pow_pos w)
      have hn : 0 < n := (Nat.two_pow_pos w).trans_le h.2
      rw [fold_eq, if_pos h, ih]
      omega
  | case2 n h => rw [fold_eq, if_neg h]

/-- A word is known by its residue, and by whether it is no ones. -/
theorem eq_of_modEq {a b : Nat} (ha : a < 2 ^ w) (hb : b < 2 ^ w) (hzero : a = 0 ↔ b = 0)
    (h : a ≡ b [MOD 2 ^ w - 1]) : a = b := by
  rcases Nat.eq_zero_or_pos a with rfl | hpos
  · exact (hzero.1 rfl).symm
  · have hpos' : 0 < b := Nat.pos_of_ne_zero fun hb0 => Nat.ne_of_gt hpos (hzero.2 hb0)
    have hpred : a - 1 ≡ b - 1 [MOD 2 ^ w - 1] := by
      refine Nat.ModEq.add_right_cancel' 1 ?_
      rwa [Nat.sub_add_cancel hpos, Nat.sub_add_cancel hpos']
    have heq : a - 1 = b - 1 := hpred.eq_of_lt_of_lt (by omega) (by omega)
    omega

theorem fold_congr (hw : 0 < w) {m n : Nat} (hzero : m = 0 ↔ n = 0) (h : m ≡ n [MOD 2 ^ w - 1]) : fold w m = fold w n :=
  eq_of_modEq (fold_lt hw m) (fold_lt hw n) ((fold_eq_zero_iff w m).trans (hzero.trans (fold_eq_zero_iff w n).symm))
    ((fold_modEq w m).trans (h.trans (fold_modEq w n).symm))

/-- A part of a sum may be folded before. -/
theorem fold_fold_add (hw : 0 < w) (m n : Nat) : fold w (fold w m + n) = fold w (m + n) := by
  refine fold_congr hw ?_ ((fold_modEq w m).add_right n)
  rw [Nat.add_eq_zero_iff, Nat.add_eq_zero_iff, fold_eq_zero_iff]

/-! ## Words -/

/-- The sum of two words. -/
def add (a b : BitVec w) : BitVec w := if a + b < b then a + b + 1 else a + b

/-- A word and many others, added up and folded. -/
def total (a : BitVec w) (ws : List (BitVec w)) : BitVec w :=
  BitVec.ofNat w (fold w (a.toNat + (ws.map BitVec.toNat).sum))

theorem toNat_add (hw : 0 < w) (a b : BitVec w) : (add a b).toNat = fold w (a.toNat + b.toNat) := by
  have ha := a.isLt
  have hb := b.isLt
  have hbase : 2 ≤ 2 ^ w := Nat.le_self_pow (Nat.ne_of_gt hw) 2
  unfold add
  by_cases hcarry : 2 ^ w ≤ a.toNat + b.toNat
  · have hsum : (a + b).toNat = a.toNat + b.toNat - 2 ^ w := by
      rw [BitVec.toNat_add, Nat.mod_eq_sub_mod hcarry, Nat.mod_eq_of_lt (by omega)]
    have hlt : a + b < b := by
      rw [BitVec.lt_def, hsum]
      omega
    have hone : (1 : BitVec w).toNat = 1 := BitVec.toNat_one hw
    have hdiv : (a.toNat + b.toNat) / 2 ^ w = 1 := Nat.div_eq_of_lt_le (by omega) (by omega)
    have hmod : (a.toNat + b.toNat) % 2 ^ w = a.toNat + b.toNat - 2 ^ w := by
      rw [Nat.mod_eq_sub_mod hcarry, Nat.mod_eq_of_lt (by omega)]
    have hroom : a.toNat + b.toNat - 2 ^ w + 1 < 2 ^ w := by omega
    rw [if_pos hlt, BitVec.toNat_add, hsum, hone, fold_eq, if_pos ⟨hw, hcarry⟩, hdiv, hmod, fold_of_lt hroom]
    exact Nat.mod_eq_of_lt hroom
  · have hsum : (a + b).toNat = a.toNat + b.toNat := by
      rw [BitVec.toNat_add, Nat.mod_eq_of_lt (by omega)]
    have hlt : ¬ a + b < b := by
      rw [BitVec.lt_def, hsum]
      omega
    rw [if_neg hlt, hsum, fold_of_lt (by omega)]

theorem toNat_total (hw : 0 < w) (a : BitVec w) (ws : List (BitVec w)) :
    (total a ws).toNat = fold w (a.toNat + (ws.map BitVec.toNat).sum) :=
  Nat.mod_eq_of_lt (fold_lt hw _)

/-- **One word after the other**, the carry put back in each time, or all of them, folded at the end. -/
theorem foldl_add (hw : 0 < w) (a : BitVec w) (ws : List (BitVec w)) : ws.foldl add a = total a ws := by
  refine BitVec.eq_of_toNat_eq ?_
  rw [toNat_total hw]
  induction ws generalizing a with
  | nil => exact (fold_of_lt a.isLt).symm
  | cons b ws ih =>
      rw [List.foldl_cons, ih, toNat_add hw, fold_fold_add hw, List.map_cons, List.sum_cons, Nat.add_assoc]

theorem allOnes_eq_iff (hw : 0 < w) (a : BitVec w) (ws : List (BitVec w)) :
    total a ws = BitVec.allOnes w ↔
      a.toNat + (ws.map BitVec.toNat).sum ≠ 0 ∧ a.toNat + (ws.map BitVec.toNat).sum ≡ 0 [MOD 2 ^ w - 1] := by
  have hbase : 2 ≤ 2 ^ w := Nat.le_self_pow (Nat.ne_of_gt hw) 2
  generalize hn : a.toNat + (ws.map BitVec.toNat).sum = n
  have hfold := fold_modEq w n
  have hself : 2 ^ w - 1 ≡ 0 [MOD 2 ^ w - 1] := Nat.modEq_zero_iff_dvd.2 (Nat.dvd_refl _)
  rw [← BitVec.toNat_inj, toNat_total hw, hn, BitVec.toNat_allOnes]
  constructor
  · intro heq
    rw [heq] at hfold
    exact ⟨fun h0 => by rw [(fold_eq_zero_iff w n).2 h0] at heq; omega, hfold.symm.trans hself⟩
  · rintro ⟨hne, hmod⟩
    refine eq_of_modEq (fold_lt hw n) (by omega) ?_ (hfold.trans (hmod.trans hself.symm))
    rw [fold_eq_zero_iff]
    exact iff_of_false hne (by omega)

/-! ## Sums that are filled up -/

section

variable (a : BitVec w) (xs ys : List (BitVec w))

theorem sum_middle (v : BitVec w) :
    a.toNat + ((xs ++ v :: ys).map BitVec.toNat).sum = a.toNat + ((xs ++ ys).map BitVec.toNat).sum + v.toNat := by
  rw [List.map_append, List.map_append, List.map_cons, List.sum_append, List.sum_append, List.sum_cons]
  omega

/-- The complement of the sum with a zero, in the place of the zero. -/
theorem total_complement (hw : 0 < w) : total a (xs ++ (~~~ total a (xs ++ 0 :: ys)) :: ys) = BitVec.allOnes w := by
  have hbase : 2 ≤ 2 ^ w := Nat.le_self_pow (Nat.ne_of_gt hw) 2
  have hlt := fold_lt hw (a.toNat + ((xs ++ ys).map BitVec.toNat).sum)
  have hzero := fold_eq_zero_iff w (a.toNat + ((xs ++ ys).map BitVec.toNat).sum)
  have hmod := fold_modEq w (a.toNat + ((xs ++ ys).map BitVec.toNat).sum)
  have hcomplement : (~~~ total a (xs ++ 0 :: ys)).toNat =
      2 ^ w - 1 - fold w (a.toNat + ((xs ++ ys).map BitVec.toNat).sum) := by
    rw [BitVec.toNat_not, toNat_total hw, sum_middle]
    rfl
  rw [allOnes_eq_iff hw, sum_middle, hcomplement]
  refine ⟨by omega, ?_⟩
  refine (hmod.symm.add_right _).trans ?_
  rw [Nat.add_sub_cancel' (by omega)]
  exact Nat.modEq_zero_iff_dvd.2 (Nat.dvd_refl _)

/-- A word in the place of one of another residue. -/
def Replaced (ws ws' : List (BitVec w)) : Prop :=
  ∃ xs ys u v, ws = xs ++ u :: ys ∧ ws' = xs ++ v :: ys ∧ ¬ u.toNat ≡ v.toNat [MOD 2 ^ w - 1]

theorem total_ne_of_replaced (hw : 0 < w) {ws ws' : List (BitVec w)} (h : total a ws = BitVec.allOnes w)
    (hreplaced : Replaced ws ws') : total a ws' ≠ BitVec.allOnes w := by
  obtain ⟨xs, ys, u, v, rfl, rfl, hne⟩ := hreplaced
  intro h'
  rw [allOnes_eq_iff hw, sum_middle] at h h'
  exact hne (Nat.ModEq.add_left_cancel' _ (h.2.trans h'.2.symm))

end

end EndAround
