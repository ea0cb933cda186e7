import Mathlib.Data.FinEnum
import Mathlib.Data.Fintype.Card
import Mathlib.Data.List.Nodup
import Mathlib.Dynamics.PeriodicPts.Lemmas
import Mathlib.Tactic.NormNum.Prime
import YieldStm32.Lib.BitPolynomial

/-!
# The shift register (`util/src/lfsr32.c`)

* `next` : the function of the source;
* `Word` : words added bit by bit, of which `next` is an additive map;
* `minimalPeriod_next` : every word but zero comes back after `2 ^ 32 - 1` calls, and not before;
* `exists_iterate_next` : all other words come up between.
-/

namespace YieldStm32.Lfsr32

open BitPolynomial

/-- `LFSR32_Next` -/
def next (x : BitVec 32) : BitVec 32 :=
  let bit := (x >>> 0 ^^^ x >>> 10 ^^^ x >>> 30 ^^^ x >>> 31) &&& 1
  x >>> 1 ||| bit <<< 31

/-! ## Bits -/

theorem next_bit (x : BitVec 32) {i : Nat} (hi : i < 31) : (next x).getLsbD i = x.getLsbD (i + 1) := by
  unfold next
  simp [hi, Nat.add_comm 1 i]

/-- The bit that the taps make. -/
theorem next_last (x : BitVec 32) :
    (next x).getLsbD 31 = (x.getLsbD 0 ^^ x.getLsbD 10 ^^ x.getLsbD 30 ^^ x.getLsbD 31) := by
  unfold next
  simp

/-- Each bit was the last one, some calls before. -/
theorem iterate_bit (x : BitVec 32) (k : Nat) {i : Nat} (hi : i < 32) :
    (next^[k] x).getLsbD i = (next^[k + i] x).getLsbD 0 := by
  induction i generalizing k with
  | zero => rfl
  | succ i ih =>
      have hlast := ih (k + 1) (Nat.lt_of_succ_lt hi)
      rw [Function.iterate_succ_apply', next_bit _ (by omega), Nat.add_right_comm] at hlast
      exact hlast

/-- The recurrence of the lowest bits. -/
theorem iterate_recurrence (x : BitVec 32) (k : Nat) :
    (next^[k + 32] x).getLsbD 0 =
      ((next^[k] x).getLsbD 0 ^^ (next^[k + 10] x).getLsbD 0 ^^ (next^[k + 30] x).getLsbD 0 ^^
        (next^[k + 31] x).getLsbD 0) := by
  have h := iterate_bit x (k + 1) (i := 31) (by decide)
  rw [Function.iterate_succ_apply', next_last, iterate_bit x k (i := 10) (by decide), iterate_bit x k (i := 30) (by decide),
    iterate_bit x k (i := 31) (by decide)] at h
  exact h.symm

/-! ## Words added bit by bit -/

/-- Words, of which the sum is the exclusive or. -/
def Word : Type := BitVec 32

instance : Add Word := ⟨BitVec.xor⟩

instance : Zero Word := ⟨0#32⟩

instance : Neg Word := ⟨id⟩

instance : AddCommGroup Word where
  add_assoc := BitVec.xor_assoc
  zero_add _ := BitVec.zero_xor
  add_zero _ := BitVec.xor_zero
  nsmul := nsmulRec
  zsmul := zsmulRec
  neg_add_cancel _ := BitVec.xor_self
  add_comm := BitVec.xor_comm

theorem word_add_self (x : Word) : x + x = 0 := BitVec.xor_self

theorem next_xor (x y : BitVec 32) : next (x ^^^ y) = next x ^^^ next y := by
  apply BitVec.eq_of_getLsbD_eq
  intro i hi
  rw [BitVec.getLsbD_xor]
  rcases Nat.lt_or_ge i 31 with hlt | hge
  · rw [next_bit _ hlt, next_bit _ hlt, next_bit _ hlt, BitVec.getLsbD_xor]
  · obtain rfl : i = 31 := by omega
    simp only [next_last, BitVec.getLsbD_xor]
    simp only [Bool.xor_assoc, Bool.xor_left_comm]

/-- `LFSR32_Next`, as an additive map. -/
def step : AddMonoid.End Word where
  toFun := next
  map_zero' := show next 0 = 0 by decide
  map_add' := next_xor

theorem step_pow (k : Nat) (x : Word) : (step ^ k) x = next^[k] x := by
  rw [AddMonoid.End.coe_pow]
  rfl

/-- The polynomial of the register. -/
def taps : Nat := 0x1C0000401

theorem eval_taps : eval step taps = 0 := by
  have h2 := end_add_self word_add_self
  have hsum : taps = 2 ^ 0 ^^^ 2 ^ 10 ^^^ 2 ^ 30 ^^^ 2 ^ 31 ^^^ 2 ^ 32 := by decide
  rw [hsum]
  simp only [eval_xor h2, eval_two_pow]
  ext x
  show (step ^ 0) x + (step ^ 10) x + (step ^ 30) x + (step ^ 31) x + (step ^ 32) x = 0
  simp only [step_pow]
  apply BitVec.eq_of_getLsbD_eq
  intro i hi
  have h := iterate_recurrence x i
  show (next^[0] x ^^^ next^[10] x ^^^ next^[30] x ^^^ next^[31] x ^^^ next^[32] x).getLsbD i = (0#32).getLsbD i
  simp only [BitVec.getLsbD_xor, iterate_bit x _ hi, BitVec.getLsbD_zero]
  rw [Nat.add_comm 32 i, h, Nat.add_comm 10 i, Nat.add_comm 30 i, Nat.add_comm 31 i, Nat.add_comm 0 i]
  simp

theorem prime_mem {q : Nat} (hq : q.Prime) (hd : q ∣ 2 ^ 32 - 1) : q ∈ [3, 5, 17, 257, 65537] := by
  have hfactor : 2 ^ 32 - 1 = 3 * (5 * (17 * (257 * 65537))) := by decide
  have hmem (n : Nat) (hn : n.Prime) (hqn : q ∣ n) : q = n := (Nat.prime_dvd_prime_iff_eq hq hn).1 hqn
  rw [hfactor, hq.dvd_mul, hq.dvd_mul, hq.dvd_mul, hq.dvd_mul] at hd
  rcases hd with h | h | h | h | h
  · simp [hmem 3 (by norm_num) h]
  · simp [hmem 5 (by norm_num) h]
  · simp [hmem 17 (by norm_num) h]
  · simp [hmem 257 (by norm_num) h]
  · simp [hmem 65537 (by norm_num) h]

/-- **The register runs through all words**: but for zero, each comes back after `2 ^ 32 - 1` calls, and not before. -/
theorem minimalPeriod_next {x : BitVec 32} (hx : x ≠ 0) : Function.minimalPeriod next x = 2 ^ 32 - 1 := by
  have hone : power 32 taps 32 (2 ^ 32 - 1) = 1 := by decide +kernel
  refine minimalPeriod_eq (T := step) word_add_self eval_taps (by decide) (by decide) hone (fun q hq hd => ?_) hx
  -- the inverses
  have hmem := prime_mem hq hd
  simp only [List.mem_cons, List.not_mem_nil, or_false] at hmem
  rcases hmem with rfl | rfl | rfl | rfl | rfl
  · exact ⟨0x99fe2c82, by decide +kernel⟩
  · exact ⟨0x21d5e9dd, by decide +kernel⟩
  · exact ⟨0x50cf1734, by decide +kernel⟩
  · exact ⟨0xf6d58a77, by decide +kernel⟩
  · exact ⟨0x613dbf2e, by decide +kernel⟩

/-- Zero comes from zero only. -/
theorem iterate_next_ne {x : BitVec 32} (hx : x ≠ 0) (k : Nat) : next^[k] x ≠ 0 := by
  have hmem : x ∈ Function.periodicPts next := by
    rw [← Function.minimalPeriod_pos_iff_mem_periodicPts, minimalPeriod_next hx]
    decide
  intro h
  have hperiod := Function.minimalPeriod_apply_iterate hmem k
  have hfix : Function.minimalPeriod next (0 : BitVec 32) = 1 := Function.minimalPeriod_eq_one_iff_isFixedPt.2 (by decide)
  rw [h, hfix, minimalPeriod_next hx] at hperiod
  exact absurd hperiod (by decide)

theorem iterate_next_inj {x : BitVec 32} (hx : x ≠ 0) {i j : Nat} (hi : i < 2 ^ 32 - 1) (hj : j < 2 ^ 32 - 1)
    (h : next^[i] x = next^[j] x) : i = j :=
  (Function.iterate_eq_iterate_iff_of_lt_minimalPeriod (by rwa [minimalPeriod_next hx])
    (by rwa [minimalPeriod_next hx])).1 h

theorem iterate_next_period {x : BitVec 32} (hx : x ≠ 0) : next^[2 ^ 32 - 1] x = x := by
  rw [← minimalPeriod_next hx]
  exact Function.iterate_minimalPeriod

/-- Every word but zero is met on the way round. -/
theorem exists_iterate_next {x y : BitVec 32} (hx : x ≠ 0) (hy : y ≠ 0) : ∃ k < 2 ^ 32 - 1, next^[k] x = y := by
  let f (i : Fin (2 ^ 32 - 1)) : {y : BitVec 32 // y ≠ 0} := ⟨next^[i] x, iterate_next_ne hx i⟩
  have hinj : Function.Injective f := fun i j h =>
    Fin.ext (iterate_next_inj hx i.isLt j.isLt (congrArg Subtype.val h))
  have hcard : Fintype.card {y : BitVec 32 // y ≠ 0} = 2 ^ 32 - 1 := by
    rw [Fintype.card_subtype_compl, Fintype.card_subtype_eq, ← FinEnum.card_eq_fintypeCard, FinEnum.card_bitVec]
  obtain ⟨i, hi⟩ := ((Fintype.bijective_iff_injective_and_card f).2 ⟨hinj, by rw [hcard, Fintype.card_fin]⟩).2 ⟨y, hy⟩
  exact ⟨i, i.isLt, congrArg Subtype.val hi⟩

end YieldStm32.Lfsr32
