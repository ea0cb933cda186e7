import Mathlib.Data.Nat.ModEq
import Mathlib.Logic.Function.Basic
import YieldStm32.Lib.Counter

/-!
# Rings of slots

`cap` slots, and free-running 32-bit counters: counter `t` stands for slot `t % cap`. Where `cap` divides `2 ^ 32` the
slots follow one another across the wrap of the counter.

* `index cap t` : the slot of a counter;
* `list cap m n t` : what the `n` slots from counter `t` on hold;
* `list_add`, `list_update`, `list_push` : two stretches, a slot written behind a stretch, and with it.
-/

namespace Slots

open Counter

variable {α : Type*}

/-- The slot of a counter. -/
def index (cap : Nat) (t : BitVec 32) : Nat := t.toNat % cap

/-- What the `n` slots from counter `t` on hold. -/
def list (cap : Nat) (m : Nat → α) : Nat → BitVec 32 → List α
  | 0, _ => []
  | n + 1, t => m (index cap t) :: list cap m n (t + 1)

@[simp] theorem length_list (cap : Nat) (m : Nat → α) (n : Nat) (t : BitVec 32) : (list cap m n t).length = n := by
  induction n generalizing t with
  | zero => rfl
  | succ n ih => rw [list, List.length_cons, ih]

theorem list_add (cap : Nat) (m : Nat → α) (j k : Nat) (t : BitVec 32) :
    list cap m (j + k) t = list cap m j t ++ list cap m k (adv t j) := by
  induction j generalizing t with
  | zero => rw [Nat.zero_add, adv_zero, list, List.nil_append]
  | succ j ih => rw [Nat.succ_add, list, list, List.cons_append, ih, adv_succ]

theorem list_succ (cap : Nat) (m : Nat → α) (n : Nat) (t : BitVec 32) :
    list cap m (n + 1) t = list cap m n t ++ [m (index cap (adv t n))] := list_add cap m n 1 t

theorem list_congr {cap : Nat} {m m' : Nat → α} {n : Nat} {t : BitVec 32}
    (h : ∀ i < n, m (index cap (adv t i)) = m' (index cap (adv t i))) : list cap m n t = list cap m' n t := by
  induction n with
  | zero => rfl
  | succ n ih => rw [list_succ, list_succ, ih fun i hi => h i (Nat.lt_succ_of_lt hi), h n (Nat.lt_succ_self n)]

/-- Counters less than `cap` apart stand for different slots. -/
theorem index_adv_ne {cap : Nat} (hdvd : cap ∣ 2 ^ 32) (t : BitVec 32) {i n : Nat} (hi : i < n) (hn : n - i < cap) :
    index cap (adv t i) ≠ index cap (adv t n) := by
  unfold index
  rw [toNat_adv, toNat_adv, Nat.mod_mod_of_dvd _ hdvd, Nat.mod_mod_of_dvd _ hdvd]
  intro heq
  have hdiff : n - i ≡ 0 [MOD cap] := by
    have hmod : t.toNat + i + (n - i) ≡ t.toNat + i + 0 [MOD cap] := by
      rw [show t.toNat + i + (n - i) = t.toNat + n by omega]
      exact heq.symm
    exact Nat.ModEq.add_left_cancel' _ hmod
  rw [Nat.ModEq, Nat.mod_eq_of_lt hn, Nat.zero_mod] at hdiff
  omega

variable {cap n : Nat}

/-- A slot behind the `n` slots is none of them. -/
theorem update_behind (hdvd : cap ∣ 2 ^ 32) (hn : n < cap) (m : Nat → α) (t : BitVec 32) (x : α) {i : Nat} (hi : i < n) :
    Function.update m (index cap (adv t n)) x (index cap (adv t i)) = m (index cap (adv t i)) :=
  Function.update_of_ne (index_adv_ne hdvd t hi (by omega)) x m

theorem list_update (hdvd : cap ∣ 2 ^ 32) (hn : n < cap) (m : Nat → α) (t : BitVec 32) (x : α) {k : Nat} (hk : k ≤ n) :
    list cap (Function.update m (index cap (adv t n)) x) k t = list cap m k t :=
  list_congr fun _ hi => update_behind hdvd hn m t x (Nat.lt_of_lt_of_le hi hk)

/-- A slot written behind `n` slots. -/
theorem list_push (hdvd : cap ∣ 2 ^ 32) (hn : n < cap) (m : Nat → α) (t : BitVec 32) (x : α) :
    list cap (Function.update m (index cap (adv t n)) x) (n + 1) t = list cap m n t ++ [x] := by
  rw [list_succ, list_update hdvd hn m t x (Nat.le_refl n), Function.update_self]

end Slots
