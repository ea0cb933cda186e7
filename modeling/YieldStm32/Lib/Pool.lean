import Mathlib.Data.Finset.Card
import Mathlib.Data.Fintype.Basic

/-!
# Pools of entries that are in use or free

* `count` : how many entries are in use;
* `firstFree` : the entry that is handed out next;
* `count_take`, `count_same` : what becomes of the number when one entry changes.
-/

namespace Pool

variable {n : Nat} {α : Type*} (used : α → Bool)

/-- How many entries are in use. -/
def count (pool : Fin n → α) : Nat := (Finset.univ.filter fun i => used (pool i) = true).card

/-- The first entry that is not in use. -/
def firstFree (pool : Fin n → α) : Option (Fin n) := (List.finRange n).find? fun i => used (pool i) = false

variable {used} {pool : Fin n → α} {i : Fin n} {x : α}

theorem firstFree_spec (h : firstFree used pool = some i) : used (pool i) = false := by
  simpa using List.find?_some h

/-- An entry that is in use as before. -/
theorem count_same (h : used x = used (pool i)) : count used (Function.update pool i x) = count used pool := by
  refine congrArg Finset.card (Finset.filter_congr fun j _ => ?_)
  by_cases hj : j = i
  · rw [hj, Function.update_self, h]
  · rw [Function.update_of_ne hj]

/-- An entry comes into use. -/
theorem count_take (hi : used (pool i) = false) (hx : used x = true) :
    count used (Function.update pool i x) = count used pool + 1 := by
  have hset : (Finset.univ.filter fun j => used (Function.update pool i x j) = true) =
      insert i (Finset.univ.filter fun j => used (pool j) = true) := by
    ext j
    by_cases hj : j = i <;> simp [hj, hx]
  rw [count, hset, Finset.card_insert_of_notMem (by simp [hi])]
  rfl

end Pool
