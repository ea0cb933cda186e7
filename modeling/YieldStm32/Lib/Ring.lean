import Mathlib.Data.List.Basic
import Mathlib.Logic.Function.Basic

/-!
# Ring buffers

A ring of `n` cells is a memory `Nat → α` of which the cells below `n` are used. Positions grow without bound: position
`p` is the cell `p % n`. A transfer is made of two linear copies, one up to the end of the ring and one from its start.

* `copyIn`, `copyOut` : linear copies into and out of a memory;
* `write`, `read` : the two-part transfers at a position;
* `read_write_append` : what was in the ring, then what was written behind it.
-/

namespace Ring

variable {α : Type*}

/-- The list copied into memory from `dst` on. -/
def copyIn (m : Nat → α) (dst : Nat) (xs : List α) : Nat → α := fun i =>
  if h : dst ≤ i ∧ i - dst < xs.length then xs.get ⟨i - dst, h.2⟩ else m i

/-- The `k` cells from `src` on. -/
def copyOut (m : Nat → α) (src k : Nat) : List α := (List.range k).map fun i => m (src + i)

theorem length_copyOut (m : Nat → α) (src k : Nat) : (copyOut m src k).length = k := by
  rw [copyOut, List.length_map, List.length_range]

theorem copyOut_add (m : Nat → α) (src j k : Nat) :
    copyOut m src (j + k) = copyOut m src j ++ copyOut m (src + j) k := by
  rw [copyOut, List.range_add, List.map_append, List.map_map]
  exact congrArg (copyOut m src j ++ ·) (List.map_congr_left fun i _ => congrArg m (Nat.add_assoc ..).symm)

theorem take_copyOut (m : Nat → α) (src k n : Nat) : (copyOut m src n).take k = copyOut m src (min k n) := by
  rw [copyOut, copyOut, ← List.map_take, List.take_range]

theorem drop_copyOut (m : Nat → α) (src k n : Nat) : (copyOut m src n).drop k = copyOut m (src + k) (n - k) := by
  rcases Nat.le_total k n with h | h
  · conv_lhs => rw [← Nat.add_sub_cancel' h]
    rw [copyOut_add, List.drop_left' (length_copyOut ..)]
  · rw [List.drop_of_length_le (by rw [length_copyOut]; exact h), Nat.sub_eq_zero_of_le h]
    rfl

/-- Memories that agree on the cells are copied alike. -/
theorem copyOut_congr {m m' : Nat → α} {src k : Nat} (h : ∀ i < k, m (src + i) = m' (src + i)) :
    copyOut m src k = copyOut m' src k :=
  List.map_congr_left fun i hi => h i (List.mem_range.1 hi)

/-- A transfer into the ring. -/
def write (m : Nat → α) (n p : Nat) (xs : List α) : Nat → α :=
  let toWrap := min (n - p % n) xs.length
  copyIn (copyIn m (p % n) (xs.take toWrap)) 0 (xs.drop toWrap)

/-- A transfer out of the ring. -/
def read (m : Nat → α) (n p k : Nat) : List α :=
  let toWrap := min (n - p % n) k
  copyOut m (p % n) toWrap ++ copyOut m 0 (k - toWrap)

@[simp] theorem length_read (m : Nat → α) (n p k : Nat) : (read m n p k).length = k := by
  simp only [read, copyOut, List.length_append, List.length_map, List.length_range]
  omega

/-- A list copied into memory is read back. -/
theorem copyOut_copyIn_self (m : Nat → α) (p : Nat) (xs : List α) : copyOut (copyIn m p xs) p xs.length = xs := by
  refine List.ext_getElem? fun i => ?_
  rcases Nat.lt_or_ge i xs.length with hi | hi
  · rw [copyOut, List.getElem?_map, List.getElem?_range hi, Option.map_some, copyIn, dif_pos (by omega),
      List.getElem?_eq_getElem hi]
    simp
  · rw [List.getElem?_eq_none (by rwa [length_copyOut]), List.getElem?_eq_none hi]

/-- Cells that a copy does not reach. -/
theorem copyOut_copyIn_of_disjoint (m : Nat → α) {p q k : Nat} {xs : List α} (h : q + k ≤ p ∨ p + xs.length ≤ q) :
    copyOut (copyIn m p xs) q k = copyOut m q k :=
  copyOut_congr fun i hi => dif_neg (by omega)

/-- A second list of the same length takes the place of the first. -/
theorem copyIn_copyIn (m : Nat → α) (p : Nat) {xs ys : List α} (h : xs.length = ys.length) :
    copyIn (copyIn m p xs) p ys = copyIn m p ys := by
  funext i
  by_cases hi : p ≤ i ∧ i - p < ys.length
  · rw [copyIn, dif_pos hi, copyIn, dif_pos hi]
  · have hxs : ¬ (p ≤ i ∧ i - p < xs.length) := by rwa [h]
    rw [copyIn, dif_neg hi, copyIn, dif_neg hxs, copyIn, dif_neg hi]

theorem copyIn_nil (m : Nat → α) (p : Nat) : copyIn m p [] = m := by
  funext i
  exact dif_neg fun h => Nat.not_lt_zero _ h.2

section Cells

variable (m : Nat → α) (p : Nat) (x : α) (xs : List α)

theorem copyIn_apply (i : Nat) : copyIn m p xs i = if p ≤ i then xs[i - p]?.getD (m i) else m i := by
  unfold copyIn
  split
  · rename_i h
    rw [if_pos h.1, List.getElem?_eq_getElem h.2]
    rfl
  · rename_i h
    split
    · rename_i hle
      rw [List.getElem?_eq_none (Nat.not_lt.1 fun hlt => h ⟨hle, hlt⟩)]
      rfl
    · rfl

theorem copyIn_cons_apply (i : Nat) :
    copyIn m p (x :: xs) i = if i = p then x else copyIn m (p + 1) xs i := by
  rw [copyIn_apply, copyIn_apply]
  rcases Nat.lt_trichotomy i p with hlt | rfl | hgt
  · rw [if_neg (by omega), if_neg (by omega), if_neg (by omega)]
  · rw [if_pos (Nat.le_refl i), if_pos rfl, Nat.sub_self]
    rfl
  · obtain ⟨k, rfl⟩ := Nat.exists_eq_add_of_lt hgt
    rw [if_pos (by omega), if_neg (by omega), if_pos (by omega), show p + k + 1 - p = k + 1 by omega,
      show p + k + 1 - (p + 1) = k by omega, List.getElem?_cons_succ]

/-- The first cell may be written after the others, -/
theorem update_copyIn : Function.update (copyIn m (p + 1) xs) p x = copyIn m p (x :: xs) := by
  funext i
  rw [copyIn_cons_apply, Function.update_apply]

/-- or before them. -/
theorem copyIn_update : copyIn (Function.update m p x) (p + 1) xs = copyIn m p (x :: xs) := by
  funext i
  rw [copyIn_cons_apply, copyIn_apply, copyIn_apply, Function.update_apply]
  by_cases hi : i = p
  · rw [if_neg (by omega), if_pos hi, if_pos hi]
  · rw [if_neg hi, if_neg hi]

/-- Two lists, one behind the other. -/
theorem copyIn_append (ys : List α) : copyIn (copyIn m p xs) (p + xs.length) ys = copyIn m p (xs ++ ys) := by
  funext i
  simp only [copyIn_apply, List.getElem?_append]
  by_cases hp : p ≤ i
  · by_cases hin : i - p < xs.length
    · rw [if_neg (by omega), if_pos hp, if_pos hp, if_pos hin]
    · have hout : xs[i - p]? = none := List.getElem?_eq_none (by omega)
      rw [if_pos (by omega), if_pos hp, if_pos hp, if_neg hin, hout, Option.getD_none, Nat.sub_add_eq]
  · rw [if_neg (by omega), if_neg hp, if_neg hp]

/-- The second list may be written first. -/
theorem copyIn_before (ys : List α) : copyIn (copyIn m (p + xs.length) ys) p xs = copyIn m p (xs ++ ys) := by
  funext i
  simp only [copyIn_apply, List.getElem?_append]
  by_cases hp : p ≤ i
  · by_cases hin : i - p < xs.length
    · rw [if_pos hp, if_neg (by omega), if_pos hp, if_pos hin]
    · have hout : xs[i - p]? = none := List.getElem?_eq_none (by omega)
      rw [if_pos hp, if_pos (by omega), if_pos hp, if_neg hin, hout, Option.getD_none, Nat.sub_add_eq]
  · rw [if_neg hp, if_neg (by omega), if_neg hp]

end Cells

/-- The first element once more. -/
theorem copyIn_head (m : Nat → α) (p : Nat) (x y : α) (xs : List α) :
    copyIn (copyIn m p (x :: xs)) p [y] = copyIn m p (y :: xs) := by
  funext i
  rcases Nat.lt_trichotomy i p with hlt | rfl | hgt
  · rw [copyIn, dif_neg (by omega), copyIn, dif_neg (by omega), copyIn, dif_neg (by omega)]
  · simp [copyIn]
  · obtain ⟨k, rfl⟩ := Nat.exists_eq_add_of_lt hgt
    have hk : p + k + 1 - p = k + 1 := by omega
    have hout : ¬ (p ≤ p + k + 1 ∧ p + k + 1 - p < [y].length) := by
      rw [List.length_singleton]
      omega
    rw [copyIn, dif_neg hout]
    simp only [copyIn, List.length_cons, hk, List.get_eq_getElem, List.getElem_cons_succ]

/-- A copy behind `k` cells comes out behind them. -/
theorem copyOut_copyIn_behind (m : Nat → α) (p k : Nat) (xs : List α) :
    copyOut (copyIn m (p + k) xs) p (k + xs.length) = copyOut m p k ++ xs := by
  rw [copyOut_add, copyOut_copyIn_self, copyOut_copyIn_of_disjoint m (Or.inl (Nat.le_refl _))]

theorem copyOut_copyIn (m : Nat → α) (k : Nat) (xs : List α) :
    copyOut (copyIn m k xs) 0 (k + xs.length) = copyOut m 0 k ++ xs := by
  have h := copyOut_copyIn_behind m 0 k xs
  rwa [Nat.zero_add] at h

/-- The cell `i` positions on. -/
theorem pos_add {n : Nat} (p : Nat) {i : Nat} (hi : i ≤ n) (hn : 0 < n) :
    (p + i) % n = if p % n + i < n then p % n + i else p % n + i - n := by
  have hp := Nat.mod_lt p hn
  rw [Nat.add_mod]
  split
  · rcases Nat.lt_or_ge i n with h | h
    · rw [Nat.mod_eq_of_lt h, Nat.mod_eq_of_lt (by omega)]
    · omega
  · rcases Nat.lt_or_ge i n with h | h
    · rw [Nat.mod_eq_of_lt h, Nat.mod_eq_sub_mod (by omega), Nat.mod_eq_of_lt (by omega)]
    · obtain rfl : i = n := by omega
      rw [Nat.mod_self, Nat.add_zero, Nat.mod_mod]
      omega

/-- A read is the cells at the positions from `p` on. -/
theorem getElem?_read (m : Nat → α) {n : Nat} (p : Nat) {k i : Nat} (hk : k ≤ n) (hi : i < k) :
    (read m n p k)[i]? = some (m ((p + i) % n)) := by
  have hp := Nat.mod_lt p (show 0 < n by omega)
  rw [pos_add p (by omega) (by omega)]
  simp only [read, copyOut]
  by_cases h : i < min (n - p % n) k
  · rw [List.getElem?_append_left (by rwa [List.length_map, List.length_range]), if_pos (by omega)]
    rw [List.getElem?_map, List.getElem?_range h, Option.map_some]
  · rw [List.getElem?_append_right (by rw [List.length_map, List.length_range]; omega), if_neg (by omega)]
    rw [List.length_map, List.length_range, List.getElem?_map, List.getElem?_range (by omega), Option.map_some]
    congr 2
    omega

theorem read_congr (m : Nat → α) {n p q : Nat} (h : p % n = q % n) (k : Nat) : read m n p k = read m n q k := by
  rw [read, read, h]

theorem write_congr (m : Nat → α) {n p q : Nat} (h : p % n = q % n) (xs : List α) :
    write m n p xs = write m n q xs := by
  rw [write, write, h]

theorem take_read (m : Nat → α) {n : Nat} (p : Nat) {j k : Nat} (hk : k ≤ n) (hj : j ≤ k) :
    (read m n p k).take j = read m n p j := by
  refine List.ext_getElem? fun i => ?_
  rcases Nat.lt_or_ge i j with hi | hi
  · rw [List.getElem?_take_of_lt hi, getElem?_read m p hk (by omega), getElem?_read m p (by omega) hi]
  · rw [List.getElem?_eq_none (by simp; omega), List.getElem?_eq_none (by simp; omega)]

theorem drop_read (m : Nat → α) {n : Nat} (p : Nat) {j k : Nat} (hk : k ≤ n) :
    (read m n p k).drop j = read m n (p + j) (k - j) := by
  refine List.ext_getElem? fun i => ?_
  rw [List.getElem?_drop]
  rcases Nat.lt_or_ge i (k - j) with hi | hi
  · rw [getElem?_read m p hk (by omega), getElem?_read m (p + j) (by omega) hi, Nat.add_assoc]
  · rw [List.getElem?_eq_none (by simp; omega), List.getElem?_eq_none (by simp; omega)]

/-- The cells of a write hold the list; the others are as before. -/
theorem write_at (m : Nat → α) {n : Nat} (p : Nat) (xs : List α) {i : Nat} (hi : i < n) (hx : xs.length ≤ n) :
    write m n p xs ((p + i) % n) = if h : i < xs.length then xs.get ⟨i, h⟩ else m ((p + i) % n) := by
  have hp := Nat.mod_lt p (show 0 < n by omega)
  rw [pos_add p (by omega) (by omega)]
  simp only [write, copyIn, List.length_take, List.length_drop, List.get_eq_getElem, List.getElem_take,
    List.getElem_drop]
  by_cases hw : p % n + i < n
  · rw [if_pos hw, dif_neg (by omega)]
    by_cases h : i < xs.length
    · rw [dif_pos (by omega), dif_pos h]
      congr 1
      omega
    · rw [dif_neg (by omega), dif_neg h]
  · rw [if_neg hw]
    by_cases h : i < xs.length
    · rw [dif_pos (by omega), dif_pos h]
      congr 1
      omega
    · rw [dif_neg (by omega), dif_neg (by omega), dif_neg h]

/-- Behind the ring nothing is written. -/
theorem write_of_le (m : Nat → α) {n : Nat} (p : Nat) (xs : List α) {i : Nat} (hn : 0 < n) (hi : n ≤ i)
    (hx : xs.length ≤ n) : write m n p xs i = m i := by
  have hp := Nat.mod_lt p hn
  rw [write, copyIn, dif_neg, copyIn, dif_neg]
  · rw [List.length_take]
    omega
  · rw [List.length_drop]
    omega

/-- Every cell is some positions on from `p`. -/
theorem pos_surj {n : Nat} (p : Nat) {j : Nat} (hj : j < n) : ∃ i < n, (p + i) % n = j := by
  have hp := Nat.mod_lt p (show 0 < n by omega)
  refine ⟨(j + n - p % n) % n, Nat.mod_lt _ (by omega), ?_⟩
  rw [Nat.add_mod, Nat.mod_mod, Nat.add_mod_mod, show p % n + (j + n - p % n) = j + n by omega, Nat.add_mod_right,
    Nat.mod_eq_of_lt hj]

/-- Two transfers, one behind the other. -/
theorem write_append (m : Nat → α) {n : Nat} (p : Nat) (xs ys : List α) (hn : 0 < n) (h : xs.length + ys.length ≤ n) :
    write (write m n p xs) n (p + xs.length) ys = write m n p (xs ++ ys) := by
  have hlen : (xs ++ ys).length = xs.length + ys.length := List.length_append
  funext j
  rcases Nat.lt_or_ge j n with hj | hj
  · obtain ⟨i, hi, rfl⟩ := pos_surj p hj
    rw [write_at m p (xs ++ ys) hi (by omega)]
    rcases Nat.lt_or_ge i xs.length with hix | hix
    · -- a cell of the first transfer, `n - xs.length + i` positions on from the second
      have hcell : (p + i) % n = (p + xs.length + (n - xs.length + i)) % n := by
        rw [show p + xs.length + (n - xs.length + i) = p + i + n by omega, Nat.add_mod_right]
      rw [hcell, write_at _ (p + xs.length) ys (by omega) (by omega), dif_neg (by omega), ← hcell,
        write_at m p xs hi (by omega), dif_pos hix, dif_pos (by omega)]
      exact (List.getElem_append_left hix).symm
    · have hcell : p + i = p + xs.length + (i - xs.length) := by omega
      rw [hcell, write_at _ (p + xs.length) ys (by omega) (by omega), ← hcell]
      by_cases hiy : i - xs.length < ys.length
      · rw [dif_pos hiy, dif_pos (by omega)]
        exact (List.getElem_append_right hix).symm
      · rw [dif_neg hiy, write_at m p xs hi (by omega), dif_neg (by omega), dif_neg (by omega)]
  · rw [write_of_le _ _ _ hn hj (by omega), write_of_le _ _ _ hn hj (by omega), write_of_le _ _ _ hn hj (by omega)]

/-- **First in, first out**: a write behind `u` cells adds its list to what a read from the first of them returns. -/
theorem read_write_append (m : Nat → α) {n : Nat} (p : Nat) {u : Nat} (xs : List α) (h : u + xs.length ≤ n) :
    read (write m n (p + u) xs) n p (u + xs.length) = read m n p u ++ xs := by
  refine List.ext_getElem? fun i => ?_
  rcases Nat.lt_or_ge i (u + xs.length) with hi | hi
  · rw [getElem?_read _ p h hi]
    rcases Nat.lt_or_ge i u with hiu | hiu
    · -- a cell from before: it is `n - u + i` positions on from the write
      have hcell : (p + i) % n = (p + u + (n - u + i)) % n := by
        rw [show p + u + (n - u + i) = p + i + n by omega, Nat.add_mod_right]
      rw [hcell, write_at m (p + u) xs (by omega) (by omega), dif_neg (by omega), ← hcell,
        List.getElem?_append_left (by simpa using hiu), getElem?_read m p (by omega) hiu]
    · have hcell : p + i = p + u + (i - u) := by omega
      rw [hcell, write_at m (p + u) xs (by omega) (by omega), dif_pos (by omega),
        List.getElem?_append_right (by simpa using hiu), length_read, List.getElem?_eq_getElem (by omega)]
      rfl
  · rw [List.getElem?_eq_none (by simpa using hi), List.getElem?_eq_none (by simpa using hi)]

end Ring
