import Mathlib.Data.List.Basic

/-!
# Folding over blocks

* `foldBlocks n f b xs` : `f`, over the blocks of `n` elements that a list begins with; fewer than `n` are left out;
* `foldBlocks_block_append` : a block in front;
* `foldBlocks_append` : whole blocks in front;
* `remainder n xs` : the elements that are left out; `foldBlocks_remainder` : what is to be folded once more come.
-/

namespace Blockwise

variable {α β : Type*}

/-- `f` over the complete blocks. -/
def foldBlocks (n : Nat) (f : β → List α → β) (b : β) (xs : List α) : β :=
  (List.range (xs.length / n)).foldl (fun b i => f b ((xs.drop (n * i)).take n)) b

variable {n : Nat} {f : β → List α → β} (b : β) {xs ys : List α}

theorem foldBlocks_of_lt (h : xs.length < n) : foldBlocks n f b xs = b := by
  rw [foldBlocks, Nat.div_eq_of_lt h]
  rfl

theorem foldBlocks_block_append (hn : 0 < n) (h : xs.length = n) (ys : List α) :
    foldBlocks n f b (xs ++ ys) = foldBlocks n f (f b xs) ys := by
  have hblocks : (xs ++ ys).length / n = ys.length / n + 1 := by
    rw [List.length_append, h, Nat.add_comm, Nat.add_div_right _ hn]
  have hfirst : ((xs ++ ys).drop (n * 0)).take n = xs := by
    rw [Nat.mul_zero, List.drop_zero, ← h, List.take_left]
  have hnext (i : Nat) : (xs ++ ys).drop (n * (i + 1)) = ys.drop (n * i) := by
    rw [Nat.mul_succ, Nat.add_comm (n * i), ← List.drop_drop, ← h, List.drop_left]
  unfold foldBlocks
  rw [hblocks, List.range_succ_eq_map, List.foldl_cons, List.foldl_map, hfirst]
  simp only [hnext]

theorem foldBlocks_block (hn : 0 < n) (h : xs.length = n) : foldBlocks n f b xs = f b xs := by
  have hnil : foldBlocks n f (f b xs) ([] : List α) = f b xs := foldBlocks_of_lt _ hn
  have happend := foldBlocks_block_append (f := f) b hn h []
  rwa [List.append_nil, hnil] at happend

theorem foldBlocks_append (hn : 0 < n) (h : n ∣ xs.length) (ys : List α) :
    foldBlocks n f b (xs ++ ys) = foldBlocks n f (foldBlocks n f b xs) ys := by
  obtain ⟨k, hk⟩ := h
  induction k generalizing b xs with
  | zero =>
      obtain rfl : xs = [] := List.length_eq_zero_iff.1 hk
      have hnil : foldBlocks n f b ([] : List α) = b := foldBlocks_of_lt b hn
      rw [List.nil_append, hnil]
  | succ k ih =>
      have htake : (xs.take n).length = n := by
        rw [List.length_take, hk, Nat.mul_succ]
        omega
      have hdrop : (xs.drop n).length = n * k := by
        rw [List.length_drop, hk, Nat.mul_succ]
        omega
      have hsplit : xs = xs.take n ++ xs.drop n := (List.take_append_drop n xs).symm
      rw [hsplit, List.append_assoc, foldBlocks_block_append b hn htake, foldBlocks_block_append b hn htake, ih _ hdrop]

/-- What is behind the complete blocks. -/
def remainder (n : Nat) (xs : List α) : List α := xs.drop (n * (xs.length / n))

theorem length_remainder (n : Nat) (xs : List α) : (remainder n xs).length = xs.length % n := by
  have hdiv := Nat.div_add_mod xs.length n
  rw [remainder, List.length_drop]
  omega

theorem length_whole (n : Nat) (xs : List α) : (xs.take (n * (xs.length / n))).length = n * (xs.length / n) := by
  have hdiv := Nat.div_add_mod xs.length n
  rw [List.length_take]
  omega

theorem remainder_of_lt (h : xs.length < n) : remainder n xs = xs := by
  rw [remainder, Nat.div_eq_of_lt h, Nat.mul_zero, List.drop_zero]

theorem remainder_append (hn : 0 < n) (h : n ∣ xs.length) (ys : List α) : remainder n (xs ++ ys) = remainder n ys := by
  obtain ⟨k, hk⟩ := h
  have hdiv : (xs ++ ys).length / n = k + ys.length / n := by
    rw [List.length_append, hk, Nat.mul_add_div hn]
  rw [remainder, remainder, hdiv, Nat.mul_add, ← hk, ← List.drop_drop, List.drop_left]

/-- More behind a list: its complete blocks have been folded, and what is behind them comes first. -/
theorem foldBlocks_remainder (hn : 0 < n) (xs ys : List α) :
    foldBlocks n f b (xs ++ ys) = foldBlocks n f (foldBlocks n f b xs) (remainder n xs ++ ys) ∧
      remainder n (xs ++ ys) = remainder n (remainder n xs ++ ys) := by
  have hwhole : n ∣ (xs.take (n * (xs.length / n))).length := ⟨_, length_whole n xs⟩
  have hsplit : xs = xs.take (n * (xs.length / n)) ++ remainder n xs := (List.take_append_drop _ xs).symm
  have hrest : (remainder n xs).length < n := by
    rw [length_remainder]
    exact Nat.mod_lt _ hn
  generalize xs.take (n * (xs.length / n)) = whole at *
  generalize remainder n xs = rest at *
  rw [hsplit, List.append_assoc, foldBlocks_append b hn hwhole, foldBlocks_append b hn hwhole, foldBlocks_of_lt _ hrest,
    remainder_append hn hwhole]
  exact ⟨rfl, rfl⟩

end Blockwise
