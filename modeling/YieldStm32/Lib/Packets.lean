import YieldStm32.Lib.Ring

/-!
# Data cut into packets

Data go in packets of `n` cells, of which the last one differs: it is short, and may be empty, or has what remains.

* `Split n last ps` : all but the last of the packets have `n` cells, and the length of the last one is as `last` says;
* `split_cons`, `Split.cons_cases` : its rules, packet by packet;
* `pieces n m src len` : a stretch of memory cut up to a short last packet, `flatten_pieces`, `split_pieces`;
* `chunks n m src len` : the same without an empty packet behind a full one, `pieces_eq_chunks`.
-/

namespace Packets

variable {α : Type*} {n : Nat} {last : Nat → Prop} {p : List α} {ps : List (List α)}

/-- Full packets, and a last one. -/
def Split (n : Nat) (last : Nat → Prop) (ps : List (List α)) : Prop :=
  ∃ full p, ps = full ++ [p] ∧ (∀ q ∈ full, q.length = n) ∧ last p.length

theorem split_single (h : last p.length) : Split n last [p] := ⟨[], p, rfl, nofun, h⟩

theorem split_cons (hp : p.length = n) (h : Split n last ps) : Split n last (p :: ps) := by
  obtain ⟨full, q, rfl, hfull, hlast⟩ := h
  refine ⟨p :: full, q, rfl, fun r hr => ?_, hlast⟩
  rcases List.mem_cons.1 hr with rfl | hr
  · exact hp
  · exact hfull r hr

/-- The first packet is the last one, or it is full and others follow. -/
theorem Split.cons_cases (h : Split n last (p :: ps)) : ps = [] ∧ last p.length ∨ p.length = n ∧ Split n last ps := by
  obtain ⟨full, q, heq, hfull, hlast⟩ := h
  cases full with
  | nil =>
      obtain ⟨rfl, rfl⟩ := List.cons.inj heq
      exact Or.inl ⟨rfl, hlast⟩
  | cons r full =>
      obtain ⟨rfl, rfl⟩ := List.cons.inj heq
      exact Or.inr ⟨hfull p List.mem_cons_self, full, q, rfl, fun r hr => hfull r (List.mem_cons_of_mem p hr), hlast⟩

theorem not_split_nil : ¬ Split n last ([] : List (List α)) := by
  rintro ⟨full, p, heq, -⟩
  exact List.append_ne_nil_of_right_ne_nil full (List.cons_ne_nil p []) heq.symm

/-- The `len` cells from `src` on, in packets of `n` cells up to the first short one. -/
def pieces (n : Nat) (m : Nat → α) (src len : Nat) : List (List α) :=
  if 0 < n ∧ n ≤ len then Ring.copyOut m src n :: pieces n m (src + n) (len - n) else [Ring.copyOut m src len]
termination_by len

theorem pieces_eq (n : Nat) (m : Nat → α) (src len : Nat) :
    pieces n m src len =
      if 0 < n ∧ n ≤ len then Ring.copyOut m src n :: pieces n m (src + n) (len - n) else [Ring.copyOut m src len] := by
  rw [pieces]

theorem pieces_of_le (m : Nat → α) (src : Nat) {len : Nat} (hn : 0 < n) (h : n ≤ len) :
    pieces n m src len = Ring.copyOut m src n :: pieces n m (src + n) (len - n) := by
  rw [pieces_eq, if_pos ⟨hn, h⟩]

theorem pieces_of_lt (m : Nat → α) (src : Nat) {len : Nat} (h : len < n) : pieces n m src len = [Ring.copyOut m src len] := by
  rw [pieces_eq, if_neg fun h' => by omega]

theorem flatten_pieces (m : Nat → α) (src len : Nat) : (pieces n m src len).flatten = Ring.copyOut m src len := by
  fun_induction pieces n m src len with
  | case1 src len h ih =>
      have hsplit := Ring.copyOut_add m src n (len - n)
      rw [Nat.add_sub_cancel' h.2] at hsplit
      rw [List.flatten_cons, ih, hsplit]
  | case2 src len h => exact List.append_nil _

theorem split_pieces (m : Nat → α) (src len : Nat) (hn : 0 < n) : Split n (· < n) (pieces n m src len) := by
  fun_induction pieces n m src len with
  | case1 src len h ih => exact split_cons (Ring.length_copyOut ..) ih
  | case2 src len h =>
      refine split_single ?_
      rw [Ring.length_copyOut]
      omega

/-! ## No empty packet at the end -/

/-- The `len` cells from `src` on, in packets of `n` cells, of which the last one has what remains. -/
def chunks (n : Nat) (m : Nat → α) (src len : Nat) : List (List α) :=
  if 0 < n ∧ n < len then Ring.copyOut m src n :: chunks n m (src + n) (len - n) else [Ring.copyOut m src len]
termination_by len

theorem chunks_eq (n : Nat) (m : Nat → α) (src len : Nat) :
    chunks n m src len =
      if 0 < n ∧ n < len then Ring.copyOut m src n :: chunks n m (src + n) (len - n) else [Ring.copyOut m src len] := by
  rw [chunks]

theorem chunks_of_lt (m : Nat → α) (src : Nat) {len : Nat} (hn : 0 < n) (h : n < len) :
    chunks n m src len = Ring.copyOut m src n :: chunks n m (src + n) (len - n) := by
  rw [chunks_eq, if_pos ⟨hn, h⟩]

theorem chunks_of_le (m : Nat → α) (src : Nat) {len : Nat} (h : len ≤ n) : chunks n m src len = [Ring.copyOut m src len] := by
  rw [chunks_eq, if_neg fun h' => by omega]

/-- How many packets there are. -/
def count (n len : Nat) : Nat := max 1 ((len + n - 1) / n)

theorem count_of_lt {len : Nat} (hn : 0 < n) (h : n < len) : count n len = count n (len - n) + 1 := by
  have hdiv : (len + n - 1) / n = (len - n + n - 1) / n + 1 := by
    rw [← Nat.add_div_right _ hn]
    congr 1
    omega
  have hpos : 0 < (len - n + n - 1) / n := Nat.div_pos (by omega) hn
  unfold count
  omega

theorem count_of_le {len : Nat} (hn : 0 < n) (h : len ≤ n) : count n len = 1 := by
  have hdiv : (len + n - 1) / n < 2 := (Nat.div_lt_iff_lt_mul hn).2 (by omega)
  unfold count
  omega

/-- An empty packet is missing exactly where all packets are full. -/
theorem pieces_eq_chunks (m : Nat → α) (src len : Nat) (hn : 0 < n) :
    pieces n m src len = chunks n m src len ++ if count n len * n = len then [[]] else [] := by
  fun_induction chunks n m src len with
  | case1 src len h ih =>
      have hiff : count n len * n = len ↔ count n (len - n) * n = len - n := by
        rw [count_of_lt hn h.2, Nat.add_mul, Nat.one_mul]
        omega
      rw [pieces_of_le m src hn (Nat.le_of_lt h.2), ih, if_congr hiff rfl rfl]
      rfl
  | case2 src len h =>
      have hle : len ≤ n := by omega
      rw [count_of_le hn hle, Nat.one_mul]
      by_cases hfull : n = len
      · have hrest : len - n = 0 := by omega
        rw [if_pos hfull, pieces_of_le m src hn (Nat.le_of_eq hfull), hrest, pieces_of_lt m _ hn, hfull]
        rfl
      · rw [if_neg hfull, pieces_of_lt m src (by omega)]
        rfl

end Packets
