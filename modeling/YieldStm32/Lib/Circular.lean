import Mathlib.Data.List.Chain
import Mathlib.Data.List.Iterate
import Mathlib.Data.List.Nodup

/-!
# Circular doubly linked lists

Links are two functions on nodes. A circular list is given by its members, from a head on.

* `Linked next prev a b` : `b` is behind `a`, seen from both;
* `Closed next prev c xs` : `c :: xs` are linked one behind the other, and the last to `c`;
* `Closed.rotate`, `Closed.reroot` : the same list from its second member on, from any member on;
* `Closed.insert`, `Closed.remove` : a node linked in before the head, the head taken out;
* `Closed.inverse`, `Closed.iterate` : every member's neighbours point back at it; a walk along `next` meets the members.
-/

namespace Circular

variable {α : Type*} {next prev next' prev' : α → α} {a b c y t : α} {xs ys : List α}

/-- `b` is behind `a`. -/
def Linked (next prev : α → α) (a b : α) : Prop := next a = b ∧ prev b = a

/-- The members of a circular list, from its head on. -/
structure Closed (next prev : α → α) (c : α) (xs : List α) : Prop where
  nodup : (c :: xs).Nodup
  chain : List.IsChain (Linked next prev) (c :: xs)
  close : ∀ p ∈ (c :: xs).getLast?, Linked next prev p c

/-- The head is met once. -/
theorem Closed.not_mem (h : Closed next prev c xs) : c ∉ xs := (List.nodup_cons.1 h.nodup).1

theorem Closed.ne_head (h : Closed next prev c xs) (ha : a ∈ xs) : a ≠ c := by
  rintro rfl
  exact h.not_mem ha

/-- A list with its head put last has a head again. -/
theorem exists_rotated (c : α) (xs : List α) : ∃ y ys, xs ++ [c] = y :: ys :=
  List.exists_cons_of_ne_nil (List.append_ne_nil_of_right_ne_nil xs (List.cons_ne_nil c []))

theorem Closed.single (hn : next c = c) (hp : prev c = c) : Closed next prev c [] := by
  refine ⟨List.nodup_singleton c, List.isChain_singleton c, fun p h => ?_⟩
  obtain rfl := Option.some.inj h
  exact ⟨hn, hp⟩

/-- The node before the head is the last one. -/
theorem Closed.prev_mem (h : Closed next prev c xs) : prev c ∈ c :: xs := by
  obtain ⟨p, hp⟩ := List.getLast?_isSome.2 (List.cons_ne_nil c xs) |> Option.isSome_iff_exists.1
  rw [(h.close p hp).2]
  exact List.mem_of_getLast? hp

theorem Closed.getLast? (h : Closed next prev c xs) : (c :: xs).getLast? = some (prev c) := by
  obtain ⟨p, hp⟩ := List.getLast?_isSome.2 (List.cons_ne_nil c xs) |> Option.isSome_iff_exists.1
  rw [hp, (h.close p hp).2]

theorem Closed.next_prev (h : Closed next prev c xs) : next (prev c) = c := (h.close _ h.getLast?).1

theorem Closed.next_nil (h : Closed next prev c []) : next c = c := (h.close c rfl).1

theorem Closed.next_cons (h : Closed next prev c (y :: ys)) : next c = y := (List.isChain_cons_cons.1 h.chain).1.1

theorem Closed.prev_cons (h : Closed next prev c (y :: ys)) : prev y = c := (List.isChain_cons_cons.1 h.chain).1.2

/-- The same list, from its second member on. -/
theorem Closed.rotate (h : Closed next prev c (y :: ys)) : Closed next prev y (ys ++ [c]) := by
  have hlink := (List.isChain_cons_cons.1 h.chain).1
  have hlast : (y :: ys).getLast? = some (prev c) := by
    rw [← h.getLast?, List.getLast?_cons_cons]
  refine ⟨?_, ?_, fun p hp => ?_⟩
  · rw [← List.cons_append]
    exact (List.perm_append_singleton c (y :: ys)).nodup_iff.2 h.nodup
  · rw [← List.cons_append]
    refine (List.isChain_cons_cons.1 h.chain).2.append (List.isChain_singleton c) fun p hp q hq => ?_
    obtain rfl := Option.some.inj hq
    rw [hlast] at hp
    obtain rfl := Option.some.inj hp
    exact h.close _ h.getLast?
  · rw [← List.cons_append, List.getLast?_concat] at hp
    obtain rfl := Option.some.inj hp
    exact hlink

/-- The same list, from any of its members on. -/
theorem Closed.reroot {l₁ l₂ : List α} (h : Closed next prev c xs) (hsplit : c :: xs = l₁ ++ a :: l₂) :
    Closed next prev a (l₂ ++ l₁) := by
  induction l₁ generalizing c xs l₂ with
  | nil =>
      obtain ⟨rfl, rfl⟩ := List.cons.inj hsplit
      rw [List.append_nil]
      exact h
  | cons b l₁ ih =>
      obtain ⟨rfl, htail⟩ := List.cons.inj hsplit
      cases xs with
      | nil => exact absurd htail.symm (List.append_ne_nil_of_right_ne_nil l₁ (List.cons_ne_nil a l₂))
      | cons y ys =>
          have hrot : y :: (ys ++ [c]) = l₁ ++ a :: (l₂ ++ [c]) := by
            rw [← List.cons_append, show y :: ys = l₁ ++ a :: l₂ from htail, List.append_assoc, List.cons_append]
          rw [List.append_cons]
          exact ih h.rotate hrot

/-- Every member's neighbours point back at it. -/
theorem Closed.inverse (h : Closed next prev c xs) (ha : a ∈ c :: xs) : prev (next a) = a ∧ next (prev a) = a := by
  obtain ⟨l₁, l₂, hsplit⟩ := List.append_of_mem ha
  have hroot := h.reroot hsplit
  refine ⟨?_, hroot.next_prev⟩
  cases hl : l₂ ++ l₁ with
  | nil =>
      rw [hl] at hroot
      rw [hroot.next_nil]
      exact (hroot.close a rfl).2
  | cons y ys =>
      rw [hl] at hroot
      rw [hroot.next_cons, hroot.prev_cons]

theorem iterate_of_chain (h : List.IsChain (Linked next prev) (c :: xs)) :
    List.iterate next c (xs.length + 1) = c :: xs := by
  induction xs generalizing c with
  | nil => rfl
  | cons y ys ih =>
      obtain ⟨hlink, hrest⟩ := List.isChain_cons_cons.1 h
      rw [List.length_cons, List.iterate, hlink.1, ih hrest]

/-- A walk over the list, as many nodes as it has. -/
theorem Closed.iterate (h : Closed next prev c xs) : List.iterate next c (xs.length + 1) = c :: xs :=
  iterate_of_chain h.chain

/-- A chain inside the list does not see links that changed only where the list closes. -/
theorem chain_of_agree (hchain : List.IsChain (Linked next prev) (c :: xs))
    (hn : ∀ a ∈ c :: xs, next a ∈ xs → next' a = next a) (hp : ∀ b ∈ xs, prev' b = prev b) :
    List.IsChain (Linked next' prev') (c :: xs) := by
  refine hchain.imp_of_mem_tail_imp fun a b ha hb hab => ?_
  have hb' : b ∈ xs := hb
  exact ⟨(hn a ha (hab.1 ▸ hb')).trans hab.1, (hp b hb').trans hab.2⟩

/-- A node is linked in before the head. -/
theorem Closed.insert (h : Closed next prev c xs) (ht : t ∉ c :: xs) (hlast : next' (prev c) = t) (hnext : next' t = c)
    (hprev : prev' t = prev c) (hhead : prev' c = t) (hn : ∀ a ∈ c :: xs, a ≠ prev c → next' a = next a)
    (hp : ∀ b ∈ xs, prev' b = prev b) : Closed next' prev' c (xs ++ [t]) := by
  have hchain : List.IsChain (Linked next' prev') (c :: xs) := by
    refine chain_of_agree h.chain (fun a ha hx => hn a ha ?_) hp
    rintro rfl
    exact h.not_mem (h.next_prev ▸ hx)
  refine ⟨?_, ?_, fun p hq => ?_⟩
  · rw [← List.cons_append]
    exact (List.perm_append_singleton t (c :: xs)).nodup_iff.2 (List.nodup_cons.2 ⟨ht, h.nodup⟩)
  · rw [← List.cons_append]
    refine hchain.append (List.isChain_singleton t) fun p hq q hq' => ?_
    obtain rfl := Option.some.inj hq'
    rw [h.getLast?] at hq
    obtain rfl := Option.some.inj hq
    exact ⟨hlast, hprev⟩
  · rw [← List.cons_append, List.getLast?_concat] at hq
    obtain rfl := Option.some.inj hq
    exact ⟨hnext, hhead⟩

/-- The head is taken out. -/
theorem Closed.remove (h : Closed next prev c (y :: ys)) (hlast : next' (prev c) = y) (hhead : prev' y = prev c)
    (hn : ∀ a ∈ y :: ys, a ≠ prev c → next' a = next a) (hp : ∀ b ∈ ys, prev' b = prev b) :
    Closed next' prev' y ys := by
  have hnodup := (List.nodup_cons.1 h.nodup).2
  have hgl : (y :: ys).getLast? = some (prev c) := by
    rw [← h.getLast?, List.getLast?_cons_cons]
  refine ⟨hnodup, ?_, fun p hq => ?_⟩
  · refine chain_of_agree (List.isChain_cons_cons.1 h.chain).2 (fun a ha hx => hn a ha ?_) hp
    rintro rfl
    rw [h.next_prev] at hx
    exact h.not_mem (List.mem_cons_of_mem y hx)
  · rw [hgl] at hq
    obtain rfl := Option.some.inj hq
    exact ⟨hlast, hhead⟩

end Circular
