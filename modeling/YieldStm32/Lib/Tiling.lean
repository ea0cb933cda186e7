import Mathlib.Algebra.GroupWithZero.Nat
import Mathlib.Data.List.Basic
import Mathlib.Data.List.Pairwise

/-!
# Blocks that lie one behind the other

* `Tiled` : blocks without gaps, from an address on, `Tiled.pairwise`, `Tiled.next_addr`;
* `cover left bs` : the blocks that it takes from the front of `bs` to make up `left` bytes, and whether they are enough;
* `Tiled.cover` : those are the blocks that begin within the first `left` bytes.
-/

namespace Tiling

variable {α : Type*} (addr size : α → Nat)

/-- Each block begins where the one before it ends, the first one at `a`. -/
def Tiled : Nat → List α → Prop
  | _, [] => True
  | a, b :: bs => addr b = a ∧ 0 < size b ∧ Tiled (a + size b) bs

/-- Tiling can be checked. -/
instance decidableTiled : ∀ a bs, Decidable (Tiled addr size a bs)
  | _, [] => isTrue trivial
  | a, b :: bs =>
    have := decidableTiled (a + size b) bs
    inferInstanceAs (Decidable (addr b = a ∧ 0 < size b ∧ Tiled addr size (a + size b) bs))

/-- The sum of the sizes. -/
def total (bs : List α) : Nat := (bs.map size).sum

/-- The blocks that make up `left` bytes, and whether there are enough of them. -/
def cover (left : Nat) : List α → List α × Bool
  | [] => ([], false)
  | b :: bs => if left ≤ size b then ([b], true) else (b :: (cover (left - size b) bs).1, (cover (left - size b) bs).2)

variable {addr size} {a : Nat} {bs : List α}

@[simp] theorem total_nil : total size ([] : List α) = 0 := rfl

@[simp] theorem total_cons (b : α) : total size (b :: bs) = size b + total size bs := by simp [total]

theorem total_append (bs cs : List α) : total size (bs ++ cs) = total size bs + total size cs := by simp [total]

theorem Tiled.le_addr (h : Tiled addr size a bs) : ∀ c ∈ bs, a ≤ addr c := by
  induction bs generalizing a with
  | nil => simp
  | cons b bs ih =>
      obtain ⟨hb, -, hbs⟩ := h
      intro c hc
      rcases List.mem_cons.1 hc with rfl | hc
      · exact Nat.le_of_eq hb.symm
      · exact Nat.le_trans (Nat.le_add_right ..) (ih hbs c hc)

theorem Tiled.size_pos (h : Tiled addr size a bs) : ∀ c ∈ bs, 0 < size c := by
  induction bs generalizing a with
  | nil => simp
  | cons b bs ih => exact List.forall_mem_cons.2 ⟨h.2.1, ih h.2.2⟩

/-- No block ends behind the last one. -/
theorem Tiled.end_le (h : Tiled addr size a bs) : ∀ c ∈ bs, addr c + size c ≤ a + total size bs := by
  induction bs generalizing a with
  | nil => simp
  | cons b bs ih =>
      obtain ⟨hb, -, hbs⟩ := h
      intro c hc
      rw [total_cons]
      rcases List.mem_cons.1 hc with rfl | hc
      · omega
      · have := ih hbs c hc
        omega

theorem Tiled.pairwise (h : Tiled addr size a bs) : bs.Pairwise fun b c => addr b + size b ≤ addr c := by
  induction bs generalizing a with
  | nil => exact List.Pairwise.nil
  | cons b bs ih =>
      obtain ⟨rfl, -, hbs⟩ := h
      exact List.Pairwise.cons hbs.le_addr (ih hbs)

/-- There are no gaps. -/
theorem Tiled.exists_mem (h : Tiled addr size a bs) {x : Nat} (hlo : a ≤ x) (hhi : x < a + total size bs) :
    ∃ c ∈ bs, addr c ≤ x ∧ x < addr c + size c := by
  induction bs generalizing a with
  | nil =>
      rw [total_nil] at hhi
      omega
  | cons b bs ih =>
      obtain ⟨hb, -, hbs⟩ := h
      rw [total_cons] at hhi
      by_cases hx : x < a + size b
      · exact ⟨b, by simp, by omega, by omega⟩
      · obtain ⟨c, hc, hhas⟩ := ih hbs (by omega) (by omega)
        exact ⟨c, List.mem_cons_of_mem _ hc, hhas⟩

/-- The rest begins where a block ends. -/
theorem Tiled.drop {pre post : List α} (h : Tiled addr size a (pre ++ post)) :
    Tiled addr size (a + total size pre) post := by
  induction pre generalizing a with
  | nil => simpa using h
  | cons b pre ih =>
      rw [total_cons, ← Nat.add_assoc]
      exact ih h.2.2

/-- Behind a block that does not end with the last one, another one begins. -/
theorem Tiled.next_addr (h : Tiled addr size a bs) {b : α} (hb : b ∈ bs) (hend : addr b + size b < a + total size bs) :
    ∃ c ∈ bs, addr c = addr b + size b := by
  induction bs generalizing a with
  | nil => cases hb
  | cons d bs ih =>
      obtain ⟨hd, -, hbs⟩ := h
      rw [total_cons] at hend
      rcases List.mem_cons.1 hb with rfl | hb
      · cases bs with
        | nil =>
            rw [total_nil] at hend
            omega
        | cons c bs => exact ⟨c, by simp, by rw [hbs.1, hd]⟩
      · obtain ⟨c, hc, he⟩ := ih hbs hb (by omega)
        exact ⟨c, List.mem_cons_of_mem _ hc, he⟩

/-- Before a block that is not the first, another one ends. -/
theorem Tiled.prev_end (h : Tiled addr size a bs) {c : α} (hc : c ∈ bs) (hne : a < addr c) :
    ∃ b ∈ bs, addr b + size b = addr c := by
  induction bs generalizing a with
  | nil => cases hc
  | cons d bs ih =>
      obtain ⟨hd, -, hbs⟩ := h
      rcases List.mem_cons.1 hc with rfl | hc
      · omega
      · rcases Nat.eq_or_lt_of_le (hbs.le_addr c hc) with he | hlt
        · exact ⟨d, by simp, by omega⟩
        · obtain ⟨b, hb, he⟩ := ih hbs hc hlt
          exact ⟨b, List.mem_cons_of_mem _ hb, he⟩

/-- The blocks taken are those that begin within the first `left` bytes. -/
theorem Tiled.cover (h : Tiled addr size a bs) {left : Nat} (hleft : 0 < left) :
    cover size left bs = (bs.filter (addr · < a + left), decide (left ≤ total size bs)) := by
  induction bs generalizing a left with
  | nil => simp [Tiling.cover, Nat.pos_iff_ne_zero.1 hleft]
  | cons b bs ih =>
      obtain ⟨hb, -, hbs⟩ := h
      have hmem : decide (addr b < a + left) = true := by
        rw [decide_eq_true_eq]
        omega
      rw [Tiling.cover, List.filter_cons, if_pos hmem, total_cons]
      by_cases hfits : left ≤ size b
      · have hrest : bs.filter (addr · < a + left) = [] := by
          rw [List.filter_eq_nil_iff]
          intro c hc
          have := hbs.le_addr c hc
          rw [decide_eq_true_eq]
          omega
        rw [if_pos hfits, hrest, decide_eq_true (by omega)]
      · have hsum : a + size b + (left - size b) = a + left := by omega
        have hle : (left - size b ≤ total size bs) = (left ≤ size b + total size bs) := by
          apply propext
          omega
        simp only [if_neg hfits, ih hbs (Nat.sub_pos_of_lt (Nat.not_le.1 hfits)), hsum, hle]

end Tiling
