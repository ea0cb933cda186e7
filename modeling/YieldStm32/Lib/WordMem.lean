import Mathlib.Data.List.Basic

/-!
# Word memory and tilings of an address range

* `WordMem` : a memory of words, a function of the word's byte address; `WordMem.set` and the read-over-write lemmas;
* `WordMem.Agree m m' W` : the two memories hold the same words at every address in `W`;
* `span`, `place` : consecutive tiles laid out from an address, and where each of them lies (`place_append`,
  `mem_place_bounds`, `mem_place_or`, `mem_place_split`).
-/

/-- A memory of words, by byte address. -/
abbrev WordMem := Nat → Nat

namespace WordMem

/-- Store a word. -/
def set (m : WordMem) (a v : Nat) : WordMem := fun x => if x = a then v else m x

@[simp] theorem set_self (m : WordMem) (a v : Nat) : m.set a v a = v := if_pos rfl

theorem set_ne (m : WordMem) {a x : Nat} (v : Nat) (h : x ≠ a) : m.set a v x = m x := if_neg h

/-- A word is put back. -/
theorem set_restore (m : WordMem) (a v : Nat) : (m.set a v).set a (m a) = m := by
  funext x
  by_cases hx : x = a
  · rw [hx, set_self]
  · rw [set_ne _ _ hx, set_ne _ _ hx]

/-- The memories hold the same words in `W`. -/
def Agree (m m' : WordMem) (W : Nat → Prop) : Prop := ∀ x, W x → m' x = m x

theorem Agree.refl (m : WordMem) (W : Nat → Prop) : Agree m m W := fun _ _ => rfl

theorem Agree.mono {m m' : WordMem} {W W' : Nat → Prop} (h : Agree m m' W) (hW : ∀ x, W' x → W x) :
    Agree m m' W' := fun x hx => h x (hW x hx)

theorem Agree.trans {m m' m'' : WordMem} {W : Nat → Prop} (h : Agree m m' W) (h' : Agree m' m'' W) : Agree m m'' W :=
  fun x hx => (h' x hx).trans (h x hx)

/-- A store outside `W` keeps the agreement on `W`. -/
theorem Agree.set {m m' : WordMem} {W : Nat → Prop} (h : Agree m m' W) {a v : Nat} (ha : ¬ W a) :
    Agree m (m'.set a v) W := by
  intro x hx
  have hne : x ≠ a := fun e => ha (e ▸ hx)
  rw [set_ne m' v hne, h x hx]

end WordMem

namespace Tiling

variable {β : Type*} (len : β → Nat)

/-- The length of consecutive tiles. -/
def span : List β → Nat
  | [] => 0
  | b :: bs => len b + span bs

/-- Consecutive tiles with the address each of them starts at. -/
def place : Nat → List β → List (Nat × β)
  | _, [] => []
  | a, b :: bs => (a, b) :: place (a + len b) bs

@[simp] theorem span_nil : span len ([] : List β) = 0 := rfl

@[simp] theorem span_cons (b : β) (bs : List β) : span len (b :: bs) = len b + span len bs := rfl

theorem place_nil (a : Nat) : place len a ([] : List β) = [] := rfl

theorem place_cons (a : Nat) (b : β) (bs : List β) : place len a (b :: bs) = (a, b) :: place len (a + len b) bs := rfl

@[simp] theorem span_append (xs ys : List β) : span len (xs ++ ys) = span len xs + span len ys := by
  induction xs with
  | nil => simp
  | cons x xs ih => simp [ih, Nat.add_assoc]

theorem place_append (a : Nat) (xs ys : List β) :
    place len a (xs ++ ys) = place len a xs ++ place len (a + span len xs) ys := by
  induction xs generalizing a with
  | nil => simp [place_nil]
  | cons x xs ih => simp [place_cons, ih, Nat.add_assoc]

variable {len}

/-- A placed tile lies inside the range. -/
theorem mem_place_bounds {a x : Nat} {b : β} {bs : List β} (h : (x, b) ∈ place len a bs) :
    a ≤ x ∧ x + len b ≤ a + span len bs := by
  induction bs generalizing a with
  | nil => simp [place_nil] at h
  | cons c bs ih =>
      simp only [place_cons, List.mem_cons, Prod.mk.injEq] at h
      rw [span_cons]
      rcases h with ⟨rfl, rfl⟩ | h
      · omega
      · have := ih h
        omega

/-- Two placed tiles are the same one, or one of them ends before the other starts. -/
theorem mem_place_or {a x y : Nat} {b c : β} {bs : List β} (hx : (x, b) ∈ place len a bs)
    (hy : (y, c) ∈ place len a bs) : (x = y ∧ b = c) ∨ x + len b ≤ y ∨ y + len c ≤ x := by
  induction bs generalizing a with
  | nil => simp [place_nil] at hx
  | cons d bs ih =>
      simp only [place_cons, List.mem_cons, Prod.mk.injEq] at hx hy
      rcases hx with ⟨rfl, rfl⟩ | hx <;> rcases hy with ⟨rfl, rfl⟩ | hy
      · exact Or.inl ⟨rfl, rfl⟩
      · exact Or.inr (Or.inl (mem_place_bounds hy).1)
      · exact Or.inr (Or.inr (mem_place_bounds hx).1)
      · exact ih hx hy

/-- A placed tile splits the list at its address. -/
theorem mem_place_split {a x : Nat} {b : β} {bs : List β} (h : (x, b) ∈ place len a bs) :
    ∃ xs ys, bs = xs ++ b :: ys ∧ x = a + span len xs := by
  induction bs generalizing a with
  | nil => simp [place_nil] at h
  | cons c bs ih =>
      simp only [place_cons, List.mem_cons, Prod.mk.injEq] at h
      rcases h with ⟨rfl, rfl⟩ | h
      · exact ⟨[], bs, rfl, by simp⟩
      · obtain ⟨xs, ys, rfl, rfl⟩ := ih h
        exact ⟨c :: xs, ys, rfl, by rw [span_cons, Nat.add_assoc]⟩

end Tiling
