/-!
# Computations that note what they do

`Traced ω α` is a value of type `α` with the notes of type `ω` taken on the way to it. `Safe P x` says that every note
has the property `P`; its rules follow the computation, so that a fact about all notes is computed along with them.
-/

/-- A value, and the notes taken on the way to it. -/
structure Traced (ω α : Type) where
  val : α
  log : List ω

namespace Traced

variable {ω α β : Type}

instance : Monad (Traced ω) where
  pure a := ⟨a, []⟩
  bind x f := ⟨(f x.val).val, x.log ++ (f x.val).log⟩

/-- A value with one note. -/
@[reducible] def note (w : ω) (a : α) : Traced ω α := ⟨a, [w]⟩

/-- A value with several notes. -/
def notes (ws : List ω) (a : α) : Traced ω α := ⟨a, ws⟩

/-- Every note has the property. -/
def Safe (P : ω → Prop) (x : Traced ω α) : Prop := ∀ w ∈ x.log, P w

section Value

@[simp] theorem val_pure (a : α) : (pure a : Traced ω α).val = a := rfl

@[simp] theorem val_bind (x : Traced ω α) (f : α → Traced ω β) : (x >>= f).val = (f x.val).val := rfl

@[simp] theorem val_note (w : ω) (a : α) : (note w a).val = a := rfl

@[simp] theorem val_notes (ws : List ω) (a : α) : (notes ws a).val = a := rfl

@[simp] theorem val_ite (c : Prop) [Decidable c] (x y : Traced ω α) :
    (if c then x else y).val = if c then x.val else y.val := apply_ite Traced.val c x y

end Value

section Safe

variable {P : ω → Prop}

@[simp] theorem safe_pure (a : α) : Safe P (pure a : Traced ω α) := fun _ h => absurd h List.not_mem_nil

@[simp] theorem safe_note (w : ω) (a : α) : Safe P (note w a) ↔ P w := by
  unfold Safe note
  simp

@[simp] theorem safe_notes (ws : List ω) (a : α) : Safe P (notes ws a) ↔ ∀ w ∈ ws, P w := Iff.rfl

@[simp] theorem safe_bind (x : Traced ω α) (f : α → Traced ω β) :
    Safe P (x >>= f) ↔ Safe P x ∧ Safe P (f x.val) := by
  show (∀ w ∈ x.log ++ (f x.val).log, P w) ↔ _
  rw [List.forall_mem_append]
  rfl

@[simp] theorem safe_ite (c : Prop) [Decidable c] (x y : Traced ω α) :
    Safe P (if c then x else y) ↔ if c then Safe P x else Safe P y := by
  split <;> rfl

end Safe

end Traced
