import Mathlib.Data.List.Basic

/-!
# Bounded FIFOs, and blocks of bytes

A machine answers every operation: `step : σ → ε → ο × σ`.

* `Machine.exec` : the answers to a list of operations and the state after it;
* `Machine.exec_of_simulates` : two machines whose steps agree agree on every list of operations;
* `Fifo.step` : the bounded list, the machine a queue of capacity `cap` is meant to be;
* `Block.flat` : a list of blocks of `n` cells laid out in a row.
-/

namespace Machine

variable {σ τ ε ο : Type*}

/-- The answers to a list of operations, and the state after it. -/
def exec (step : σ → ε → ο × σ) : σ → List ε → List ο × σ
  | s, [] => ([], s)
  | s, e :: es => ((step s e).1 :: (exec step (step s e).2 es).1, (exec step (step s e).2 es).2)

/-- **Simulation**: related states give the same answers and stay related, after one step and so after any number. -/
theorem exec_of_simulates {step : σ → ε → ο × σ} {spec : τ → ε → ο × τ} {R : σ → τ → Prop}
    (hstep : ∀ s t e, R s t → (step s e).1 = (spec t e).1 ∧ R (step s e).2 (spec t e).2) {s : σ} {t : τ}
    (h : R s t) (es : List ε) :
    (exec step s es).1 = (exec spec t es).1 ∧ R (exec step s es).2 (exec spec t es).2 := by
  induction es generalizing s t with
  | nil => exact ⟨rfl, h⟩
  | cons e es ih =>
      obtain ⟨hanswer, hnext⟩ := hstep s t e h
      obtain ⟨hanswers, hend⟩ := ih hnext
      refine ⟨?_, hend⟩
      show (step s e).1 :: _ = (spec t e).1 :: _
      rw [hanswer, hanswers]

end Machine

namespace Block

variable {α : Type*} {n : Nat}

/-- The cells of a list of blocks, in a row. -/
def flat (xs : List (Fin n → α)) : List α := xs.flatMap List.ofFn

@[simp] theorem flat_nil : flat ([] : List (Fin n → α)) = [] := rfl

@[simp] theorem flat_cons (x : Fin n → α) (xs : List (Fin n → α)) : flat (x :: xs) = List.ofFn x ++ flat xs := rfl

@[simp] theorem flat_append (xs ys : List (Fin n → α)) : flat (xs ++ ys) = flat xs ++ flat ys := List.flatMap_append

@[simp] theorem length_flat (xs : List (Fin n → α)) : (flat xs).length = xs.length * n := by
  induction xs with
  | nil => simp
  | cons x xs ih =>
      rw [flat_cons, List.length_append, List.length_ofFn, ih, List.length_cons, Nat.succ_mul, Nat.add_comm]

theorem flat_take (xs : List (Fin n → α)) (k : Nat) : flat (xs.take k) = (flat xs).take (k * n) := by
  rcases Nat.le_total xs.length k with h | h
  · rw [List.take_of_length_le h, List.take_of_length_le]
    rw [length_flat]
    exact Nat.mul_le_mul_right n h
  · have hlen : (flat (xs.take k)).length = k * n := by
      rw [length_flat, List.length_take, Nat.min_eq_left h]
    conv_rhs => rw [← List.take_append_drop k xs, flat_append, ← hlen, List.take_left]

theorem flat_drop (xs : List (Fin n → α)) (k : Nat) : flat (xs.drop k) = (flat xs).drop (k * n) := by
  rcases Nat.le_total xs.length k with h | h
  · rw [List.drop_eq_nil_of_le h, List.drop_eq_nil_of_le, flat_nil]
    rw [length_flat]
    exact Nat.mul_le_mul_right n h
  · have hlen : (flat (xs.take k)).length = k * n := by
      rw [length_flat, List.length_take, Nat.min_eq_left h]
    conv_rhs => rw [← List.take_append_drop k xs, flat_append, ← hlen, List.drop_left]

end Block

namespace Fifo

variable {β : Type*}

/-- What is asked of a bounded FIFO. -/
inductive Op (β : Type*) where
  | put (xs : List β)
  | peek (n : Nat)
  | get (n : Nat)
  | drop (n : Nat)
  | dropAll

/-- A bounded list: the number of elements moved, the elements copied out, and the list after it. -/
def step (cap : Nat) (l : List β) : Op β → (Nat × List β) × List β
  | .put xs => ((min xs.length (cap - l.length), []), l ++ xs.take (min xs.length (cap - l.length)))
  | .peek n => ((min n l.length, l.take (min n l.length)), l)
  | .get n => ((min n l.length, l.take (min n l.length)), l.drop (min n l.length))
  | .drop n => ((min n l.length, []), l.drop (min n l.length))
  | .dropAll => ((l.length, []), [])

/-- The same machine with its elements as blocks of cells, copied out in a row. -/
def stepFlat {α : Type*} {n : Nat} (cap : Nat) (l : List (Fin n → α)) (op : Op (Fin n → α)) :
    (Nat × List α) × List (Fin n → α) :=
  (((step cap l op).1.1, Block.flat (step cap l op).1.2), (step cap l op).2)

end Fifo
