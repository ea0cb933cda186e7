import Mathlib.Data.Fin.VecNotation
import YieldStm32.Lib.Fifo
import YieldStm32.Sys.Queue

/-!
# A queue is a bounded FIFO

Where `count` divides `2 ^ 32` the free-running counters may wrap as often as they like: the queue answers every sequence
of `Queue_Put`, `Queue_Peek`, `Queue_Get`, `Queue_Drop` and `Queue_DropAll` as a list bounded by `count` does.

* `Holds q l` : the elements in the queue are `l`;
* `step` : one call, with what it returns and what it copies out;
* `Keeps q q'` : the parts of a queue no call changes;
* `exec_refines` : the refinement, over every sequence of calls.
-/

namespace YieldStm32

namespace Queue

open Counter

variable {α : Type*} {n : Nat}

/-- `Queue_DropAll` -/
def dropAll (q : Queue α) : Nat × Queue α := q.drop q.getUsed

/-- What `Queue_Peek` and `Queue_Get` return. -/
def toRead (q : Queue α) (count : Nat) : Nat := min count q.getUsed

/-- One call, on elements of `n` bytes: the number returned, the bytes copied out, and the queue after it. -/
def step (q : Queue α) : Fifo.Op (Fin n → α) → (Nat × List α) × Queue α
  | .put xs => (((q.put (Block.flat xs) xs.length).1, []), (q.put (Block.flat xs) xs.length).2)
  | .peek k => ((q.toRead k, q.peek k), q)
  | .get k => ((q.toRead k, (q.get k).1), (q.get k).2)
  | .drop k => (((q.drop k).1, []), (q.drop k).2)
  | .dropAll => ((q.dropAll.1, []), q.dropAll.2)

/-- The elements in the queue, oldest first. -/
def Holds (q : Queue α) (l : List (Fin n → α)) : Prop := q.size = n ∧ q.contents = Block.flat l

/-- What no call changes: the geometry of the queue, and the memory behind its buffer. -/
structure Keeps (q q' : Queue α) : Prop where
  size : q'.size = q.size
  count : q'.count = q.count
  outside : ∀ i, q.count * q.size ≤ i → q'.ptr i = q.ptr i

theorem Keeps.refl (q : Queue α) : Keeps q q := ⟨rfl, rfl, fun _ _ => rfl⟩

theorem Keeps.trans {q q' q'' : Queue α} (h : Keeps q q') (h' : Keeps q' q'') : Keeps q q'' := by
  refine ⟨h'.size.trans h.size, h'.count.trans h.count, fun i hi => ?_⟩
  rw [h'.outside i (by rwa [h.size, h.count]), h.outside i hi]

theorem create_holds (count : Nat) (ptr : Nat → α) (hs : 0 < n) (hc : 0 < count) (hle : count ≤ 2 ^ 31)
    (hb : n * count < 2 ^ 32) : (create n count ptr hs hc hle hb).Holds ([] : List (Fin n → α)) :=
  ⟨rfl, contents_eq_nil (by simp [Queue.getUsed, create])⟩

/-! ## One call -/

theorem Holds.getUsed {q : Queue α} {l : List (Fin n → α)} (h : q.Holds l) : q.getUsed = l.length := by
  have hlen := congrArg List.length h.2
  rw [length_contents, Block.length_flat, h.1] at hlen
  exact Nat.eq_of_mul_eq_mul_right (h.1 ▸ q.size_pos) hlen

theorem Holds.getFree {q : Queue α} {l : List (Fin n → α)} (h : q.Holds l) : q.getFree = q.count - l.length := by
  rw [Queue.getFree, h.getUsed]

theorem Holds.put {q : Queue α} {l : List (Fin n → α)} (h : q.Holds l) (hd : q.count ∣ 2 ^ 32)
    (xs : List (Fin n → α)) :
    (q.put (Block.flat xs) xs.length).2.Holds (l ++ xs.take (min xs.length q.getFree)) := by
  refine ⟨h.1, ?_⟩
  have hroom : xs.length * q.size ≤ (Block.flat xs).length := by rw [Block.length_flat, h.1]
  rw [contents_put (Or.inl hd) hroom, h.2, Block.flat_append, Block.flat_take, h.1]

theorem Holds.drop {q : Queue α} {l : List (Fin n → α)} (h : q.Holds l) (hd : q.count ∣ 2 ^ 32) (k : Nat) :
    (q.drop k).2.Holds (l.drop k) := by
  refine ⟨h.1, ?_⟩
  rw [contents_drop (Or.inl hd), h.2, Block.flat_drop, h.1]

theorem Holds.peek {q : Queue α} {l : List (Fin n → α)} (h : q.Holds l) (k : Nat) :
    q.peek k = Block.flat (l.take k) := by
  rw [peek_eq, h.2, Block.flat_take, h.1]

/-- Both copies of a put stay inside the buffer. -/
theorem put_outside (q : Queue α) (xs : List α) (k i : Nat) (hi : q.count * q.size ≤ i) :
    (q.put xs k).2.ptr i = q.ptr i := by
  have hidx : q.head.toNat % q.count < q.count := Nat.mod_lt _ q.count_pos
  have hfree : min k q.getFree ≤ q.count := Nat.le_trans (Nat.min_le_right ..) (Nat.sub_le ..)
  have hfirst : q.head.toNat % q.count * q.size +
      min (q.count - q.head.toNat % q.count) (min k q.getFree) * q.size ≤ q.count * q.size := by
    rw [← Nat.add_mul]
    apply Nat.mul_le_mul_right
    omega
  have hsecond : (min k q.getFree - min (q.count - q.head.toNat % q.count) (min k q.getFree)) * q.size ≤
      q.count * q.size := by
    apply Nat.mul_le_mul_right
    omega
  show Ring.copyIn (Ring.copyIn q.ptr _ _) 0 _ i = q.ptr i
  have hout : ∀ (m : Nat → α) (dst len : Nat) (ys : List α), dst + len ≤ q.count * q.size →
      Ring.copyIn m dst (ys.take len) i = m i := by
    intro m dst len ys hle
    apply dif_neg
    rw [List.length_take]
    omega
  rw [hout _ 0 _ _ (by omega), hout _ _ _ _ hfirst]

theorem step_keeps (q : Queue α) (op : Fifo.Op (Fin n → α)) : Keeps q (q.step op).2 := by
  cases op with
  | put xs => exact ⟨rfl, rfl, fun i hi => put_outside q _ _ i hi⟩
  | peek k => exact Keeps.refl q
  | get k => exact ⟨rfl, rfl, fun _ _ => rfl⟩
  | drop k => exact ⟨rfl, rfl, fun _ _ => rfl⟩
  | dropAll => exact ⟨rfl, rfl, fun _ _ => rfl⟩

/-- One call answers as the bounded list does. -/
theorem step_refines {q : Queue α} {l : List (Fin n → α)} (h : q.Holds l) (hd : q.count ∣ 2 ^ 32)
    (op : Fifo.Op (Fin n → α)) :
    (q.step op).1 = (Fifo.stepFlat q.count l op).1 ∧ (q.step op).2.Holds (Fifo.stepFlat q.count l op).2 := by
  cases op with
  | put xs =>
      have hput := h.put hd xs
      rw [h.getFree] at hput
      refine ⟨?_, hput⟩
      show (min xs.length q.getFree, []) = (min xs.length (q.count - l.length), _)
      rw [h.getFree]
      rfl
  | peek k =>
      refine ⟨?_, h⟩
      show (min k q.getUsed, q.peek k) = (min k l.length, Block.flat (l.take (min k l.length)))
      rw [h.peek, h.getUsed, ← List.take_eq_take_min]
  | get k =>
      have hdrop := h.drop hd (min k q.getUsed)
      rw [h.getUsed] at hdrop
      refine ⟨?_, ?_⟩
      · show (min k q.getUsed, q.peek k) = (min k l.length, Block.flat (l.take (min k l.length)))
        rw [h.peek, h.getUsed, ← List.take_eq_take_min]
      · show (q.drop (min k q.getUsed)).2.Holds _
        rw [h.getUsed]
        exact hdrop
  | drop k =>
      refine ⟨?_, ?_⟩
      · show (min k q.getUsed, []) = (min k l.length, _)
        rw [h.getUsed]
        rfl
      · show (q.drop k).2.Holds (l.drop (min k l.length))
        rw [← List.drop_eq_drop_min]
        exact h.drop hd k
  | dropAll =>
      have hdrop := h.drop hd q.getUsed
      rw [List.drop_eq_nil_of_le (Nat.le_of_eq h.getUsed.symm)] at hdrop
      refine ⟨?_, hdrop⟩
      show (min q.getUsed q.getUsed, []) = (l.length, _)
      rw [Nat.min_self, h.getUsed]
      rfl

/-! ## Every sequence of calls -/

theorem exec_keeps (q : Queue α) (ops : List (Fifo.Op (Fin n → α))) : Keeps q (Machine.exec step q ops).2 := by
  induction ops generalizing q with
  | nil => exact Keeps.refl q
  | cons op ops ih => exact (step_keeps q op).trans (ih (q.step op).2)

/-- **A queue refines the bounded FIFO**: over every sequence of calls, however often the counters wrap, the answers are
those of a list bounded by `count`, the queue holds that list, and nothing else changes. -/
theorem exec_refines (q : Queue α) (l : List (Fin n → α)) (hd : q.count ∣ 2 ^ 32) (h : q.Holds l)
    (ops : List (Fifo.Op (Fin n → α))) :
    let q' := (Machine.exec step q ops).2
    let l' := (Machine.exec (Fifo.stepFlat q.count) l ops).2
    (Machine.exec step q ops).1 = (Machine.exec (Fifo.stepFlat q.count) l ops).1 ∧ q'.Holds l' ∧
      q'.getUsed = l'.length ∧ l'.length ≤ q.count ∧ q'.getFree = q.count - l'.length ∧ Keeps q q' := by
  have hsim := @Machine.exec_of_simulates _ _ _ _ step (Fifo.stepFlat q.count)
    (fun p m => p.Holds m ∧ p.count = q.count)
    (fun p m op hp => by
      obtain ⟨hanswer, hnext⟩ := step_refines hp.1 (hp.2 ▸ hd) op
      rw [hp.2] at hanswer hnext
      exact ⟨hanswer, hnext, (step_keeps p op).count.trans hp.2⟩) q l ⟨h, rfl⟩ ops
  obtain ⟨hanswers, hend, hcount⟩ := hsim
  refine ⟨hanswers, hend, hend.getUsed, ?_, ?_, exec_keeps q ops⟩
  · rw [← hend.getUsed, ← hcount]
    exact getUsed_le _
  · rw [hend.getFree, hcount]

/-- A queue of two elements of two bytes, its counters about to wrap. -/
def wrapping : Queue Nat where
  size := 2
  count := 2
  ptr := fun _ => 0
  head := 0xffffffff#32
  tail := 0xffffffff#32
  size_pos := by decide
  count_pos := by decide
  count_le := by decide
  bytes_lt := by decide
  used_le := by decide

theorem exec_refines_wrapping :
    (2 ∣ 2 ^ 32 ∧ wrapping.Holds ([] : List (Fin 2 → Nat))) ∧
      (Machine.exec step wrapping [.put [![1, 2], ![3, 4], ![5, 6]], .get 1, .put [![7, 8]], .peek 5]).1 =
        [(2, []), (1, [1, 2]), (1, []), (2, [3, 4, 7, 8])] := by
  have h : wrapping.Holds ([] : List (Fin 2 → Nat)) := ⟨rfl, contents_eq_nil rfl⟩
  refine ⟨⟨by decide, h⟩, ?_⟩
  rw [(exec_refines wrapping [] (by decide) h _).1]
  decide

end Queue

end YieldStm32
