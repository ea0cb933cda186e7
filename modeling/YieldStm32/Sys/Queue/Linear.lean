import YieldStm32.Lib.Run
import YieldStm32.Sys.Queue.Fifo

/-!
# Access to a queue without copies (`sys/src/queue.c`)

A caller may fill the free memory behind the head itself, or read the elements where they lie. Each window ends at the end of
the ring at the latest, so that a transfer takes some rounds.

* `getFreeLinearMem`, `getUsedLinearMem`, `increaseCount` : the functions of the source;
* `fillStep`, `readStep` : one round, of any size the window allows;
* `fill_eq_put`, `readOut_eq` : a round is a `put` or a `peek`;
* `put_put`, `peek_peek` : what one call moves may be moved by two.
-/

namespace YieldStm32

namespace Queue

open Counter Transition

variable {α : Type*} {q : Queue α}

/-- `Queue_IncreaseCount` -/
def increaseCount (q : Queue α) (count : Nat) : Nat × Queue α :=
  let maxToAdd := min count q.getFree
  (maxToAdd, { q with
    head := adv q.head maxToAdd
    used_le := q.adv_getFree_le count })

/-- `Queue_GetFreeLinearMem`: the offset into the buffer, and the number of elements. -/
def getFreeLinearMem (q : Queue α) : Nat × Nat :=
  let toWrite := q.getFree
  let headIdx := q.head.toNat % q.count
  let toWrap := min (q.count - headIdx) toWrite
  (headIdx * q.size, toWrap)

/-- `Queue_GetUsedLinearMem`: the offset into the buffer, and the number of elements. -/
def getUsedLinearMem (q : Queue α) : Nat × Nat :=
  let toRead := q.getUsed
  let tailIdx := q.tail.toNat % q.count
  let toWrap := min (q.count - tailIdx) toRead
  (tailIdx * q.size, toWrap)

/-- The caller writes to the memory it got. -/
def fill (q : Queue α) (xs : List α) : Queue α := { q with ptr := Ring.copyIn q.ptr q.getFreeLinearMem.1 xs }

/-- The caller reads `k` elements of the memory it got. -/
def readOut (q : Queue α) (k : Nat) : List α := Ring.copyOut q.ptr q.getUsedLinearMem.1 (k * q.size)

/-- A transfer into the queue: the queue, the data that is left, and its number of elements. -/
abbrev Filling (α : Type*) : Type _ := Queue α × List α × Nat

/-- One round moves `k` elements, not more than there are and not more than the window takes. -/
def fillStep (t : Filling α) (k : Nat) : Option (Filling α) :=
  if k ≤ t.2.2 ∧ k ≤ t.1.getFreeLinearMem.2 then
    some (((t.1.fill (t.2.1.take (k * t.1.size))).increaseCount k).2, t.2.1.drop (k * t.1.size), t.2.2 - k)
  else
    none

/-- The data or the room is used up. -/
def Filled (t : Filling α) : Prop := t.2.2 = 0 ∨ t.1.getFree = 0

/-- A transfer out of the queue: the queue, what was read, and the number of elements still wanted. -/
abbrev Reading (α : Type*) : Type _ := Queue α × List α × Nat

def readStep (t : Reading α) (k : Nat) : Option (Reading α) :=
  if k ≤ t.2.2 ∧ k ≤ t.1.getUsedLinearMem.2 then
    some ((t.1.drop k).2, t.2.1 ++ t.1.readOut k, t.2.2 - k)
  else
    none

/-- All that was wanted is read, or the queue is empty. -/
def Emptied (t : Reading α) : Prop := t.2.2 = 0 ∨ t.1.getUsed = 0

/-! ## One round -/

theorem index_lt (q : Queue α) (i : Nat) : i % q.count < q.count := Nat.mod_lt _ q.count_pos

theorem window_le_free (q : Queue α) : q.getFreeLinearMem.2 ≤ q.getFree := Nat.min_le_right ..

theorem window_le_used (q : Queue α) : q.getUsedLinearMem.2 ≤ q.getUsed := Nat.min_le_right ..

/-- A window is empty only if there is no room at all. -/
theorem window_pos_of_free (h : 0 < q.getFree) : 0 < q.getFreeLinearMem.2 := by
  have hidx := q.index_lt q.head.toNat
  exact Nat.lt_min.2 ⟨by omega, h⟩

theorem window_pos_of_used (h : 0 < q.getUsed) : 0 < q.getUsedLinearMem.2 := by
  have hidx := q.index_lt q.tail.toNat
  exact Nat.lt_min.2 ⟨by omega, h⟩

theorem ext {p q : Queue α} (hsize : p.size = q.size) (hcount : p.count = q.count) (hptr : p.ptr = q.ptr)
    (hhead : p.head = q.head) (htail : p.tail = q.tail) : p = q := by
  cases p
  cases q
  subst hsize hcount hptr hhead htail
  rfl

/-- A round that stays inside the window is a `put`. -/
theorem fill_eq_put (xs : List α) {k : Nat} (hk : k ≤ q.getFreeLinearMem.2) :
    ((q.fill (xs.take (k * q.size))).increaseCount k).2 = (q.put xs k).2 := by
  have hfree : min k q.getFree = k := Nat.min_eq_left (Nat.le_trans hk q.window_le_free)
  have hwrap : min (q.count - q.head.toNat % q.count) k = k := Nat.min_eq_right (Nat.le_trans hk (Nat.min_le_left ..))
  refine ext rfl rfl ?_ rfl rfl
  show Ring.copyIn q.ptr (q.head.toNat % q.count * q.size) (xs.take (k * q.size)) = (q.put xs k).2.ptr
  simp only [put, hfree, hwrap, Nat.sub_self, Nat.zero_mul, List.take_zero, Ring.copyIn_nil]

/-- What is read inside the window is what `peek` copies out. -/
theorem readOut_eq {k : Nat} (hk : k ≤ q.getUsedLinearMem.2) : q.readOut k = q.peek k := by
  have hused : min k q.getUsed = k := Nat.min_eq_left (Nat.le_trans hk q.window_le_used)
  have hwrap : min (q.count - q.tail.toNat % q.count) k = k := Nat.min_eq_right (Nat.le_trans hk (Nat.min_le_left ..))
  simp only [peek, hused, hwrap, Nat.sub_self, Nat.zero_mul]
  exact (List.append_nil _).symm

theorem getFree_put (q : Queue α) (xs : List α) (n : Nat) : (q.put xs n).2.getFree = q.getFree - min n q.getFree := by
  show q.count - (q.put xs n).2.getUsed = _
  rw [getUsed_put, getFree, Nat.sub_add_eq]

/-- One `put` may be made in two. -/
theorem put_put (hd : q.count ∣ 2 ^ 32) {xs : List α} {n k : Nat} (hx : n * q.size ≤ xs.length)
    (hk : k ≤ n) (hfree : k ≤ q.getFree) :
    ((q.put xs k).2.put (xs.drop (k * q.size)) (n - k)).2 = (q.put xs n).2 := by
  have hmin : min k q.getFree = k := Nat.min_eq_left hfree
  have hsum : k + min (n - k) (q.getFree - k) = min n q.getFree := by omega
  have hrest : min (n - k) (q.put xs k).2.getFree = min (n - k) (q.getFree - k) := by rw [getFree_put, hmin]
  have hhead : (q.put xs k).2.head = adv q.head k := by
    show adv q.head (min k q.getFree) = _
    rw [hmin]
  refine ext rfl rfl ?_ ?_ rfl
  · have hkx : k * q.size ≤ xs.length := Nat.le_trans (Nat.mul_le_mul_right _ hk) hx
    have hdrop : (n - k) * q.size ≤ (xs.drop (k * q.size)).length := by
      rw [List.length_drop, Nat.sub_mul]
      exact Nat.sub_le_sub_right hx _
    have hlen : (xs.take (k * q.size)).length = k * q.size := List.length_take_of_le hkx
    have hsplit : xs.take (min n q.getFree * q.size) =
        xs.take (k * q.size) ++ (xs.drop (k * q.size)).take (min (n - k) (q.getFree - k) * q.size) := by
      rw [← hsum, Nat.add_mul, List.take_add]
    have hroom : (xs.take (k * q.size)).length +
        ((xs.drop (k * q.size)).take (min (n - k) (q.getFree - k) * q.size)).length ≤ q.count * q.size := by
      rw [← List.length_append, ← hsplit, length_take_put q hx]
      exact Nat.mul_le_mul_right _ (Nat.le_trans (Nat.min_le_right ..) (Nat.sub_le ..))
    have happ := Ring.write_append q.ptr (q.head.toNat * q.size) _ _ (Nat.mul_pos q.count_pos q.size_pos) hroom
    rw [hlen, ← hsplit, ← ptr_put q hx, ← Ring.write_congr _ (byte_adv q (Or.inl hd)), ← hhead] at happ
    have hfirst := ptr_put q hkx
    rw [hmin] at hfirst
    have hsecond := @ptr_put _ (q.put xs k).2 _ _ hdrop
    rw [hrest, hfirst] at hsecond
    exact hsecond.trans happ
  · show adv (q.put xs k).2.head (min (n - k) (q.put xs k).2.getFree) = adv q.head (min n q.getFree)
    rw [hrest, hhead, adv_adv, hsum]

/-- More elements than there are, are not asked for. -/
theorem drop_min (q : Queue α) (n : Nat) : q.drop (min n q.getUsed) = q.drop n := by
  simp only [drop, Nat.min_assoc, Nat.min_self]

theorem peek_min (q : Queue α) (n : Nat) : q.peek (min n q.getUsed) = q.peek n := by
  simp only [peek, Nat.min_assoc, Nat.min_self]

theorem drop_drop {n k : Nat} (hk : k ≤ n) (hused : k ≤ q.getUsed) : ((q.drop k).2.drop (n - k)).2 = (q.drop n).2 := by
  have hmin : min k q.getUsed = k := Nat.min_eq_left hused
  have hsum : k + min (n - k) (q.getUsed - k) = min n q.getUsed := by omega
  refine ext rfl rfl rfl rfl ?_
  show adv (adv q.tail (min k q.getUsed)) (min (n - k) (q.drop k).2.getUsed) = adv q.tail (min n q.getUsed)
  rw [getUsed_drop, hmin, adv_adv, hsum]

/-- What one `peek` copies out may be copied out in two parts, with a `drop` between them. -/
theorem peek_peek (hd : q.count ∣ 2 ^ 32) {n k : Nat} (hk : k ≤ n) :
    q.peek k ++ (q.drop k).2.peek (n - k) = q.peek n := by
  have hsize : (q.drop k).2.size = q.size := rfl
  have hsum : k * q.size + (n - k) * q.size = n * q.size := by rw [← Nat.add_mul, Nat.add_sub_cancel' hk]
  rw [peek_eq, peek_eq, peek_eq, contents_drop (Or.inl hd), hsize, ← List.take_add, hsum]

/-! ## Every choice of rounds -/

section Runs

variable {xs : List α} {n : Nat} {ks : List Nat}

theorem fillStep_cases {t t' : Filling α} {k : Nat} (h : fillStep t k = some t') :
    k ≤ t.2.2 ∧ k ≤ t.1.getFree ∧ t' = ((t.1.put t.2.1 k).2, t.2.1.drop (k * t.1.size), t.2.2 - k) := by
  unfold fillStep at h
  split at h
  · rename_i hk
    rw [fill_eq_put t.2.1 hk.2] at h
    exact ⟨hk.1, Nat.le_trans hk.2 t.1.window_le_free, (Option.some.inj h).symm⟩
  · cases h

theorem readStep_cases {t t' : Reading α} {k : Nat} (h : readStep t k = some t') :
    k ≤ t.2.2 ∧ k ≤ t.1.getUsed ∧ t' = ((t.1.drop k).2, t.2.1 ++ t.1.peek k, t.2.2 - k) := by
  unfold readStep at h
  split at h
  · rename_i hk
    rw [readOut_eq hk.2] at h
    exact ⟨hk.1, Nat.le_trans hk.2 t.1.window_le_used, (Option.some.inj h).symm⟩
  · cases h

/-- One `put` of what is left would leave the same queue as one `put` of everything. -/
structure Fills (q : Queue α) (xs : List α) (n : Nat) (t : Filling α) : Prop where
  count : t.1.count = q.count
  enough : t.2.2 * t.1.size ≤ t.2.1.length
  rest : (t.1.put t.2.1 t.2.2).2 = (q.put xs n).2

theorem Fills.step (hd : q.count ∣ 2 ^ 32) {t t' : Filling α} {k : Nat} (ht : Fills q xs n t)
    (h : fillStep t k = some t') : Fills q xs n t' := by
  obtain ⟨hk, hfree, rfl⟩ := fillStep_cases h
  refine ⟨ht.count, ?_, ?_⟩
  · rw [List.length_drop, Nat.sub_mul]
    exact Nat.sub_le_sub_right ht.enough _
  · exact (put_put (ht.count ▸ hd) ht.enough hk hfree).trans ht.rest

/-- The same for a `get`. -/
structure Reads (q : Queue α) (n : Nat) (t : Reading α) : Prop where
  count : t.1.count = q.count
  dropped : (t.1.drop t.2.2).2 = (q.drop n).2
  read : t.2.1 ++ t.1.peek t.2.2 = q.peek n

theorem Reads.step (hd : q.count ∣ 2 ^ 32) {t t' : Reading α} {k : Nat} (ht : Reads q n t)
    (h : readStep t k = some t') : Reads q n t' := by
  obtain ⟨hk, hused, rfl⟩ := readStep_cases h
  refine ⟨ht.count, (drop_drop hk hused).trans ht.dropped, ?_⟩
  rw [List.append_assoc, peek_peek (ht.count ▸ hd) hk, ht.read]

/-- A transfer that is over has put what one `put` puts. -/
theorem fill_run (hd : q.count ∣ 2 ^ 32) (hx : n * q.size ≤ xs.length) {t : Filling α}
    (hr : run fillStep (q, xs, n) ks = some t) (hend : Filled t) : t.1 = (q.put xs n).2 := by
  have hfills : Fills q xs n t := run_keeps (fun _ _ _ ht h => ht.step hd h) ⟨rfl, hx, rfl⟩ hr
  have hzero : min t.2.2 t.1.getFree = 0 := by
    unfold Filled at hend
    omega
  rw [← hfills.rest, put_zero hzero]

theorem read_run (hd : q.count ∣ 2 ^ 32) {t : Reading α} (hr : run readStep (q, [], n) ks = some t) (hend : Emptied t) :
    t.2.1 = (q.get n).1 ∧ t.1 = (q.get n).2 := by
  have hreads : Reads q n t := run_keeps (fun _ _ _ ht h => ht.step hd h) ⟨rfl, rfl, List.nil_append _⟩ hr
  have hzero : min t.2.2 t.1.getUsed = 0 := by
    unfold Emptied at hend
    omega
  have hpeek : t.1.peek t.2.2 = [] := by rw [← peek_min, hzero, peek_eq, Nat.zero_mul, List.take_zero]
  have hdrop : (t.1.drop t.2.2).2 = t.1 := by rw [← drop_min, hzero, drop_zero]
  refine ⟨?_, ?_⟩
  · rw [← List.append_nil t.2.1, ← hpeek, hreads.read]
    rfl
  · rw [← hdrop, hreads.dropped, ← drop_min]
    rfl

/-- As long as a transfer is not over the next round can move something. -/
theorem fillStep_goes {t : Filling α} (h : ¬ Filled t) : ∃ k > 0, ∃ t', fillStep t k = some t' := by
  obtain ⟨hleft, hfree⟩ := not_or.1 h
  have hwindow := window_pos_of_free (Nat.pos_of_ne_zero hfree)
  exact ⟨1, Nat.one_pos, _, if_pos ⟨Nat.pos_of_ne_zero hleft, hwindow⟩⟩

theorem readStep_goes {t : Reading α} (h : ¬ Emptied t) : ∃ k > 0, ∃ t', readStep t k = some t' := by
  obtain ⟨hleft, hused⟩ := not_or.1 h
  have hwindow := window_pos_of_used (Nat.pos_of_ne_zero hused)
  exact ⟨1, Nat.one_pos, _, if_pos ⟨Nat.pos_of_ne_zero hleft, hwindow⟩⟩

/-- What the rounds moved is taken off what was left, and off the room. -/
theorem fill_spends {t t' : Filling α} (hr : run fillStep t ks = some t') :
    t.2.2 = t'.2.2 + ks.sum ∧ t.1.getFree = t'.1.getFree + ks.sum := by
  rw [← List.map_id ks]
  refine ⟨@run_spends _ _ _ (fun t : Filling α => t.2.2) id (fun t k t' h => ?_) _ _ _ hr,
    @run_spends _ _ _ (fun t : Filling α => t.1.getFree) id (fun t k t' h => ?_) _ _ _ hr⟩
  · obtain ⟨hk, -, rfl⟩ := fillStep_cases h
    exact (Nat.sub_add_cancel hk).symm
  · obtain ⟨-, hfree, rfl⟩ := fillStep_cases h
    show t.1.getFree = (t.1.put t.2.1 k).2.getFree + k
    rw [getFree_put, Nat.min_eq_left hfree, Nat.sub_add_cancel hfree]

theorem read_spends {t t' : Reading α} (hr : run readStep t ks = some t') :
    t.2.2 = t'.2.2 + ks.sum ∧ t.1.getUsed = t'.1.getUsed + ks.sum := by
  rw [← List.map_id ks]
  refine ⟨@run_spends _ _ _ (fun t : Reading α => t.2.2) id (fun t k t' h => ?_) _ _ _ hr,
    @run_spends _ _ _ (fun t : Reading α => t.1.getUsed) id (fun t k t' h => ?_) _ _ _ hr⟩
  · obtain ⟨hk, -, rfl⟩ := readStep_cases h
    exact (Nat.sub_add_cancel hk).symm
  · obtain ⟨-, hused, rfl⟩ := readStep_cases h
    show t.1.getUsed = (t.1.drop k).2.getUsed + k
    rw [getUsed_drop, Nat.min_eq_left hused, Nat.sub_add_cancel hused]

/-- Rounds that move something are not more than there are elements. -/
theorem length_le_sum (hpos : ∀ k ∈ ks, 0 < k) : ks.length ≤ ks.sum := by
  induction ks with
  | nil => exact Nat.le_refl 0
  | cons k ks ih =>
      have hk := hpos k List.mem_cons_self
      have hrest := ih fun j hj => hpos j (List.mem_cons_of_mem k hj)
      rw [List.length_cons, List.sum_cons]
      omega

/-- **Both interfaces agree**: filled in rounds of any sizes the windows allow, until the data or the room is used up, the
queue is as one `put` leaves it, its contents, its counters and its memory; read in such rounds it gives the elements of one
`get`. Until then there is always a round that moves something, and there are not more of them than elements. -/
theorem linear_agrees (q : Queue α) (hd : q.count ∣ 2 ^ 32) :
    (∀ xs n ks t, n * q.size ≤ xs.length → run fillStep (q, xs, n) ks = some t →
      (Filled t → t.1 = (q.put xs n).2 ∧ ks.sum = (q.put xs n).1) ∧
      (¬ Filled t → ∃ k > 0, ∃ t', fillStep t k = some t') ∧ ((∀ k ∈ ks, 0 < k) → ks.length ≤ n)) ∧
    (∀ n ks t, run readStep (q, [], n) ks = some t →
      (Emptied t → t.2.1 = (q.get n).1 ∧ t.1 = (q.get n).2 ∧ ks.sum = q.toRead n) ∧
      (¬ Emptied t → ∃ k > 0, ∃ t', readStep t k = some t') ∧ ((∀ k ∈ ks, 0 < k) → ks.length ≤ n)) := by
  refine ⟨fun xs n ks t hx hr => ⟨fun hend => ⟨fill_run hd hx hr hend, ?_⟩, fillStep_goes, fun hpos => ?_⟩,
    fun n ks t hr => ⟨fun hend => ?_, readStep_goes, fun hpos => ?_⟩⟩
  · obtain ⟨hleft, hfree⟩ := fill_spends hr
    unfold Filled at hend
    dsimp only at hleft hfree
    show ks.sum = min n q.getFree
    omega
  · obtain ⟨hleft, -⟩ := fill_spends hr
    exact Nat.le_trans (length_le_sum hpos) (Nat.le_trans (Nat.le_add_left ..) (Nat.le_of_eq hleft.symm))
  · obtain ⟨hread, hqueue⟩ := read_run hd hr hend
    refine ⟨hread, hqueue, ?_⟩
    obtain ⟨hleft, hused⟩ := read_spends hr
    unfold Emptied at hend
    dsimp only at hleft hused
    show ks.sum = min n q.getUsed
    omega
  · obtain ⟨hleft, -⟩ := read_spends hr
    exact Nat.le_trans (length_le_sum hpos) (Nat.le_trans (Nat.le_add_left ..) (Nat.le_of_eq hleft.symm))

end Runs

/-- Three elements for a queue of two whose counters wrap: one up to the end of the ring, one behind it. -/
theorem linear_agrees_wrapping :
    (∃ t, run fillStep (wrapping, [1, 2, 3, 4, 5, 6], 3) [1, 1] = some t ∧ t.1.contents = [1, 2, 3, 4]) ∧
      ∃ t, run readStep ((wrapping.put [1, 2, 3, 4] 2).2, [], 5) [1, 1] = some t ∧ t.2.1 = [1, 2, 3, 4] := by
  refine ⟨⟨_, rfl, ?_⟩, _, rfl, ?_⟩
  · obtain ⟨hfill, -⟩ := linear_agrees wrapping (by decide)
    rw [((hfill [1, 2, 3, 4, 5, 6] 3 [1, 1] _ (by decide) rfl).1 (Or.inr rfl)).1]
    decide
  · obtain ⟨-, hread⟩ := linear_agrees (wrapping.put [1, 2, 3, 4] 2).2 (by decide)
    rw [((hread 5 [1, 1] _ rfl).1 (Or.inr rfl)).1]
    decide

end Queue

end YieldStm32
