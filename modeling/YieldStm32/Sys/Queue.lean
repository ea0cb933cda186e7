import YieldStm32.Lib.Counter
import YieldStm32.Lib.Ring

/-!
# Queues (`sys/src/queue.c`)

A queue of `count` elements of `size` bytes each, over a ring of `count * size` bytes. `head` and `tail` are free-running
32-bit counters of elements, so the index `head % count` follows the number of elements put only as long as `head` has not
wrapped or `count` divides `2 ^ 32`: this is `Straight`.

* `put`, `peek`, `drop`, `get` : the operations, with the two `memcpy`s of the source;
* `contents` : the bytes in the queue, oldest first;
* `contents_put`, `contents_drop`, `peek_eq` : what the operations do to them.
-/

namespace YieldStm32

open Counter

/-- `queue_t` -/
structure Queue (α : Type*) where
  size : Nat
  count : Nat
  ptr : Nat → α
  head : BitVec 32
  tail : BitVec 32
  size_pos : 0 < size
  count_pos : 0 < count
  count_le : count ≤ 2 ^ 31
  bytes_lt : size * count < 2 ^ 32
  used_le : (head - tail).toNat ≤ count

namespace Queue

variable {α : Type*}

/-- `Queue_GetUsed` -/
def getUsed (q : Queue α) : Nat := (q.head - q.tail).toNat

/-- `Queue_GetFree` -/
def getFree (q : Queue α) : Nat := q.count - q.getUsed

theorem getUsed_le (q : Queue α) : q.getUsed ≤ q.count := q.used_le

/-- The head may go on by as many elements as are free. -/
theorem adv_getFree_le (q : Queue α) (count : Nat) : (adv q.head (min count q.getFree) - q.tail).toNat ≤ q.count := by
  have h1 := q.used_le
  have h2 := q.count_le
  have h3 : min count q.getFree ≤ q.count - (q.head - q.tail).toNat := Nat.min_le_right _ _
  rw [adv_sub q.head q.tail (by omega)]
  omega

/-- `Queue_Drop` -/
def drop (q : Queue α) (count : Nat) : Nat × Queue α :=
  let maxToDrop := min count q.getUsed
  (maxToDrop, { q with
    tail := adv q.tail maxToDrop
    used_le := by
      rw [sub_adv q.head q.tail (Nat.min_le_right count q.getUsed)]
      exact Nat.le_trans (Nat.sub_le ..) q.used_le })

/-- `Queue_Put`: `count` elements from `ptr`. -/
def put (q : Queue α) (ptr : List α) (count : Nat) : Nat × Queue α :=
  let toWrite := min count q.getFree
  let headIdx := q.head.toNat % q.count
  let toWrap := min (q.count - headIdx) toWrite
  (toWrite, { q with
    ptr := Ring.copyIn (Ring.copyIn q.ptr (headIdx * q.size) (ptr.take (toWrap * q.size))) 0
      ((ptr.drop (toWrap * q.size)).take ((toWrite - toWrap) * q.size))
    head := adv q.head toWrite
    used_le := q.adv_getFree_le count })

/-- `Queue_Peek`: the bytes of up to `count` elements. -/
def peek (q : Queue α) (count : Nat) : List α :=
  let toRead := min count q.getUsed
  let tailIdx := q.tail.toNat % q.count
  let toWrap := min (q.count - tailIdx) toRead
  Ring.copyOut q.ptr (tailIdx * q.size) (toWrap * q.size) ++ Ring.copyOut q.ptr 0 ((toRead - toWrap) * q.size)

/-- `Queue_Get` -/
def get (q : Queue α) (count : Nat) : List α × Queue α := (q.peek count, (q.drop (min count q.getUsed)).2)

/-- `Queue_Create`, where there is memory for it. -/
def create (size count : Nat) (ptr : Nat → α) (hs : 0 < size) (hc : 0 < count) (hle : count ≤ 2 ^ 31)
    (hb : size * count < 2 ^ 32) : Queue α :=
  ⟨size, count, ptr, 0, 0, hs, hc, hle, hb, Nat.zero_le _⟩

/-! ## Contents -/

/-- The position of an index in the ring of bytes. -/
theorem index_mul (q : Queue α) (i : Nat) : i % q.count * q.size = i * q.size % (q.count * q.size) :=
  (Nat.mul_mod_mul_right ..).symm

/-- Indices follow counters: `count` divides `2 ^ 32`, or the head has not wrapped past the tail. -/
def Straight (q : Queue α) : Prop := q.count ∣ 2 ^ 32 ∨ q.tail.toNat + q.getUsed < 2 ^ 32

/-- The bytes in the queue, oldest first. -/
def contents (q : Queue α) : List α :=
  Ring.read q.ptr (q.count * q.size) (q.tail.toNat * q.size) (q.getUsed * q.size)

@[simp] theorem length_contents (q : Queue α) : q.contents.length = q.getUsed * q.size := Ring.length_read ..

theorem contents_eq_nil {q : Queue α} (h : q.getUsed = 0) : q.contents = [] :=
  List.length_eq_zero_iff.1 (by rw [length_contents, h, Nat.zero_mul])

theorem getUsed_drop (q : Queue α) (n : Nat) : (q.drop n).2.getUsed = q.getUsed - min n q.getUsed :=
  sub_adv q.head q.tail (Nat.min_le_right ..)

theorem getUsed_put (q : Queue α) (xs : List α) (n : Nat) :
    (q.put xs n).2.getUsed = q.getUsed + min n q.getFree := by
  have h1 := q.getUsed_le
  have h2 := q.count_le
  apply adv_sub q.head q.tail
  unfold getFree getUsed at *
  omega

/-- The head moves on by the elements put. -/
theorem head_put (q : Queue α) (xs : List α) (n : Nat) : ((q.put xs n).2.head - q.head).toNat = (q.put xs n).1 := by
  apply adv_sub_self q.head
  have h1 := q.count_le
  have h2 : min n q.getFree ≤ q.count := Nat.le_trans (Nat.min_le_right ..) (Nat.sub_le ..)
  omega

/-- The tail moves on by the elements dropped. -/
theorem tail_drop (q : Queue α) (n : Nat) : ((q.drop n).2.tail - q.tail).toNat = min n q.getUsed := by
  apply adv_sub_self q.tail
  have h1 := q.count_le
  have h2 : min n q.getUsed ≤ q.count := Nat.le_trans (Nat.min_le_right ..) q.getUsed_le
  omega

theorem put_zero {q : Queue α} {xs : List α} {n : Nat} (h : min n q.getFree = 0) : (q.put xs n).2 = q := by
  have hcopy : ∀ (m : Nat → α) (dst : Nat), Ring.copyIn m dst [] = m := fun m dst => by
    funext i
    simp [Ring.copyIn]
  simp [put, h, hcopy]

theorem drop_zero (q : Queue α) : (q.drop 0).2 = q := by
  simp [drop]

theorem head_eq (q : Queue α) : q.head = adv q.tail q.getUsed := (adv_toNat_sub q.head q.tail).symm

/-- A counter that does not wrap, or wraps at a multiple of `count`, keeps its index. -/
theorem index_adv {count : Nat} (a : BitVec 32) {n : Nat} (h : count ∣ 2 ^ 32 ∨ a.toNat + n < 2 ^ 32) :
    (adv a n).toNat % count = (a.toNat + n) % count := by
  rw [toNat_adv]
  rcases h with hd | hlt
  · exact Nat.mod_mod_of_dvd _ hd
  · rw [Nat.mod_eq_of_lt hlt]

/-- The same for the position of the element in bytes. -/
theorem byte_adv (q : Queue α) {a : BitVec 32} {n : Nat} (h : q.count ∣ 2 ^ 32 ∨ a.toNat + n < 2 ^ 32) :
    (adv a n).toNat * q.size % (q.count * q.size) = (a.toNat * q.size + n * q.size) % (q.count * q.size) := by
  rw [← index_mul, index_adv a h, index_mul, Nat.add_mul]

/-- Elements up to the end of the ring, in bytes. -/
theorem wrap_mul (q : Queue α) (i n : Nat) :
    min (q.count - i % q.count) n * q.size = min (q.count * q.size - i * q.size % (q.count * q.size)) (n * q.size) := by
  rw [← index_mul, ← Nat.sub_mul, Nat.mul_min_mul_right]

theorem peek_eq (q : Queue α) (n : Nat) : q.peek n = q.contents.take (n * q.size) := by
  have hle : q.getUsed * q.size ≤ q.count * q.size := Nat.mul_le_mul_right _ q.getUsed_le
  have hpeek : q.peek n =
      Ring.read q.ptr (q.count * q.size) (q.tail.toNat * q.size) (min n q.getUsed * q.size) := by
    rw [peek, Ring.read, ← wrap_mul, index_mul, Nat.sub_mul]
  rw [hpeek, ← Ring.take_read _ _ hle (Nat.mul_le_mul_right _ (Nat.min_le_right ..)), contents, List.take_eq_take_iff,
    Ring.length_read, Nat.mul_min_mul_right, Nat.mul_min_mul_right, Nat.min_assoc, Nat.min_self]

/-- The tail moves on as an index does. -/
theorem Straight.tail {q : Queue α} (hq : q.Straight) {n : Nat} (hn : n ≤ q.getUsed) :
    q.count ∣ 2 ^ 32 ∨ q.tail.toNat + n < 2 ^ 32 :=
  hq.imp_right fun h => Nat.lt_of_le_of_lt (Nat.add_le_add_left hn _) h

theorem contents_drop {q : Queue α} (hq : q.Straight) (n : Nat) :
    (q.drop n).2.contents = q.contents.drop (n * q.size) := by
  have hle : q.getUsed * q.size ≤ q.count * q.size := Nat.mul_le_mul_right _ q.getUsed_le
  have hpos := byte_adv q (hq.tail (Nat.min_le_right n q.getUsed))
  have hread : (q.drop n).2.contents = q.contents.drop (min n q.getUsed * q.size) := by
    rw [contents, contents, Ring.drop_read _ _ hle, getUsed_drop, Nat.sub_mul]
    exact Ring.read_congr _ hpos _
  rw [hread]
  rcases Nat.le_total n q.getUsed with h | h
  · rw [Nat.min_eq_left h]
  · rw [Nat.min_eq_right h, List.drop_eq_nil_of_le (by simp), List.drop_eq_nil_of_le]
    rw [length_contents]
    exact Nat.mul_le_mul_right _ h

theorem Straight.drop {q : Queue α} (hq : q.Straight) (n : Nat) : (q.drop n).2.Straight := by
  refine hq.imp_right fun h => ?_
  rw [getUsed_drop]
  have htail : (q.drop n).2.tail.toNat = q.tail.toNat + min n q.getUsed := by
    refine (toNat_adv q.tail _).trans (Nat.mod_eq_of_lt ?_)
    omega
  omega

/-- A put does not take the head past `2 ^ 32`, unless `count` divides it. -/
def Fits (q : Queue α) (n : Nat) : Prop := q.count ∣ 2 ^ 32 ∨ q.tail.toNat + q.getUsed + min n q.getFree < 2 ^ 32

theorem Straight.put {q : Queue α} (xs : List α) {n : Nat} (hn : q.Fits n) : (q.put xs n).2.Straight := by
  refine hn.imp_right fun h => ?_
  rw [getUsed_put, ← Nat.add_assoc]
  exact h

/-- The elements of a put that are written. -/
theorem length_take_put (q : Queue α) {xs : List α} {n : Nat} (hx : n * q.size ≤ xs.length) :
    (xs.take (min n q.getFree * q.size)).length = min n q.getFree * q.size := by
  rw [List.length_take, Nat.min_eq_left]
  exact Nat.le_trans (Nat.mul_le_mul_right _ (Nat.min_le_left ..)) hx

/-- The two copies of a put are one transfer at the head. -/
theorem ptr_put (q : Queue α) {xs : List α} {n : Nat} (hx : n * q.size ≤ xs.length) :
    (q.put xs n).2.ptr =
      Ring.write q.ptr (q.count * q.size) (q.head.toNat * q.size) (xs.take (min n q.getFree * q.size)) := by
  rw [Ring.write, q.length_take_put hx, ← wrap_mul, ← index_mul, List.take_take, List.drop_take, ← Nat.sub_mul,
    Nat.min_eq_left (Nat.mul_le_mul_right _ (Nat.min_le_right ..))]
  rfl

theorem contents_put {q : Queue α} (hq : q.Straight) {xs : List α} {n : Nat} (hx : n * q.size ≤ xs.length) :
    (q.put xs n).2.contents = q.contents ++ xs.take (min n q.getFree * q.size) := by
  have hfree : q.getUsed + min n q.getFree ≤ q.count := by
    have := q.getUsed_le
    unfold getFree
    omega
  have hlen := q.length_take_put hx
  have hroom : q.getUsed * q.size + (xs.take (min n q.getFree * q.size)).length ≤ q.count * q.size := by
    rw [hlen, ← Nat.add_mul]
    exact Nat.mul_le_mul_right _ hfree
  have hhead : q.head.toNat * q.size % (q.count * q.size) =
      (q.tail.toNat * q.size + q.getUsed * q.size) % (q.count * q.size) := by
    rw [q.head_eq]
    exact byte_adv q hq
  have hptr : (q.put xs n).2.ptr = Ring.write q.ptr (q.count * q.size) (q.tail.toNat * q.size + q.getUsed * q.size)
      (xs.take (min n q.getFree * q.size)) := by
    rw [q.ptr_put hx, Ring.write_congr _ hhead]
  have happ := Ring.read_write_append q.ptr (q.tail.toNat * q.size) _ hroom
  rw [← hptr, hlen, ← Nat.add_mul] at happ
  rw [contents, getUsed_put]
  exact happ

end Queue

end YieldStm32
