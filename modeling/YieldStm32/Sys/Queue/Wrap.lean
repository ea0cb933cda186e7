import Mathlib.Data.List.Chain
import Mathlib.Order.Interval.Finset.Nat
import YieldStm32.Sys.Queue.Linear

/-!
# Slots across the wrap of the counters (`sys/src/queue.c`)

A queue puts an element into the slot `head % count`, and `head` wraps at `2 ^ 32`. A run of calls keeps the slots of all
elements put so far; they follow one another around the ring as long as no put begins where a turn of the counter is not
whole turns of the ring.

* `Call`, `step` : the calls of a client, copying or not, with the slots they fill;
* `putSlots_stored` : the bytes of an element are where its slot says;
* `Call.slots_eq` : the slots one call fills, one behind the other from `head % count` on;
* `InOrder`, `Whole` : what is wanted of the slots, and the condition for it;
* `step_exact` : one call, for which the condition is exact.
-/

namespace YieldStm32.Queue.Wrap

open Counter Transition

variable {n count : Nat}

/-- A call: one that copies, or `Queue_GetFreeLinearMem` and `Queue_IncreaseCount` around elements the client writes. -/
inductive Call (n : Nat)
  | copy (op : Fifo.Op (Fin n → UInt8))
  | fill (xs : List (Fin n → UInt8))

/-- A queue, and the slots of all elements put so far, the first one first. -/
structure Slotted where
  queue : Queue UInt8
  slots : List Nat

/-- The slots of `Queue_Put`: up to the end of the buffer, then from its start. -/
def putSlots (q : Queue UInt8) (count : Nat) : List Nat :=
  let toWrite := min count q.getFree
  let headIdx := q.head.toNat % q.count
  let toWrap := min (q.count - headIdx) toWrite
  (List.range toWrap).map (headIdx + ·) ++ List.range (toWrite - toWrap)

namespace Call

/-- The elements a call puts. -/
def moved (q : Queue UInt8) : Call n → Nat
  | copy (.put xs) => min xs.length q.getFree
  | copy _ => 0
  | fill xs => min xs.length q.getFreeLinearMem.2

/-- Their slots. -/
def slots (q : Queue UInt8) : Call n → List Nat
  | copy (.put xs) => putSlots q xs.length
  | copy _ => []
  | fill xs => (List.range (min xs.length q.getFreeLinearMem.2)).map (q.head.toNat % q.count + ·)

/-- The queue after a call. -/
def next (q : Queue UInt8) : Call n → Queue UInt8
  | copy op => (q.step op).2
  | fill xs =>
      let k := min xs.length q.getFreeLinearMem.2
      ((q.fill (Block.flat (xs.take k))).increaseCount k).2

end Call

def step (s : Slotted) (c : Call n) : Option Slotted := some ⟨c.next s.queue, s.slots ++ c.slots s.queue⟩

/-- The slots of the elements in the queue. -/
def Slotted.stored (s : Slotted) : List Nat := s.slots.drop (s.slots.length - s.queue.getUsed)

/-- Each slot is behind the one before, around the ring. -/
def Follows (count : Nat) (slots : List Nat) : Prop := slots.IsChain fun a b => b = (a + 1) % count

/-- Slots follow one another, and those in use are distinct. -/
def InOrder (s : Slotted) : Prop := Follows s.queue.count s.slots ∧ s.stored.Nodup

/-- A call that puts something begins at whole turns of the ring: those that the turns of the counter so far make up. -/
def Whole (s : Slotted) (c : Call n) : Prop :=
  c.moved s.queue ≠ 0 → s.queue.count ∣ s.slots.length / 2 ^ 32 * 2 ^ 32

/-! ## The slots of one call -/

theorem index_add_of_lt {a i : Nat} (h : a % count + i < count) : (a + i) % count = a % count + i := by
  rw [← Nat.mod_add_mod, Nat.mod_eq_of_lt h]

theorem index_add_of_ge {a i : Nat} (h : count ≤ a % count + i) (hlt : a % count + i < count + count) :
    (a + i) % count = a % count + i - count := by
  rw [← Nat.mod_add_mod, Nat.mod_eq_sub_mod h, Nat.mod_eq_of_lt (by omega)]

theorem putSlots_eq (q : Queue UInt8) (k : Nat) :
    putSlots q k = (List.range (min k q.getFree)).map fun i => (q.head.toNat + i) % q.count := by
  have hidx := q.index_lt q.head.toNat
  have hfree : min k q.getFree ≤ q.count := Nat.le_trans (Nat.min_le_right ..) (Nat.sub_le ..)
  unfold putSlots
  dsimp only
  generalize hw : min (q.count - q.head.toNat % q.count) (min k q.getFree) = w
  have hsplit : min k q.getFree = w + (min k q.getFree - w) := by omega
  conv_rhs => rw [hsplit, List.range_add, List.map_append, List.map_map]
  refine congrArg₂ (· ++ ·) (List.map_congr_left fun i hi => ?_) ?_
  · have hi := List.mem_range.1 hi
    exact (index_add_of_lt (by omega)).symm
  · conv_lhs => rw [← List.map_id (List.range _)]
    refine List.map_congr_left fun i hi => ?_
    have hi := List.mem_range.1 hi
    show i = (q.head.toNat + (w + i)) % q.count
    rw [index_add_of_ge (by omega) (by omega)]
    omega

/-- A put copies the bytes of each element to its slot. -/
theorem putSlots_stored (q : Queue UInt8) {xs : List UInt8} {k i : Nat} (hx : k * q.size ≤ xs.length)
    (hi : i < min k q.getFree) : ∃ slot, (putSlots q k)[i]? = some slot ∧
      Ring.copyOut (q.put xs k).2.ptr (slot * q.size) q.size = (xs.drop (i * q.size)).take q.size := by
  refine ⟨(q.head.toNat + i) % q.count, ?_, ?_⟩
  · rw [putSlots_eq, List.getElem?_map, List.getElem?_range hi]
    rfl
  have hslot := q.index_lt (q.head.toNat + i)
  have hin : (i + 1) * q.size ≤ min k q.getFree * q.size := Nat.mul_le_mul_right _ hi
  have hle : min k q.getFree * q.size ≤ q.count * q.size :=
    Nat.mul_le_mul_right _ (Nat.le_trans (Nat.min_le_right ..) (Nat.sub_le ..))
  have hxs : min k q.getFree * q.size ≤ xs.length :=
    Nat.le_trans (Nat.mul_le_mul_right _ (Nat.min_le_left ..)) hx
  rw [Nat.succ_mul] at hin
  refine List.ext_getElem? fun j => ?_
  rcases Nat.lt_or_ge j q.size with hj | hj
  · -- byte `j` of the slot is `i * size + j` bytes on from the head
    have hcell : (q.head.toNat + i) % q.count * q.size + j =
        (q.head.toNat * q.size + (i * q.size + j)) % (q.count * q.size) := by
      have hlast : ((q.head.toNat + i) % q.count + 1) * q.size ≤ q.count * q.size := Nat.mul_le_mul_right _ hslot
      rw [Nat.succ_mul] at hlast
      rw [← Nat.add_assoc, ← Nat.add_mul, ← Nat.mod_add_mod ((q.head.toNat + i) * q.size) (q.count * q.size) j,
        ← index_mul]
      exact (Nat.mod_eq_of_lt (by omega)).symm
    rw [Ring.copyOut, List.getElem?_map, List.getElem?_range hj, ptr_put q hx, Option.map_some, hcell,
      Ring.write_at _ _ _ (by omega) (by rw [q.length_take_put hx]; omega), dif_pos (by rw [q.length_take_put hx]; omega),
      List.getElem?_take_of_lt hj, List.getElem?_drop, List.getElem?_eq_getElem (by omega)]
    simp only [List.get_eq_getElem, List.getElem_take]
  · rw [List.getElem?_eq_none (by rwa [Ring.length_copyOut]), List.getElem?_eq_none]
    rw [List.length_take]
    omega

namespace Call

theorem moved_le (q : Queue UInt8) (c : Call n) : c.moved q ≤ q.getFree := by
  cases c with
  | copy op =>
      cases op with
      | put xs => exact Nat.min_le_right ..
      | peek k => exact Nat.zero_le _
      | get k => exact Nat.zero_le _
      | drop k => exact Nat.zero_le _
      | dropAll => exact Nat.zero_le _
  | fill xs => exact Nat.le_trans (Nat.min_le_right ..) q.window_le_free

/-- The slots of a call begin at the head, and follow one another. -/
theorem slots_eq (q : Queue UInt8) (c : Call n) :
    c.slots q = (List.range (c.moved q)).map fun i => (q.head.toNat + i) % q.count := by
  cases c with
  | copy op =>
      cases op with
      | put xs => exact putSlots_eq q xs.length
      | peek k => rfl
      | get k => rfl
      | drop k => rfl
      | dropAll => rfl
  | fill xs =>
      refine List.map_congr_left fun i hi => (index_add_of_lt ?_).symm
      have hlt := Nat.lt_of_lt_of_le (List.mem_range.1 hi) (Nat.min_le_right ..)
      have hwindow : q.getFreeLinearMem.2 ≤ q.count - q.head.toNat % q.count := Nat.min_le_left ..
      omega

theorem next_head (q : Queue UInt8) (c : Call n) : (c.next q).head = adv q.head (c.moved q) := by
  cases c with
  | copy op =>
      cases op with
      | put xs => rfl
      | peek k => exact (adv_zero _).symm
      | get k => exact (adv_zero _).symm
      | drop k => exact (adv_zero _).symm
      | dropAll => exact (adv_zero _).symm
  | fill xs =>
      show adv q.head (min (moved q (fill xs)) q.getFree) = _
      rw [Nat.min_eq_left (moved_le q (fill xs))]

theorem next_count (q : Queue UInt8) (c : Call n) : (c.next q).count = q.count := by
  cases c with
  | copy op => exact (step_keeps q op).count
  | fill xs => rfl

end Call

/-! ## Slots around the ring -/

/-- The slots of the first `t` elements, if each is behind the one before. -/
def around (count t : Nat) : List Nat := (List.range t).map (· % count)

@[simp] theorem length_around (count t : Nat) : (around count t).length = t := by
  rw [around, List.length_map, List.length_range]

theorem around_add (count t k : Nat) :
    around count (t + k) = around count t ++ (List.range k).map fun i => (t + i) % count := by
  rw [around, List.range_add, List.map_append, List.map_map]
  rfl

theorem follows_around (count t : Nat) : Follows count (around count t) := by
  refine (List.isChain_map _).2 ?_
  cases t with
  | zero => exact List.isChain_nil
  | succ t =>
      refine (List.isChain_range_succ _ _).2 fun i _ => ?_
      exact (Nat.mod_add_mod i count 1).symm

/-- As many as the ring has slots are distinct. -/
theorem nodup_drop_around {t u : Nat} (hu : u ≤ count) : ((around count t).drop (t - u)).Nodup := by
  have hdrop : (around count t).drop (t - u) = (List.range' (t - u) (t - (t - u))).map (· % count) := by
    rw [around, ← List.map_drop, List.range_eq_range', List.drop_range']
    simp
  rw [hdrop]
  refine List.Nodup.map_on (fun i hi j hj hij => ?_) List.nodup_range'
  rw [List.mem_range'_1] at hi hj
  refine Nat.mod_injOn_Ico (t - u) count ?_ ?_ hij
  · rw [Finset.coe_Ico, Set.mem_Ico]
    omega
  · rw [Finset.coe_Ico, Set.mem_Ico]
    omega

/-! ## One call -/

/-- The slots of all elements put so far follow one another. -/
structure Turning (count : Nat) (s : Slotted) : Prop where
  capacity : s.queue.count = count
  slots : s.slots = around count s.slots.length
  head : s.queue.head = BitVec.ofNat 32 s.slots.length

theorem Turning.inOrder {s : Slotted} (h : Turning count s) : InOrder s := by
  refine ⟨?_, ?_⟩
  · rw [h.capacity, h.slots]
    exact follows_around _ _
  · unfold Slotted.stored
    rw [h.slots, length_around]
    exact nodup_drop_around (h.capacity ▸ s.queue.getUsed_le)

theorem toNat_head {s : Slotted} (h : Turning count s) : s.queue.head.toNat = s.slots.length % 2 ^ 32 := by
  rw [h.head, BitVec.toNat_ofNat]

/-- The turns of the counter are whole turns of the ring if and only if the head stands at the next slot. -/
theorem index_eq_iff {t : Nat} : t % 2 ^ 32 % count = t % count ↔ count ∣ t / 2 ^ 32 * 2 ^ 32 := by
  have hsplit : t / 2 ^ 32 * 2 ^ 32 = t - t % 2 ^ 32 := by omega
  rw [hsplit]
  exact Nat.modEq_iff_dvd' (Nat.mod_le ..)

/-- A call that begins at the next slot goes on around the ring. -/
theorem Turning.step {s : Slotted} (h : Turning count s) {c : Call n} (hc : Whole s c) :
    Turning count ⟨c.next s.queue, s.slots ++ c.slots s.queue⟩ := by
  have hslots : s.slots ++ c.slots s.queue = around count (s.slots.length + c.moved s.queue) := by
    rw [around_add, ← h.slots, c.slots_eq, h.capacity]
    refine congrArg (s.slots ++ ·) (List.map_congr_left fun i hi => ?_)
    have hmoved : c.moved s.queue ≠ 0 := fun h0 => by rw [h0] at hi; cases hi
    have hindex := index_eq_iff.2 (h.capacity ▸ hc hmoved)
    rw [toNat_head h, Nat.add_mod, hindex, ← Nat.add_mod]
  refine ⟨(c.next_count _).trans h.capacity, ?_, ?_⟩
  · rw [hslots, length_around]
  · show (c.next s.queue).head = _
    rw [c.next_head, h.head, hslots, length_around, adv, BitVec.ofNat_add]

/-- A call that begins elsewhere leaves two slots that do not follow one another. -/
theorem Turning.breaks {s : Slotted} (h : Turning count s) {c : Call n} (hc : ¬ Whole s c) :
    ¬ Follows count (s.slots ++ c.slots s.queue) := by
  obtain ⟨hmoved, hdvd⟩ := Classical.not_imp.1 hc
  rw [h.capacity] at hdvd
  intro hchain
  apply hdvd
  -- the counter has wrapped, so that there is a slot before
  obtain ⟨t, ht⟩ : ∃ t, s.slots.length = t + 1 := by
    refine Nat.exists_eq_add_one.2 (Nat.pos_of_ne_zero fun h0 => hdvd ?_)
    rw [h0]
    exact Nat.dvd_zero _
  have hlast : s.slots.getLast? = some (t % count) := by
    rw [h.slots, ht, around_add, List.getLast?_append]
    rfl
  have hfirst : (c.slots s.queue).head? = some (s.queue.head.toNat % count) := by
    obtain ⟨k, hk⟩ := Nat.exists_eq_succ_of_ne_zero hmoved
    rw [c.slots_eq, hk, h.capacity, List.range_succ_eq_map]
    rfl
  obtain ⟨-, -, hnext⟩ := List.isChain_append.1 hchain
  have hstep : s.queue.head.toNat % count = (t % count + 1) % count := hnext _ hlast _ hfirst
  rw [toNat_head h, Nat.mod_add_mod, ← ht] at hstep
  exact index_eq_iff.1 hstep

/-- The condition is exact for one call. -/
theorem step_exact {s s' : Slotted} {c : Call n} (h : Turning count s) (hs : step s c = some s') :
    (InOrder s' ↔ Whole s c) ∧ (Whole s c → Turning count s') := by
  obtain rfl := Option.some.inj hs
  refine ⟨⟨fun hin => ?_, fun hc => (h.step hc).inOrder⟩, h.step⟩
  by_contra hc
  have hcount : (c.next s.queue).count = count := (c.next_count _).trans h.capacity
  have hfollows := hin.1
  rw [hcount] at hfollows
  exact h.breaks hc hfollows

/-! ## Runs -/

/-- A queue as `Queue_Create` returns it, to which nothing has been put. -/
def fresh (count : Nat) (ptr : Nat → UInt8) (hs : 0 < n) (hc : 0 < count) (hle : count ≤ 2 ^ 31)
    (hb : n * count < 2 ^ 32) : Slotted := ⟨create n count ptr hs hc hle hb, []⟩

/-- One element is put and dropped, `k` times. -/
def cycles (x : Fin n → UInt8) : Nat → List (Call n)
  | 0 => []
  | k + 1 => .copy (.put [x]) :: .copy .dropAll :: cycles x k

theorem run_cycles (x : Fin n → UInt8) (k : Nat) {s : Slotted} (hs : s.queue.getUsed = 0) :
    ∃ s', run step s (cycles x k) = some s' ∧ s'.queue.getUsed = 0 ∧ s'.slots.length = s.slots.length + k := by
  induction k generalizing s with
  | zero => exact ⟨s, rfl, hs, rfl⟩
  | succ k ih =>
      have hmoved : (Call.copy (.put [x])).moved s.queue = 1 := by
        show min 1 s.queue.getFree = 1
        rw [getFree, hs, Nat.sub_zero, Nat.min_eq_left s.queue.count_pos]
      have hlen : (s.slots ++ (Call.copy (.put [x])).slots s.queue ++ []).length = s.slots.length + 1 := by
        rw [List.append_nil, List.length_append, Call.slots_eq, List.length_map, List.length_range, hmoved]
      have hempty : ∀ q : Queue UInt8, ((Call.copy .dropAll : Call n).next q).getUsed = 0 := by
        intro q
        show (q.drop q.getUsed).2.getUsed = 0
        rw [getUsed_drop, Nat.min_self, Nat.sub_self]
      obtain ⟨s', hrun, hused, hslots⟩ :=
        @ih ⟨_, s.slots ++ (Call.copy (.put [x])).slots s.queue ++ []⟩ (hempty ((Call.copy (.put [x])).next s.queue))
      refine ⟨s', hrun, hused, ?_⟩
      rw [hslots, hlen, Nat.add_assoc, Nat.add_comm 1 k]

/-- The element after `2 ^ 32` others. -/
theorem meets_cycles (x : Fin n → UInt8) {s : Slotted} (hs : s.queue.getUsed = 0) (hslots : s.slots = [])
    (h : Meets step Whole s (cycles x (2 ^ 32) ++ [.copy (.put [x])])) : s.queue.count ∣ 2 ^ 32 := by
  obtain ⟨s', hrun, hused, hlen⟩ := run_cycles x (2 ^ 32) hs
  rw [hslots, List.length_nil, Nat.zero_add] at hlen
  have hcount : s'.queue.count = s.queue.count := by
    refine run_keeps (I := fun t : Slotted => t.queue.count = s.queue.count) (fun t c t' ht h => ?_) rfl hrun
    obtain rfl := Option.some.inj h
    exact (c.next_count _).trans ht
  have hwhole := ((meets_append hrun).1 h).2.1 (Nat.ne_of_gt ?_)
  · rwa [hlen, hcount] at hwhole
  · show 0 < min 1 s'.queue.getFree
    rw [getFree, hused, Nat.sub_zero]
    exact Nat.lt_min.2 ⟨Nat.one_pos, s'.queue.count_pos⟩

section Fresh

variable (ptr : Nat → UInt8) (hs : 0 < n) (hc : 0 < count) (hle : count ≤ 2 ^ 31) (hb : n * count < 2 ^ 32)

theorem turning_fresh : Turning count (fresh count ptr hs hc hle hb) := ⟨rfl, rfl, rfl⟩

/-- The condition is exact for every run. -/
theorem inOrder_iff_whole (calls : List (Call n)) :
    Along step (fun _ _ s => InOrder s) (fresh count ptr hs hc hle hb) calls ↔
      Meets step Whole (fresh count ptr hs hc hle hb) calls :=
  @along_iff_meets _ _ step (Turning count) Whole (fun _ _ s => InOrder s)
    (fun _ _ _ h => absurd h (Option.some_ne_none _)) (fun _ _ _ ht h => step_exact ht h) _ calls
    (turning_fresh ptr hs hc hle hb)

/-- **When the slots follow one another**: along a run, if and only if each put of an element begins at whole turns of the
ring; along every run, if and only if the capacity divides `2 ^ 32`. -/
theorem slots_follow_iff :
    (∀ calls : List (Call n), Along step (fun _ _ s => InOrder s) (fresh count ptr hs hc hle hb) calls ↔
      Meets step Whole (fresh count ptr hs hc hle hb) calls) ∧
    ((∀ calls : List (Call n), Along step (fun _ _ s => InOrder s) (fresh count ptr hs hc hle hb) calls) ↔
      count ∣ 2 ^ 32) := by
  refine ⟨inOrder_iff_whole ptr hs hc hle hb, fun h => ?_, fun h calls => ?_⟩
  · exact meets_cycles (fun _ => 0) (by simp [fresh, getUsed, create]) rfl ((inOrder_iff_whole ptr hs hc hle hb _).1 (h _))
  · refine @along_of_meets _ _ step (Turning count) (fun _ _ => True) _ (fun s c s' ht _ hs' => ?_) _ calls
      (turning_fresh ptr hs hc hle hb) (Meets.of_forall (fun _ _ => True.intro) _ _)
    have hwhole : Whole s c := fun _ => Nat.dvd_mul_left_of_dvd (ht.capacity ▸ h) _
    exact ⟨(step_exact ht hs').2 hwhole, (step_exact ht hs').1.2 hwhole⟩

end Fresh

/-- A capacity that divides `2 ^ 32`. -/
theorem slots_follow_iff_four :
    Along step (fun _ _ s => InOrder s) (fresh 4 (fun _ => 0) Nat.one_pos (by decide) (by decide) (by decide))
      [.copy (.put [![1], ![2]]), .copy (.get 1), .fill [![3]]] :=
  (slots_follow_iff (fun _ => 0) Nat.one_pos (by decide) (by decide) (by decide)).2.2 (by decide) _

/-- A capacity of three: the element after `2 ^ 32` others goes to slot 0, as the one before it did. -/
theorem not_inOrder_three :
    ¬ Along step (fun _ _ s => InOrder s) (fresh 3 (fun _ => 0) Nat.one_pos (by decide) (by decide) (by decide))
      (cycles ![7] (2 ^ 32) ++ [.copy (.put [![7]])]) := by
  intro h
  have hdvd : 3 ∣ 2 ^ 32 := meets_cycles ![7] (by simp [fresh, getUsed, create]) rfl ((inOrder_iff_whole _ _ _ _ _ _).1 h)
  exact absurd hdvd (by decide)

end YieldStm32.Queue.Wrap
