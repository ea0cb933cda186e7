import YieldStm32.Lib.Circular
import YieldStm32.Lib.Run
import YieldStm32.Sys.Yield.Model

/-!
# The ring of tasks

The functions of the scheduler on descriptors that form one circular list, from the current task on.

* `Ringed s c xs` : `c :: xs` are the tasks, in the order they get their turns;
* `Ringed.initializeTask`, `Ringed.turn`, `Ringed.leave` : a new task is the last one; a task that yields becomes the
  last one; a finished task is gone;
* `schedule_isSome` : the loop of `Yield_Schedule` ends, whatever the states of the tasks, unless all are done;
* `schedule_cases` : what one call of the scheduler does to the ring.
-/

namespace YieldStm32.Yield

open Circular Transition

/-- The tasks form one circular list, from the current one on. -/
structure Ringed (s : Sched) (c : Ptr) (xs : List Ptr) : Prop where
  curr : s.currTask = c
  closed : Closed s.next s.prev c xs
  null : (0 : Ptr) ∉ c :: xs
  count : s.taskCnt.toNat = xs.length + 1

variable {s s' : Sched} {c t y : Ptr} {xs ys : List Ptr}

theorem Ringed.ring_eq (h : Ringed s c xs) : s.ring = c :: xs := by
  rw [Sched.ring, h.count, h.curr, h.closed.iterate]

/-- There are fewer descriptors than addresses. -/
theorem length_lt {l : List Ptr} (hnodup : l.Nodup) (hnull : (0 : Ptr) ∉ l) : l.length < 2 ^ 32 := by
  have hle := (List.nodup_cons.2 ⟨hnull, hnodup⟩).length_le_card
  rw [← FinEnum.card_eq_fintypeCard, FinEnum.card_bitVec, List.length_cons] at hle
  omega

/-- A ring is a matter of the links, the current task and the count. -/
theorem Ringed.congr (h : Ringed s c xs) (hnext : s'.next = s.next) (hprev : s'.prev = s.prev)
    (hcurr : s'.currTask = s.currTask) (hcnt : s'.taskCnt = s.taskCnt) : Ringed s' c xs := by
  refine ⟨hcurr.trans h.curr, ?_, h.null, by rw [hcnt, h.count]⟩
  rw [hnext, hprev]
  exact h.closed

theorem Ringed.setTask (h : Ringed s c xs) (p : Ptr) (t : Task) : Ringed (s.setTask p t) c xs := h.congr rfl rfl rfl rfl

theorem Ringed.setState (h : Ringed s c xs) (p : Ptr) (st : TaskState) : Ringed (s.setState p st) c xs := h.setTask p _

/-! ## Creating a task -/

theorem linkTask_of_null (h : s.currTask = 0) :
    s.linkTask t =
      { s with next := Function.update s.next t t, prev := Function.update s.prev t t, currTask := t } := by
  rw [Sched.linkTask, if_pos h]
  rfl

theorem linkTask_of_ne (h : s.currTask ≠ 0) (ht : s.currTask ≠ t) :
    s.linkTask t =
      { s with
        next := Function.update (Function.update s.next t s.currTask) (s.prev s.currTask) t
        prev := Function.update (Function.update s.prev t (s.prev s.currTask)) s.currTask t } := by
  rw [Sched.linkTask, if_neg h]
  simp only [Sched.setPrev, Sched.setNext, Function.update_of_ne ht]

theorem ringed_linkTask (hcurr : s.currTask = 0) (hcnt : s.taskCnt = 0) (ht : t ≠ 0) :
    Ringed { s.linkTask t with taskCnt := (s.linkTask t).taskCnt + 1 } t [] := by
  rw [linkTask_of_null hcurr]
  refine ⟨rfl, ?_, ?_, ?_⟩
  · apply Closed.single
    · exact Function.update_self t t s.next
    · exact Function.update_self t t s.prev
  · rw [List.mem_singleton]
    exact ht.symm
  · show (s.taskCnt + 1).toNat = 1
    rw [hcnt]
    rfl

theorem Ringed.linkTask (h : Ringed s c xs) (ht : t ∉ c :: xs) (ht0 : t ≠ 0) :
    Ringed { s.linkTask t with taskCnt := (s.linkTask t).taskCnt + 1 } c (xs ++ [t]) := by
  have hc0 : c ≠ 0 := fun h0 => h.null (h0 ▸ List.mem_cons_self)
  have htc : t ≠ c := fun he => ht (he ▸ List.mem_cons_self)
  have htp : t ≠ s.prev c := fun he => ht (he ▸ h.closed.prev_mem)
  have hnull : (0 : Ptr) ∉ c :: (xs ++ [t]) := by
    rw [← List.cons_append, List.mem_append, List.mem_singleton]
    rintro (h0 | h0)
    · exact h.null h0
    · exact ht0 h0.symm
  have hlen : xs.length + 2 < 2 ^ 32 := by
    have hnodup : (t :: c :: xs).Nodup := List.nodup_cons.2 ⟨ht, h.closed.nodup⟩
    exact length_lt hnodup (List.not_mem_cons_of_ne_of_not_mem ht0.symm h.null)
  obtain ⟨rfl, hclosed, -, hcount⟩ := h
  rw [linkTask_of_ne hc0 htc.symm]
  refine ⟨rfl, ?_, hnull, ?_⟩
  · apply hclosed.insert ht
    · exact Function.update_self ..
    · exact (Function.update_of_ne htp ..).trans (Function.update_self ..)
    · exact (Function.update_of_ne htc ..).trans (Function.update_self ..)
    · exact Function.update_self ..
    · intro a ha hne
      have hat : a ≠ t := fun he => ht (he ▸ ha)
      exact (Function.update_of_ne hne ..).trans (Function.update_of_ne hat ..)
    · intro b hb
      have hbc : b ≠ s.currTask := hclosed.ne_head hb
      have hbt : b ≠ t := fun he => ht (he ▸ List.mem_cons_of_mem _ hb)
      exact (Function.update_of_ne hbc ..).trans (Function.update_of_ne hbt ..)
  · show (s.taskCnt + 1).toNat = (xs ++ [t]).length + 1
    rw [BitVec.toNat_add, hcount, List.length_append]
    exact Nat.mod_eq_of_lt hlen

/-- The first task. -/
theorem ringed_initializeTask (hcurr : s.currTask = 0) (hcnt : s.taskCnt = 0) (ht : t ≠ 0) (co : Bool) :
    Ringed (s.initializeTask t co) t [] :=
  ringed_linkTask (s := s.fillTask t co) hcurr hcnt ht

/-- **Every other task is linked in behind all others.** -/
theorem Ringed.initializeTask (h : Ringed s c xs) (ht : t ∉ c :: xs) (ht0 : t ≠ 0) (co : Bool) :
    Ringed (s.initializeTask t co) c (xs ++ [t]) := by
  have hfill : Ringed (s.fillTask t co) c xs := h.congr rfl rfl rfl rfl
  exact hfill.linkTask ht ht0

/-! ## Turns -/

/-- The current task gives up its turn. -/
def Sched.turn (s : Sched) : Sched :=
  let s' := { s.setState s.currTask .pending with currTask := s.next s.currTask }
  s'.setState s'.currTask .active

/-- The current task is done. -/
def Sched.leave (s : Sched) : Sched :=
  let s' := s.unlinkTask.releaseTask s.currTask
  s'.setState s'.currTask .active

/-- The same ring, from the next task on. -/
theorem Ringed.advance {c' : Ptr} {xs' : List Ptr} (h : Ringed s c xs) (hl : xs ++ [c] = c' :: xs') :
    Ringed { s with currTask := s.next s.currTask } c' xs' := by
  have hlen : (c' :: xs').length = xs.length + 1 := by rw [← hl, List.length_append, List.length_singleton]
  have hnull : (0 : Ptr) ∉ c' :: xs' := by
    rw [← hl, (List.perm_append_singleton c xs).mem_iff]
    exact h.null
  refine ⟨?_, ?_, hnull, h.count.trans hlen.symm⟩
  · show s.next s.currTask = c'
    rw [h.curr]
    cases xs with
    | nil =>
        obtain ⟨rfl, -⟩ := List.cons.inj hl
        exact h.closed.next_nil
    | cons y ys =>
        obtain ⟨rfl, -⟩ := List.cons.inj hl
        exact h.closed.next_cons
  · cases xs with
    | nil =>
        obtain ⟨rfl, rfl⟩ := List.cons.inj hl
        exact h.closed
    | cons y ys =>
        obtain ⟨rfl, rfl⟩ := List.cons.inj hl
        exact h.closed.rotate

/-- A finished task is taken out, and the one behind it is next. -/
theorem Ringed.release (h : Ringed s c (y :: ys)) :
    Ringed (s.unlinkTask.releaseTask c) y ys ∧ s.unlinkTask.prev c ≠ c ∧ s.unlinkTask.next c ≠ c := by
  have hyc : y ≠ c := h.closed.ne_head List.mem_cons_self
  have hpc : s.prev c ≠ c := by
    intro he
    apply hyc
    rw [← h.closed.next_cons, ← he, h.closed.next_prev, he]
  have hunlink : s.unlinkTask = { s with
      currTask := y
      next := Function.update s.next (s.prev c) y
      prev := Function.update s.prev y (s.prev c) } := by
    simp only [Sched.unlinkTask, Sched.setNext, Sched.setPrev, h.curr, h.closed.next_cons,
      Function.update_of_ne hpc.symm]
  refine ⟨⟨?_, ?_, fun h0 => h.null (List.mem_cons_of_mem c h0), ?_⟩, ?_, ?_⟩
  · rw [Sched.releaseTask_currTask, hunlink]
  · rw [Sched.releaseTask_next, Sched.releaseTask_prev, hunlink]
    apply h.closed.remove
    · exact Function.update_self ..
    · exact Function.update_self ..
    · intro a _ hne
      exact Function.update_of_ne hne ..
    · intro b hb
      have hby : b ≠ y := h.closed.rotate.ne_head (List.mem_append_left [c] hb)
      exact Function.update_of_ne hby ..
  · have hcount := h.count
    rw [List.length_cons] at hcount
    rw [Sched.releaseTask_taskCnt, hunlink]
    show (s.taskCnt - 1).toNat = ys.length + 1
    rw [BitVec.toNat_sub_of_le (by rw [BitVec.le_def, hcount]; show 1 ≤ _; omega), hcount]
    rfl
  · rw [hunlink]
    exact fun he => hpc ((Function.update_of_ne hyc.symm ..).symm.trans he)
  · rw [hunlink]
    intro he
    apply hyc
    rw [← h.closed.next_cons]
    exact (Function.update_of_ne hpc.symm ..).symm.trans he

/-! ## The loop of the scheduler -/

theorem scheduleLoop_done {n : Nat} (h : (s.task s.currTask).state = .done)
    (hp : s.unlinkTask.prev s.currTask ≠ s.currTask) (hn : s.unlinkTask.next s.currTask ≠ s.currTask) :
    Sched.scheduleLoop (n + 1) s = Sched.scheduleLoop n (s.unlinkTask.releaseTask s.currTask) := by
  rw [Sched.scheduleLoop_succ, h]
  exact if_pos ⟨hp, hn⟩

theorem scheduleLoop_active {n : Nat} (h : (s.task s.currTask).state = .active) :
    Sched.scheduleLoop (n + 1) s =
      Sched.scheduleLoop n { s.setState s.currTask .pending with currTask := s.next s.currTask } := by
  rw [Sched.scheduleLoop_succ, h]

theorem scheduleLoop_pending {n : Nat} (h : (s.task s.currTask).state = .pending) :
    Sched.scheduleLoop (n + 1) s = some (s.setState s.currTask .active) := by
  rw [Sched.scheduleLoop_succ, h]

/-- The tasks that are not pending. -/
def busy (task : Ptr → Task) (l : List Ptr) : Nat := l.countP fun t => (task t).state ≠ .pending

theorem busy_congr {task task' : Ptr → Task} {l : List Ptr} (h : ∀ t ∈ l, task' t = task t) :
    busy task' l = busy task l :=
  List.countP_congr fun t ht => by rw [h t ht]

theorem busy_cons_pending {task : Ptr → Task} (h : (task c).state = .pending) : busy task (c :: xs) = busy task xs :=
  List.countP_cons_of_neg (by rw [h]; decide)

theorem busy_cons_ne {task : Ptr → Task} (h : (task c).state ≠ .pending) :
    busy task (c :: xs) = busy task xs + 1 :=
  List.countP_cons_of_pos (decide_eq_true h)

/-- **The loop ends, unless all tasks are done.** -/
theorem scheduleLoop_isSome {n : Nat} (h : Ringed s c xs) (hn : busy s.task (c :: xs) < n)
    (hex : ∃ t ∈ c :: xs, (s.task t).state ≠ .done) : ∃ s', Sched.scheduleLoop n s = some s' := by
  induction n generalizing s c xs with
  | zero => exact absurd hn (Nat.not_lt_zero _)
  | succ n ih =>
      obtain rfl := h.curr
      cases hst : (s.task s.currTask).state with
      | pending => exact ⟨_, scheduleLoop_pending hst⟩
      | active =>
          obtain ⟨c', xs', hl⟩ := exists_rotated s.currTask xs
          have hperm : (c' :: xs').Perm (s.currTask :: xs) := hl ▸ List.perm_append_singleton s.currTask xs
          have hsame : ∀ t ∈ xs, (s.setState s.currTask .pending).task t = s.task t := by
            intro t ht
            exact Sched.setState_of_ne (h.closed.ne_head ht) _
          have hself : ((s.setState s.currTask .pending).task s.currTask).state = .pending := by
            rw [Sched.setState_self]
          rw [busy_cons_ne (by rw [hst]; decide)] at hn
          rw [scheduleLoop_active hst]
          apply ih ((h.setState s.currTask .pending).advance hl)
          · show busy (s.setState s.currTask .pending).task (c' :: xs') < n
            rw [busy, hperm.countP_eq, ← busy, busy_cons_pending hself, busy_congr hsame]
            omega
          · exact ⟨s.currTask, hperm.mem_iff.2 List.mem_cons_self, by rw [hself]; decide⟩
      | done =>
          obtain ⟨t, ht, hne⟩ := hex
          have htc : t ≠ s.currTask := fun he => hne (he ▸ hst)
          have htxs := (List.mem_cons.1 ht).resolve_left htc
          obtain ⟨y, ys, rfl⟩ := List.exists_cons_of_ne_nil (List.ne_nil_of_mem htxs)
          obtain ⟨hring, hp, hn'⟩ := h.release
          rw [busy_cons_ne (by rw [hst]; decide)] at hn
          rw [scheduleLoop_done hst hp hn']
          apply ih hring
          · rw [Sched.releaseTask_task, Sched.unlinkTask_task]
            omega
          · exact ⟨t, htxs, by rw [Sched.releaseTask_task, Sched.unlinkTask_task]; exact hne⟩

theorem busy_le_length (task : Ptr → Task) (l : List Ptr) : busy task l ≤ l.length := List.countP_le_length

/-- `Yield_Schedule` returns, whatever the states of the tasks, unless all are done. -/
theorem schedule_isSome (h : Ringed s c xs) (hex : ∃ t ∈ c :: xs, (s.task t).state ≠ .done) :
    ∃ s', s.schedule = some s' := by
  have hle := busy_le_length s.task (c :: xs)
  have hcnt := h.count
  rw [List.length_cons] at hle
  have hring : Ringed s.bumpSwitchCnt c xs := h.congr rfl rfl rfl rfl
  exact scheduleLoop_isSome hring (by show busy s.task (c :: xs) < s.taskCnt.toNat + 1; omega) hex

/-! ## One call of the scheduler -/

/-- A task that yields gets its next turn after all others. -/
theorem Ringed.turn {c' : Ptr} {xs' : List Ptr} (h : Ringed s c xs) (hl : xs ++ [c] = c' :: xs') :
    Ringed s.turn c' xs' :=
  ((h.setState s.currTask .pending).advance hl).setState _ _

theorem Ringed.leave (h : Ringed s c (y :: ys)) : Ringed s.leave y ys := by
  have hring := h.release.1
  rw [← h.curr] at hring
  exact hring.setState _ _

theorem schedule_of_active (h : Ringed s c xs) (hc : (s.task c).state = .active)
    (hxs : ∀ t ∈ xs, (s.task t).state = .pending) : s.schedule = some s.bumpSwitchCnt.turn := by
  obtain rfl := h.curr
  have hpend : ((s.setState s.currTask .pending).task (s.next s.currTask)).state = .pending := by
    by_cases he : s.next s.currTask = s.currTask
    · rw [he, Sched.setState_self]
    · rw [Sched.setState_of_ne he]
      cases xs with
      | nil => exact absurd h.closed.next_nil he
      | cons y ys =>
          rw [h.closed.next_cons]
          exact hxs y List.mem_cons_self
  have hc' : (s.bumpSwitchCnt.task s.bumpSwitchCnt.currTask).state = .active := hc
  rw [Sched.schedule, h.count, scheduleLoop_active hc']
  exact scheduleLoop_pending hpend

theorem schedule_of_done (h : Ringed s c (y :: ys)) (hc : (s.task c).state = .done)
    (hy : (s.task y).state = .pending) : s.schedule = some s.bumpSwitchCnt.leave := by
  have hcount : Ringed s.bumpSwitchCnt c (y :: ys) := h.congr rfl rfl rfl rfl
  obtain rfl := h.curr
  obtain ⟨hring, hp, hn⟩ := hcount.release
  have hc' : (s.bumpSwitchCnt.task s.bumpSwitchCnt.currTask).state = .done := hc
  rw [Sched.schedule, h.count, List.length_cons, scheduleLoop_done hc' hp hn]
  apply scheduleLoop_pending
  show ((s.bumpSwitchCnt.unlinkTask.releaseTask s.currTask).task
    (s.bumpSwitchCnt.unlinkTask.releaseTask s.currTask).currTask).state = .pending
  rw [Sched.releaseTask_task, Sched.unlinkTask_task, hring.curr]
  exact hy

/-- A single task that is done fails the assertion of the loop. -/
theorem schedule_alone (h : Ringed s c []) (hc : (s.task c).state = .done) : s.schedule = none := by
  obtain rfl := h.curr
  have hnext : s.next s.currTask = s.currTask := h.closed.next_nil
  have hprev : s.prev s.currTask = s.currTask := (h.closed.close _ rfl).2
  have hself : s.bumpSwitchCnt.unlinkTask.next s.currTask = s.currTask := by
    show Function.update s.next (s.prev s.currTask) (s.next s.currTask) s.currTask = s.currTask
    rw [hprev, Function.update_self, hnext]
  have hc' : (s.bumpSwitchCnt.task s.bumpSwitchCnt.currTask).state = .done := hc
  rw [Sched.schedule, Sched.scheduleLoop_succ, hc']
  exact if_neg fun hp => hp.2 hself

/-- The current task has the processor, and all others wait for it. -/
structure Served (s : Sched) (c : Ptr) (xs : List Ptr) : Prop where
  ring : Ringed s c xs
  active : (s.task c).state = .active
  pending : ∀ t ∈ xs, (s.task t).state = .pending

theorem Ringed.served_turn {c' : Ptr} {xs' : List Ptr} (h : Ringed s c xs) (hl : xs ++ [c] = c' :: xs')
    (hxs : ∀ t ∈ xs, (s.task t).state = .pending) : Served s.turn c' xs' := by
  have hring := h.turn hl
  obtain rfl := h.curr
  obtain rfl := hring.curr
  refine ⟨hring, ?_, fun t ht => ?_⟩
  · exact congrArg Task.state (Sched.setState_self _ _ _)
  · have hturn : s.turn.task t = (s.setState s.currTask .pending).task t :=
      Sched.setState_of_ne (hring.closed.ne_head ht) _
    rw [hturn]
    by_cases htc : t = s.currTask
    · rw [htc, Sched.setState_self]
    · rw [Sched.setState_of_ne htc]
      have hmem : t ∈ xs ++ [s.currTask] := hl ▸ List.mem_cons_of_mem _ ht
      exact hxs t ((List.mem_append.1 hmem).resolve_right fun hm => htc (List.mem_singleton.1 hm))

theorem Ringed.served_leave (h : Ringed s c (y :: ys)) (hxs : ∀ t ∈ y :: ys, (s.task t).state = .pending) :
    Served s.leave y ys := by
  have hring := h.leave
  obtain rfl := hring.curr
  refine ⟨hring, ?_, fun t ht => ?_⟩
  · exact congrArg Task.state (Sched.setState_self _ _ _)
  · have hleave : s.leave.task t = (s.unlinkTask.releaseTask s.currTask).task t :=
      Sched.setState_of_ne (hring.closed.ne_head ht) _
    rw [hleave, Sched.releaseTask_task, Sched.unlinkTask_task]
    exact hxs t (List.mem_cons_of_mem _ ht)

/-- **What a call of the scheduler does**: the current task goes to the end of the ring, or it was done and leaves. -/
theorem schedule_cases (h : Ringed s c xs) (hc : (s.task c).state ≠ .pending)
    (hxs : ∀ t ∈ xs, (s.task t).state = .pending) (hs : s.schedule = some s') :
    ((s.task c).state = .active ∧ s' = s.bumpSwitchCnt.turn ∧
        ∃ c' xs', xs ++ [c] = c' :: xs' ∧ Served s' c' xs') ∨
      ((s.task c).state = .done ∧ s' = s.bumpSwitchCnt.leave ∧ ∃ y ys, xs = y :: ys ∧ Served s' y ys) := by
  have hcount : Ringed s.bumpSwitchCnt c xs := h.congr rfl rfl rfl rfl
  cases hst : (s.task c).state with
  | pending => exact absurd hst hc
  | active =>
      rw [schedule_of_active h hst hxs] at hs
      obtain rfl := Option.some.inj hs
      obtain ⟨c', xs', hl⟩ := exists_rotated c xs
      exact .inl ⟨rfl, rfl, c', xs', hl, hcount.served_turn hl hxs⟩
  | done =>
      cases xs with
      | nil =>
          rw [schedule_alone h hst] at hs
          cases hs
      | cons y ys =>
          rw [schedule_of_done h hst (hxs y List.mem_cons_self)] at hs
          obtain rfl := Option.some.inj hs
          exact .inr ⟨rfl, rfl, y, ys, rfl, hcount.served_leave hxs⟩

/-! ## What a turn leaves as it is -/

section Frame

variable (s : Sched) (p : Ptr)

@[simp] theorem turn_live : s.turn.live = s.live := rfl
@[simp] theorem turn_nextTaskId : s.turn.nextTaskId = s.nextTaskId := rfl
@[simp] theorem leave_nextTaskId : s.leave.nextTaskId = s.nextTaskId := Sched.releaseTask_nextTaskId ..

/-- A turn changes nothing but states. -/
theorem turn_alike : (s.turn.task p).Alike (s.task p) :=
  (Sched.setState_alike _ _ p .active).trans (Sched.setState_alike s s.currTask p .pending)

theorem leave_alike : (s.leave.task p).Alike (s.task p) := by
  have hrelease : (s.unlinkTask.releaseTask s.currTask).task p = s.task p := by
    rw [Sched.releaseTask_task, Sched.unlinkTask_task]
  rw [← hrelease]
  exact Sched.setState_alike _ _ p .active

/-- The descriptor that is freed, if any, is that of the task that leaves. -/
theorem leave_live (h : p ≠ s.currTask ∨ (s.task s.currTask).coroutine = true) : s.leave.live p = s.live p := by
  show (s.unlinkTask.releaseTask s.currTask).live p = s.live p
  unfold Sched.releaseTask
  split
  · rfl
  · rename_i hco
    exact Function.update_of_ne (h.resolve_right fun he => hco he) ..

end Frame

/-- The states of descriptors outside of the ring are not touched. -/
theorem Ringed.turn_off {p : Ptr} (h : Ringed s c xs) (hp : p ∉ c :: xs) : s.turn.task p = s.task p := by
  obtain ⟨c', xs', hl⟩ := exists_rotated c xs
  have hmem : p ∉ c' :: xs' := by
    rw [← hl, (List.perm_append_singleton c xs).mem_iff]
    exact hp
  have hpc' : p ≠ s.turn.currTask := by
    rw [(h.turn hl).curr]
    exact List.ne_of_not_mem_cons hmem
  have hpc : p ≠ s.currTask := by
    rw [h.curr]
    exact List.ne_of_not_mem_cons hp
  exact (Sched.setState_of_ne hpc' _).trans (Sched.setState_of_ne hpc _)

theorem Ringed.leave_off {p : Ptr} (h : Ringed s c (y :: ys)) (hp : p ∉ y :: ys) : s.leave.task p = s.task p := by
  have hpy : p ≠ s.leave.currTask := by
    rw [h.leave.curr]
    exact List.ne_of_not_mem_cons hp
  refine (Sched.setState_of_ne hpy _).trans ?_
  rw [Sched.releaseTask_task, Sched.unlinkTask_task]

end YieldStm32.Yield
