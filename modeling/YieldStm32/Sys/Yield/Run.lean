import YieldStm32.Sys.Yield.Ring

/-!
# Runs of the scheduler

Tasks are created, before `Yield_Start` and by running tasks, on any descriptor that is not in the ring; the running task
yields, or marks itself as done, which `Yield_ExecuteTask` follows with a call of the scheduler.

* `Inv` : there are no tasks, or the tasks form a ring in which all but the current one are pending;
* `step_inv` : every step keeps it;
* `ring_of_run` : what follows for every run.
-/

namespace YieldStm32.Yield

open Circular Transition

/-- The memory of the scheduler after reset: its variables are set, the rest of the memory is arbitrary. -/
structure Boot (s : Sched) : Prop where
  currTask : s.currTask = 0
  switchCnt : s.switchCnt = 0
  taskCnt : s.taskCnt = 0
  nextTaskId : s.nextTaskId = 1
  live : ∀ p, s.live p = false

/-- Cleared memory after reset. -/
def reset : Sched where
  next _ := 0
  prev _ := 0
  task _ := ⟨.pending, false, false, false, false, 0⟩
  currTask := 0
  switchCnt := 0
  taskCnt := 0
  nextTaskId := 1
  live _ := false

theorem reset_boot : Boot reset := ⟨rfl, rfl, rfl, rfl, fun _ => rfl⟩

inductive Event where
  | create (t : Ptr) (coroutine : Bool)
  | start
  | schedule
  | done

/-- A task has the processor. -/
def Running (s : Sched) : Prop := s.currTask ≠ 0 ∧ (s.task s.currTask).state ≠ .pending

instance (s : Sched) : Decidable (Running s) := inferInstanceAs (Decidable (_ ∧ _))

def step (s : Sched) : Event → Option Sched
  | .create t co => if t ≠ 0 ∧ t ∉ s.ring then some (s.initializeTask t co) else none
  | .start => if Running s then none else s.start
  | .schedule => if Running s then s.schedule else none
  | .done =>
      if s.currTask ≠ 0 ∧ (s.task s.currTask).state = .active then some (s.setState s.currTask .done) else none

/-- No tasks, or a ring in which all tasks but the current one are pending. -/
def Inv (s : Sched) : Prop :=
  (s.currTask = 0 ∧ s.taskCnt = 0) ∨ ∃ xs, Ringed s s.currTask xs ∧ ∀ t ∈ xs, (s.task t).state = .pending

variable {s s₀ s' : Sched} {c t : Ptr} {xs : List Ptr}

theorem Boot.inv (h : Boot s) : Inv s := .inl ⟨h.currTask, h.taskCnt⟩

theorem Inv.ringed (h : Inv s) (hc : s.currTask ≠ 0) :
    ∃ xs, Ringed s s.currTask xs ∧ ∀ t ∈ xs, (s.task t).state = .pending :=
  h.resolve_left fun h0 => hc h0.1

theorem Served.inv (h : Served s c xs) : Inv s := by
  obtain ⟨hring, -, hpend⟩ := h
  obtain rfl := hring.curr
  exact .inr ⟨xs, hring, hpend⟩

theorem ring_of_taskCnt (h : s.taskCnt = 0) : s.ring = [] := by
  rw [Sched.ring, h]
  rfl

theorem Inv.ring_nodup (h : Inv s) : s.ring.Nodup := by
  rcases h with ⟨-, hcnt⟩ | ⟨xs, hring, -⟩
  · rw [ring_of_taskCnt hcnt]
    exact List.nodup_nil
  · rw [hring.ring_eq]
    exact hring.closed.nodup

theorem Inv.curr_mem (h : Inv s) (hc : s.currTask ≠ 0) : s.currTask ∈ s.ring := by
  obtain ⟨xs, hring, -⟩ := h.ringed hc
  rw [hring.ring_eq]
  exact List.mem_cons_self

/-- A new task is the last one. -/
theorem Inv.ring_create (h : Inv s) (ht : t ∉ s.ring) (ht0 : t ≠ 0) (co : Bool) :
    (s.initializeTask t co).ring = s.ring ++ [t] := by
  rcases h with ⟨hcurr, hcnt⟩ | ⟨xs, hring, -⟩
  · rw [(ringed_initializeTask hcurr hcnt ht0 co).ring_eq, ring_of_taskCnt hcnt, List.nil_append]
  · rw [hring.ring_eq] at ht ⊢
    exact (hring.initializeTask ht ht0 co).ring_eq

theorem Inv.create (h : Inv s) (ht : t ∉ s.ring) (ht0 : t ≠ 0) (co : Bool) : Inv (s.initializeTask t co) := by
  have hnew : ((s.initializeTask t co).task t).state = .pending := by rw [Sched.initializeTask_self]
  rcases h with ⟨hcurr, hcnt⟩ | ⟨xs, hring, hpend⟩
  · have hring := ringed_initializeTask hcurr hcnt ht0 co
    refine .inr ⟨[], ?_, fun t ht => absurd ht List.not_mem_nil⟩
    rw [hring.curr]
    exact hring
  · rw [hring.ring_eq] at ht
    have hring' := hring.initializeTask ht ht0 co
    refine .inr ⟨xs ++ [t], ?_, fun u hu => ?_⟩
    · rw [hring'.curr]
      exact hring'
    · by_cases hut : u = t
      · rw [hut, hnew]
      · rw [Sched.initializeTask_of_ne hut]
        exact hpend u ((List.mem_append.1 hu).resolve_right fun hm => hut (List.mem_singleton.1 hm))

/-- Changing the state of the current task. -/
theorem Inv.setCurr (h : Inv s) (st : TaskState) : Inv (s.setState s.currTask st) := by
  rcases h with h | ⟨xs, hring, hpend⟩
  · exact .inl h
  · refine .inr ⟨xs, hring.setState _ _, fun t ht => ?_⟩
    rw [Sched.setState_of_ne (hring.closed.ne_head ht)]
    exact hpend t ht

/-! ## One step -/

/-- The outcome of a call of the scheduler, from any reachable state. -/
theorem Inv.schedule_cases (h : Inv s) (hrun : Running s) (hs : s.schedule = some s') :
    ∃ xs, Ringed s s.currTask xs ∧
      (((s.task s.currTask).state = .active ∧ s' = s.bumpSwitchCnt.turn ∧
          ∃ c' xs', xs ++ [s.currTask] = c' :: xs' ∧ Served s' c' xs') ∨
        ((s.task s.currTask).state = .done ∧ s' = s.bumpSwitchCnt.leave ∧ ∃ y ys, xs = y :: ys ∧ Served s' y ys)) := by
  obtain ⟨xs, hring, hpend⟩ := h.ringed hrun.1
  exact ⟨xs, hring, Yield.schedule_cases hring hrun.2 hpend hs⟩

theorem step_create {co : Bool} (hs : step s (.create t co) = some s') :
    t ≠ 0 ∧ t ∉ s.ring ∧ s' = s.initializeTask t co := by
  obtain ⟨⟨ht0, ht⟩, heq⟩ := Option.ite_none_right_eq_some.1 hs
  exact ⟨ht0, ht, (Option.some.inj heq).symm⟩

theorem step_start (hs : step s .start = some s') :
    ¬ Running s ∧ s.currTask ≠ 0 ∧ s' = s.setState s.currTask .active := by
  obtain ⟨hrun, hstart⟩ := Option.ite_none_left_eq_some.1 hs
  obtain ⟨hc, heq⟩ := Option.ite_none_left_eq_some.1 hstart
  exact ⟨hrun, hc, (Option.some.inj heq).symm⟩

theorem step_schedule (hs : step s .schedule = some s') : Running s ∧ s.schedule = some s' :=
  Option.ite_none_right_eq_some.1 hs

theorem step_done (hs : step s .done = some s') :
    s.currTask ≠ 0 ∧ (s.task s.currTask).state = .active ∧ s' = s.setState s.currTask .done := by
  obtain ⟨⟨hc, hact⟩, heq⟩ := Option.ite_none_right_eq_some.1 hs
  exact ⟨hc, hact, (Option.some.inj heq).symm⟩

theorem step_inv {e : Event} (h : Inv s) (hs : step s e = some s') : Inv s' := by
  cases e with
  | create t co =>
      obtain ⟨ht0, ht, rfl⟩ := step_create hs
      exact h.create ht ht0 co
  | start =>
      obtain ⟨-, -, rfl⟩ := step_start hs
      exact h.setCurr .active
  | schedule =>
      obtain ⟨hrun, hs⟩ := step_schedule hs
      obtain ⟨xs, -, ⟨-, -, c', xs', -, hserved⟩ | ⟨-, -, y, ys, -, hserved⟩⟩ := h.schedule_cases hrun hs
      · exact hserved.inv
      · exact hserved.inv
  | done =>
      obtain ⟨-, -, rfl⟩ := step_done hs
      exact h.setCurr .done

theorem run_inv {es : List Event} (h₀ : Boot s₀) (hr : run step s₀ es = some s) : Inv s :=
  run_keeps (fun _ _ _ h hs => step_inv h hs) h₀.inv hr

/-! ## The ring over runs -/

/-- The tasks form one cyclic doubly linked list, `curr_task` is a member, and `task_cnt` is its length. -/
def OneRing (s : Sched) : Prop :=
  (s.currTask = 0 ∧ s.taskCnt = 0) ∨
    ∃ xs, s.ring = s.currTask :: xs ∧ Closed s.next s.prev s.currTask xs ∧ (0 : Ptr) ∉ s.ring ∧
      s.taskCnt.toNat = s.ring.length ∧ ∀ a ∈ s.ring, s.prev (s.next a) = a ∧ s.next (s.prev a) = a

/-- Exactly one task, the current one, is active, and none is done. -/
def OneActive (s : Sched) : Prop :=
  s.currTask ∈ s.ring ∧
    ∀ t ∈ s.ring, ((s.task t).state = .active ↔ t = s.currTask) ∧ (s.task t).state ≠ .done

theorem Inv.oneRing (h : Inv s) : OneRing s := by
  rcases h with h | ⟨xs, hring, -⟩
  · exact .inl h
  · refine .inr ⟨xs, hring.ring_eq, hring.closed, ?_, ?_, fun a ha => ?_⟩
    · rw [hring.ring_eq]
      exact hring.null
    · rw [hring.ring_eq, hring.count, List.length_cons]
    · rw [hring.ring_eq] at ha
      exact hring.closed.inverse ha

theorem Served.oneActive (h : Served s c xs) : OneActive s := by
  obtain ⟨hring, hact, hpend⟩ := h
  obtain rfl := hring.curr
  rw [OneActive, hring.ring_eq]
  refine ⟨List.mem_cons_self, fun t ht => ?_⟩
  rcases List.mem_cons.1 ht with rfl | ht
  · rw [hact]
    exact ⟨iff_of_true rfl rfl, by decide⟩
  · rw [hpend t ht]
    exact ⟨iff_of_false (by decide) (hring.closed.ne_head ht), by decide⟩

theorem Inv.start_served (h : Inv s) (hc : s.currTask ≠ 0) :
    ∃ xs, Served (s.setState s.currTask .active) s.currTask xs := by
  obtain ⟨xs, hring, hpend⟩ := h.ringed hc
  refine ⟨xs, hring.setState _ _, by rw [Sched.setState_self], fun t ht => ?_⟩
  rw [Sched.setState_of_ne (hring.closed.ne_head ht)]
  exact hpend t ht

/-- A step that takes a task out of the ring. -/
theorem step_leaves {e : Event} (h : Inv s) (hs : step s e = some s') (ht : t ∈ s.ring) (ht' : t ∉ s'.ring) :
    (s.task t).state = .done := by
  rcases h with ⟨-, hcnt⟩ | ⟨xs, hring, hpend⟩
  · rw [ring_of_taskCnt hcnt] at ht
    exact absurd ht List.not_mem_nil
  have hkept : ∀ {l : List Ptr} {c' : Ptr} {xs' : List Ptr}, Ringed s' c' xs' → c' :: xs' = l →
      t ∉ l := fun hr hl hm => ht' (by rw [hr.ring_eq, hl]; exact hm)
  rw [hring.ring_eq] at ht
  cases e with
  | create u co =>
      obtain ⟨hu0, hu, rfl⟩ := step_create hs
      rw [hring.ring_eq] at hu
      exact absurd (List.mem_append_left [u] ht) (hkept (hring.initializeTask hu hu0 co) rfl)
  | start =>
      obtain ⟨-, -, rfl⟩ := step_start hs
      exact absurd ht (hkept (hring.setState _ _) rfl)
  | done =>
      obtain ⟨-, -, rfl⟩ := step_done hs
      exact absurd ht (hkept (hring.setState _ _) rfl)
  | schedule =>
      obtain ⟨hrun, hs⟩ := step_schedule hs
      rcases Yield.schedule_cases hring hrun.2 hpend hs with
        ⟨-, -, c', xs', hl, hserved⟩ | ⟨hdone, -, y, ys, rfl, hserved⟩
      · refine absurd ?_ (hkept hserved.ring hl.symm)
        rw [(List.perm_append_singleton s.currTask xs).mem_iff]
        exact ht
      · rcases List.mem_cons.1 ht with rfl | ht
        · exact hdone
        · exact absurd ht (hkept hserved.ring rfl)

/-- **The ring of tasks, over every run**: it is one cyclic list; after `Yield_Start` and after every `Yield_Schedule` the
current task alone is active and none is done; only a task that is done leaves the ring; and the loop of `Yield_Schedule`
ends for every assignment of states in which some task is not done. -/
theorem ring_of_run {es : List Event} (h₀ : Boot s₀) (hr : run step s₀ es = some s) :
    OneRing s ∧
      (∀ e s', step s e = some s' →
        (e = .start ∨ e = .schedule → OneActive s') ∧ ∀ t ∈ s.ring, t ∉ s'.ring → (s.task t).state = .done) ∧
      ∀ task : Ptr → Task, (∃ t ∈ s.ring, (task t).state ≠ .done) →
        ∃ s', Sched.schedule { s with task := task } = some s' := by
  have hinv := run_inv h₀ hr
  refine ⟨hinv.oneRing, fun e s' hs => ⟨?_, fun t ht ht' => step_leaves hinv hs ht ht'⟩, fun task hex => ?_⟩
  · rintro (rfl | rfl)
    · obtain ⟨-, hc, rfl⟩ := step_start hs
      obtain ⟨xs, hserved⟩ := hinv.start_served hc
      exact hserved.oneActive
    · obtain ⟨hrun, hs⟩ := step_schedule hs
      obtain ⟨xs, -, ⟨-, -, c', xs', -, hserved⟩ | ⟨-, -, y, ys, -, hserved⟩⟩ := hinv.schedule_cases hrun hs
      · exact hserved.oneActive
      · exact hserved.oneActive
  · rcases hinv with ⟨-, hcnt⟩ | ⟨xs, hring, -⟩
    · obtain ⟨t, ht, -⟩ := hex
      rw [ring_of_taskCnt hcnt] at ht
      exact absurd ht List.not_mem_nil
    · rw [hring.ring_eq] at hex
      have hring' : Ringed { s with task := task } s.currTask xs := hring.congr rfl rfl rfl rfl
      exact schedule_isSome hring' hex

/-- The first task makes a second one and a third one, and is done at its second turn. -/
theorem ring_of_run_threeTasks :
    ∃ s, run step reset [.create 16 false, .start, .create 32 false, .create 48 true, .schedule, .schedule, .schedule,
        .done, .schedule] = some s ∧ s.ring = [32, 48] ∧ OneRing s := by
  obtain ⟨s, hs⟩ := Option.isSome_iff_exists.1 (show (run step reset [.create 16 false, .start, .create 32 false,
    .create 48 true, .schedule, .schedule, .schedule, .done, .schedule]).isSome = true by decide)
  have hring : (run step reset [.create 16 false, .start, .create 32 false, .create 48 true, .schedule, .schedule,
    .schedule, .done, .schedule]).map Sched.ring = some [32, 48] := by decide
  rw [hs] at hring
  exact ⟨s, hs, Option.some.inj hring, (ring_of_run reset_boot hs).1⟩

end YieldStm32.Yield
