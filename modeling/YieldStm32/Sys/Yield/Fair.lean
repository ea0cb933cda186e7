import YieldStm32.Lib.RoundRobin
import YieldStm32.Sys.Yield.Run

/-!
# Round-robin order

A descriptor is used again, for another task, after its task is gone. So tasks are told apart by a number: `tag` has the
number of the task in each descriptor, and `born` is the number of tasks so far.

* `queue` : the tasks of the ring, by number;
* `ops` : a creation joins the queue, a call of the scheduler ends a turn or takes the current task out;
* `Tagged.simulates` : a run of the scheduler is a run of a round-robin queue;
* `fair_of_run` : between two activations of a task all others are activated once, and a finished one never again.
-/

namespace YieldStm32.Yield

open Transition

/-- The scheduler's memory, with the number of the task in each descriptor. -/
structure Tagged where
  sched : Sched
  tag : Ptr → Nat
  born : Nat

namespace Tagged

/-- The numbers after an event. -/
def tagAfter (s : Tagged) : Event → Ptr → Nat
  | .create t _ => Function.update s.tag t s.born
  | _ => s.tag

def bornAfter (s : Tagged) : Event → Nat
  | .create _ _ => s.born + 1
  | _ => s.born

def step (s : Tagged) (e : Event) : Option Tagged :=
  (Yield.step s.sched e).map fun s' => ⟨s', s.tagAfter e, s.bornAfter e⟩

/-- The task that has its turn. -/
def current (s : Tagged) : Nat := s.tag s.sched.currTask

/-- The tasks of the ring, from the current one on. -/
def queue (s : Tagged) : List Nat := s.sched.ring.map s.tag

/-- Which task a step activates: `Yield_Schedule` does. -/
def activates (_ : Tagged) : Event → Tagged → List Nat
  | .schedule, s' => [s'.current]
  | _, _ => []

/-- The tasks that are activated along a run. -/
def activations : Tagged → List Event → List Nat := trace step activates

/-- A step as operations on the queue. -/
def ops (s : Tagged) : Event → Tagged → List (RoundRobin.Op Nat)
  | .create _ _, _ => [.join s.born]
  | .schedule, _ => if (s.sched.task s.sched.currTask).state = .done then [.leave] else [.turn]
  | _, _ => []

/-- The ring is intact, and its tasks have different numbers. -/
structure Good (s : Tagged) : Prop where
  inv : Inv s.sched
  nodup : s.queue.Nodup
  lt : ∀ n ∈ s.queue, n < s.born

variable {s s₀ s' : Tagged} {e : Event}

theorem step_some (hs : step s e = some s') :
    ∃ c, Yield.step s.sched e = some c ∧ s' = ⟨c, s.tagAfter e, s.bornAfter e⟩ := by
  obtain ⟨c, hc, rfl⟩ := Option.map_eq_some_iff.1 hs
  exact ⟨c, hc, rfl⟩

theorem good_of_boot (h : Boot s.sched) : Good s := by
  have hq : s.queue = [] := by rw [queue, ring_of_taskCnt h.taskCnt, List.map_nil]
  refine ⟨h.inv, ?_, ?_⟩
  · rw [hq]
    exact List.nodup_nil
  · rw [hq]
    exact fun n hn => absurd hn List.not_mem_nil

/-- A step with the same tasks in another order, or without the current one. -/
theorem Good.sub {c : Sched} (h : Good s) (hinv : Inv c) (hsub : (c.ring.map s.tag).Subperm s.queue) :
    Good ⟨c, s.tag, s.born⟩ := by
  obtain ⟨l, hperm, hl⟩ := hsub
  refine ⟨hinv, ?_, fun n hn => ?_⟩
  · exact hperm.nodup_iff.1 (hl.nodup h.nodup)
  · exact h.lt n (hl.subset (hperm.mem_iff.2 hn))

theorem Good.same {c : Sched} (h : Good s) (hinv : Inv c) (hring : c.ring = s.sched.ring) :
    Good ⟨c, s.tag, s.born⟩ ∧ (⟨c, s.tag, s.born⟩ : Tagged).queue = s.queue := by
  have hq : c.ring.map s.tag = s.queue := by rw [hring, queue]
  exact ⟨h.sub hinv (hq ▸ List.Subperm.refl _), hq⟩

/-- A creation adds a new number at the end. -/
theorem Good.create {t : Ptr} (h : Good s) (co : Bool) (ht0 : t ≠ 0) (ht : t ∉ s.sched.ring) :
    Good ⟨s.sched.initializeTask t co, Function.update s.tag t s.born, s.born + 1⟩ ∧
      (⟨s.sched.initializeTask t co, Function.update s.tag t s.born, s.born + 1⟩ : Tagged).queue =
        s.queue ++ [s.born] := by
  have hq : (s.sched.initializeTask t co).ring.map (Function.update s.tag t s.born) = s.queue ++ [s.born] := by
    rw [h.inv.ring_create ht ht0, List.map_append, List.map_singleton, Function.update_self, queue]
    congr 1
    apply List.map_congr_left
    intro u hu
    have hut : u ≠ t := fun he => ht (he ▸ hu)
    exact Function.update_of_ne hut ..
  refine ⟨⟨h.inv.create ht ht0 co, ?_, fun n hn => ?_⟩, hq⟩
  · show ((s.sched.initializeTask t co).ring.map (Function.update s.tag t s.born)).Nodup
    rw [hq, (List.perm_append_singleton s.born s.queue).nodup_iff, List.nodup_cons]
    exact ⟨fun hb => Nat.lt_irrefl _ (h.lt _ hb), h.nodup⟩
  · have hn : n ∈ s.queue ++ [s.born] := hq ▸ hn
    rcases List.mem_append.1 hn with hn | hn
    · exact Nat.lt_succ_of_lt (h.lt n hn)
    · rw [List.mem_singleton.1 hn]
      exact Nat.lt_succ_self s.born

section Schedule

variable {c : Sched} {c' y : Ptr} {xs xs' ys : List Ptr}

/-- The current task goes to the end of the queue. -/
theorem Good.turn (h : Good s) (hring : Ringed s.sched s.sched.currTask xs) (hl : xs ++ [s.sched.currTask] = c' :: xs')
    (hserved : Served c c' xs') :
    Good ⟨c, s.tag, s.born⟩ ∧ run RoundRobin.step s.queue [.turn] = some (c.ring.map s.tag) ∧
      trace RoundRobin.step RoundRobin.serves s.queue [.turn] = [s.tag c.currTask] := by
  have hq : s.queue = s.current :: xs.map s.tag := by rw [queue, hring.ring_eq, List.map_cons, current]
  have hq' : c.ring.map s.tag = xs.map s.tag ++ [s.current] := by
    rw [hserved.ring.ring_eq, ← hl, List.map_append, List.map_singleton, current]
  have hhead : (xs.map s.tag ++ [s.current]).take 1 = [s.tag c.currTask] := by
    rw [← hq', hserved.ring.ring_eq, hserved.ring.curr]
    rfl
  refine ⟨h.sub hserved.inv ?_, ?_, ?_⟩
  · rw [hq', hq]
    exact (List.perm_append_singleton _ _).subperm
  · rw [hq, hq']
    rfl
  · rw [hq, ← hhead]
    exact List.append_nil _

/-- The current task leaves the queue. -/
theorem Good.leave (h : Good s) (hring : Ringed s.sched s.sched.currTask (y :: ys)) (hserved : Served c y ys) :
    Good ⟨c, s.tag, s.born⟩ ∧ run RoundRobin.step s.queue [.leave] = some (c.ring.map s.tag) ∧
      trace RoundRobin.step RoundRobin.serves s.queue [.leave] = [s.tag c.currTask] := by
  have hq : s.queue = s.current :: s.tag y :: ys.map s.tag := by
    rw [queue, hring.ring_eq, List.map_cons, List.map_cons, current]
  have hq' : c.ring.map s.tag = s.tag y :: ys.map s.tag := by rw [hserved.ring.ring_eq, List.map_cons]
  refine ⟨h.sub hserved.inv ?_, ?_, ?_⟩
  · rw [hq', hq]
    exact (List.sublist_cons_self _ _).subperm
  · rw [hq, hq']
    rfl
  · rw [hq, hserved.ring.curr]
    rfl

end Schedule

/-- **One step of the scheduler is one operation of the queue, or none.** -/
theorem simulates (h : Good s) (hs : step s e = some s') :
    Good s' ∧ run RoundRobin.step s.queue (ops s e s') = some s'.queue ∧
      trace RoundRobin.step RoundRobin.serves s.queue (ops s e s') = activates s e s' := by
  obtain ⟨c, hc, rfl⟩ := step_some hs
  cases e with
  | create t co =>
      obtain ⟨ht0, ht, rfl⟩ := step_create hc
      obtain ⟨hgood, hq⟩ := h.create co ht0 ht
      have hjoin : RoundRobin.step s.queue (.join s.born) = some (s.queue ++ [s.born]) := by cases s.queue <;> rfl
      refine ⟨hgood, ?_, ?_⟩
      · show run RoundRobin.step s.queue [.join s.born] = some _
        rw [run_cons [] hjoin]
        exact congrArg some hq.symm
      · show trace RoundRobin.step RoundRobin.serves s.queue [.join s.born] = []
        rw [trace_cons [] hjoin]
        rfl
  | start =>
      obtain ⟨-, -, rfl⟩ := step_start hc
      obtain ⟨hgood, hq⟩ := h.same (h.inv.setCurr .active) rfl
      exact ⟨hgood, congrArg some hq.symm, rfl⟩
  | done =>
      obtain ⟨-, -, rfl⟩ := step_done hc
      obtain ⟨hgood, hq⟩ := h.same (h.inv.setCurr .done) rfl
      exact ⟨hgood, congrArg some hq.symm, rfl⟩
  | schedule =>
      obtain ⟨hrun, hsched⟩ := step_schedule hc
      obtain ⟨xs, hring, ⟨hact, -, c', xs', hl, hserved⟩ | ⟨hdone, -, y, ys, rfl, hserved⟩⟩ :=
        h.inv.schedule_cases hrun hsched
      · have hops : ops s .schedule ⟨c, s.tag, s.born⟩ = [.turn] := if_neg (by rw [hact]; decide)
        show Good ⟨c, s.tag, s.born⟩ ∧ run RoundRobin.step s.queue (ops s .schedule ⟨c, s.tag, s.born⟩) = _ ∧
          trace RoundRobin.step RoundRobin.serves s.queue (ops s .schedule ⟨c, s.tag, s.born⟩) = _
        rw [hops]
        exact h.turn hring hl hserved
      · have hops : ops s .schedule ⟨c, s.tag, s.born⟩ = [.leave] := if_pos hdone
        show Good ⟨c, s.tag, s.born⟩ ∧ run RoundRobin.step s.queue (ops s .schedule ⟨c, s.tag, s.born⟩) = _ ∧
          trace RoundRobin.step RoundRobin.serves s.queue (ops s .schedule ⟨c, s.tag, s.born⟩) = _
        rw [hops]
        exact h.leave hring hserved

/-! ## Runs -/

variable {es fs : List Event}

theorem step_good (h : Good s) (hs : step s e = some s') : Good s' := (simulates h hs).1

theorem run_good (h₀ : Boot s₀.sched) (hr : run step s₀ es = some s) : Good s :=
  run_keeps (fun _ _ _ h hs => step_good h hs) (good_of_boot h₀) hr

/-- **A run of the scheduler is a run of a round-robin queue.** -/
theorem run_simulates (h : Good s) (hr : run step s es = some s') :
    run RoundRobin.step s.queue (trace step ops s es) = some s'.queue ∧
      RoundRobin.served s.queue (trace step ops s es) = activations s es := by
  have hstep : ∀ s e s' q, (Good s ∧ q = s.queue) → step s e = some s' →
      ∃ q', run RoundRobin.step q (ops s e s') = some q' ∧ (Good s' ∧ q' = s'.queue) ∧
        trace RoundRobin.step RoundRobin.serves q (ops s e s') = activates s e s' := by
    rintro s e s' q ⟨hgood, rfl⟩ hs
    obtain ⟨hgood', hrun, hout⟩ := simulates hgood hs
    exact ⟨s'.queue, hrun, ⟨hgood', rfl⟩, hout⟩
  obtain ⟨q', hrun, ⟨-, rfl⟩, hout⟩ := run_of_simulates hstep ⟨h, rfl⟩ hr
  exact ⟨hrun, hout⟩

/-- Numbers are not used again. -/
theorem not_join {n : Nat} (hn : n < s.born) : RoundRobin.Op.join n ∉ trace step ops s es := by
  have hstep : ∀ (s₁ : Tagged) (e : Event) (s₂ : Tagged), s.born ≤ s₁.born → step s₁ e = some s₂ →
      s.born ≤ s₂.born ∧ ∀ op ∈ ops s₁ e s₂, op ≠ .join n := by
    intro s₁ e s₂ hle hs
    obtain ⟨c, -, rfl⟩ := step_some hs
    cases e with
    | create t co =>
        refine ⟨Nat.le_succ_of_le hle, fun op hop he => ?_⟩
        rw [List.mem_singleton.1 hop] at he
        injection he with he
        omega
    | start => exact ⟨hle, fun op hop => absurd hop List.not_mem_nil⟩
    | done => exact ⟨hle, fun op hop => absurd hop List.not_mem_nil⟩
    | schedule =>
        refine ⟨hle, fun op hop he => ?_⟩
        rw [he] at hop
        simp only [ops] at hop
        split at hop
        · cases List.mem_singleton.1 hop
        · cases List.mem_singleton.1 hop
  exact fun h => forall_mem_trace hstep (Nat.le_refl s.born) _ h rfl

/-- A task that is gone is not activated. -/
theorem not_activated (h : Good s) {n : Nat} (hn : n < s.born) (hq : n ∉ s.queue) (hr : run step s es = some s') :
    n ∉ activations s es := by
  rw [← (run_simulates h hr).2]
  exact RoundRobin.not_served hq (not_join hn)

theorem Good.current_mem (h : Good s) (hc : s.sched.currTask ≠ 0) : ∃ q, s.queue = s.current :: q := by
  obtain ⟨xs, hring, -⟩ := h.inv.ringed hc
  exact ⟨xs.map s.tag, by rw [queue, hring.ring_eq, List.map_cons, current]⟩

/-- A creation leaves the current task as it is. -/
theorem create_current {u : Ptr} (h : Inv s.sched) (hc : s.sched.currTask ≠ 0) (hu : u ∉ s.sched.ring) (co : Bool) :
    (s.sched.initializeTask u co).currTask = s.sched.currTask ∧
      (s.sched.initializeTask u co).task s.sched.currTask = s.sched.task s.sched.currTask ∧
      (⟨s.sched.initializeTask u co, s.tagAfter (.create u co), s.bornAfter (.create u co)⟩ : Tagged).current =
        s.current := by
  have hcu : s.sched.currTask ≠ u := fun he => hu (he ▸ h.curr_mem hc)
  have hcurr : (s.sched.initializeTask u co).currTask = s.sched.currTask := Sched.initializeTask_currTask hc u co
  refine ⟨hcurr, Sched.initializeTask_of_ne hcu co, ?_⟩
  show Function.update s.tag u s.born (s.sched.initializeTask u co).currTask = s.tag s.sched.currTask
  rw [hcurr, Function.update_of_ne hcu]

/-- A task that is done is not activated, from the moment on it says so. -/
theorem done_not_activated (h : Good s) (hc : s.sched.currTask ≠ 0)
    (hdone : (s.sched.task s.sched.currTask).state = .done) (hr : run step s es = some s') :
    s.current ∉ activations s es := by
  induction es generalizing s with
  | nil => exact List.not_mem_nil
  | cons e es ih =>
      obtain ⟨t, ht, hr⟩ := Option.bind_eq_some_iff.1 hr
      have hgood := step_good h ht
      rw [activations, trace_cons es ht]
      obtain ⟨c, hstep, rfl⟩ := step_some ht
      obtain ⟨xs, hring, hpend⟩ := h.inv.ringed hc
      cases e with
      | create u co =>
          obtain ⟨-, hu, rfl⟩ := step_create hstep
          obtain ⟨hcurr, htask, hcurrent⟩ := create_current h.inv hc hu co
          have hrest := ih hgood (by rw [hcurr]; exact hc) (by rw [hcurr, htask, hdone]) hr
          rw [hcurrent] at hrest
          exact hrest
      | start =>
          obtain ⟨hnot, -, -⟩ := step_start hstep
          exact absurd ⟨hc, by rw [hdone]; decide⟩ hnot
      | done =>
          obtain ⟨-, hact, -⟩ := step_done hstep
          rw [hdone] at hact
          cases hact
      | schedule =>
          obtain ⟨hrun, hsched⟩ := step_schedule hstep
          rcases Yield.schedule_cases hring hrun.2 hpend hsched with ⟨hact, -⟩ | ⟨-, -, y, ys, rfl, hserved⟩
          · rw [hdone] at hact
            cases hact
          · have hq : s.queue = s.current :: c.ring.map s.tag := by
              rw [queue, hring.ring_eq, hserved.ring.ring_eq, List.map_cons, current]
            have hgone : s.current ∉ c.ring.map s.tag := (List.nodup_cons.1 (hq ▸ h.nodup)).1
            have hlt : s.current < s.born := h.lt _ (hq ▸ List.mem_cons_self)
            rw [List.mem_append]
            rintro (hm | hm)
            · apply hgone
              rw [List.mem_singleton.1 hm, hserved.ring.ring_eq, current, hserved.ring.curr]
              exact List.mem_map_of_mem List.mem_cons_self
            · have hnot := @not_activated _ _ es hgood s.current hlt hgone hr
              exact hnot hm

/-- **Round robin, over every run**: from a state in which a task has its turn, up to its next activation, every other task
of the ring is activated exactly once, whether it stays or finishes; and a task that is done is not activated again. -/
theorem fair_of_run (h₀ : Boot s₀.sched) (hr : run step s₀ es = some s) (hrunning : Running s.sched)
    (hr' : run step s fs = some s') :
    (∀ as, activations s fs = as ++ [s.current] → s.current ∉ as → ∀ n ∈ s.queue, n ≠ s.current → as.count n = 1) ∧
      ((s.sched.task s.sched.currTask).state = .done → s.current ∉ activations s fs) := by
  have hgood := run_good h₀ hr
  refine ⟨fun as has hnot n hn hne => ?_, fun hdone => done_not_activated hgood hrunning.1 hdone hr'⟩
  obtain ⟨q, hq⟩ := hgood.current_mem hrunning.1
  obtain ⟨hrun, hserved⟩ := run_simulates hgood hr'
  have hnq : n ∈ q := (List.mem_cons.1 (hq ▸ hn)).resolve_left hne
  rw [hq] at hrun hserved
  apply RoundRobin.served_once (hq ▸ hgood.nodup) _ hrun (hserved.trans has) hnot hnq
  exact fun m hm => not_join (hgood.lt m (hq ▸ hm))

/-- Three tasks; the third is done at its first turn. -/
theorem fair_of_run_threeTasks :
    ∃ s s', run step ⟨reset, fun _ => 0, 0⟩ [.create 16 false, .start, .create 32 false, .create 48 false] = some s ∧
      run step s [.schedule, .schedule, .done, .schedule] = some s' ∧
      activations s [.schedule, .schedule, .done, .schedule] = [1, 2] ++ [s.current] ∧ [1, 2].count 2 = 1 := by
  let s := (run step ⟨reset, fun _ => 0, 0⟩ [.create 16 false, .start, .create 32 false, .create 48 false]).get
    (by decide)
  let s' := (run step s [.schedule, .schedule, .done, .schedule]).get (by decide)
  have hs : run step ⟨reset, fun _ => 0, 0⟩ [.create 16 false, .start, .create 32 false, .create 48 false] = some s :=
    (Option.some_get _).symm
  have hs' : run step s [.schedule, .schedule, .done, .schedule] = some s' := (Option.some_get _).symm
  have hact : activations s [.schedule, .schedule, .done, .schedule] = [1, 2] ++ [s.current] := by decide
  exact ⟨s, s', hs, hs', hact,
    (fair_of_run reset_boot hs (by decide) hs').1 [1, 2] hact (by decide) 2 (by decide) (by decide)⟩

end Tagged

end YieldStm32.Yield
