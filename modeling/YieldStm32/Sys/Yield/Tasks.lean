import YieldStm32.Sys.Yield.Run

/-!
# Tasks and coroutines (`sys/src/yield.c`)

Tasks switch only where they call the scheduler, so an event is what the current task does, up to its next such call or
up to a return to its handler. `Pc` is the place of a task between two events.

The memory that `Yield_AllocateTask` returns is a parameter of the event: `0` if there is none, and else any descriptor
that is not allocated. So is the time a clock shows.

Ghost state: `first`, the task `Yield_Start` runs; `returned`, the ids of the tasks whose handlers have returned;
`inits`, the descriptors `Yield_InitializeTask` was applied to and the ids it gave, the last one first.

* `Exclusive` : a step initializes no descriptor of the ring, and replaces the descriptor of no slot in use;
* `Rechecked` : a caller of `Yield_Run` that found a slot, and yielded, still finds it free;
* `exclusive_iff_rechecked` : over every run.
-/

namespace YieldStm32.Yield

open Transition

/-- `SYS_CORO_MAX_NUM` -/
abbrev coroMaxNum : Nat := 4

/-- `timeout` and `ts` of a call of `Yield_Wait`. -/
structure Wait where
  timeout : Int
  ts : BitVec 32
deriving DecidableEq

/-- `timeout && dtime_now(ts) > timeout` -/
def Wait.Expired (w : Wait) (now : BitVec 32) : Prop := w.timeout ≠ 0 ∧ (now - w.ts).toInt > w.timeout

instance (w : Wait) (now : BitVec 32) : Decidable (w.Expired now) := inferInstanceAs (Decidable (_ ∧ _))

/-- Where a task is: in its handler, or at a call of the scheduler. -/
inductive Pc where
  | running
  /-- in `Yield_Run`, without a slot -/
  | searching
  /-- in `Yield_Run`, after slot `k` was found -/
  | found (k : Fin coroMaxNum)
  /-- in `Yield_Wait`, with the descriptor that was found for `id` -/
  | waiting (t : Ptr) (id : BitVec 32) (w : Wait)
  /-- in `Yield_ExecuteTask`, with `handler_done` set -/
  | returned
  /-- in the endless loop of `Yield_Start` -/
  | looping
deriving DecidableEq

/-- What a call returns. -/
inductive Ret where
  | taskId (id : BitVec 32)
  | eok
  | efatal
  | etimeout
deriving DecidableEq

structure System where
  sched : Sched
  coroutines : Fin coroMaxNum → Ptr
  pc : Ptr → Pc
  ret : Ptr → Option Ret
  first : Ptr
  returned : BitVec 32 → Bool
  inits : List (Ptr × BitVec 32)

/-- What the current task does. `t` is the memory there is for a task, `ts` and `now` the time. -/
inductive Call where
  | task (t : Ptr)
  | start
  | yield
  | run
  | wait (id : BitVec 32) (timeout : Int) (ts now : BitVec 32)
  | ret
  | resume (t : Ptr) (now : BitVec 32)
deriving DecidableEq

namespace System

/-- The current task is in its handler, and returns there with `r`. -/
def answer (s : System) (r : Ret) : System :=
  { s with
    pc := Function.update s.pc s.sched.currTask .running
    ret := Function.update s.ret s.sched.currTask (some r) }

/-- The current task calls the scheduler at `pc`. -/
def switch (s : System) (pc : Pc) : Option System :=
  s.sched.schedule.map fun c =>
    { s with
      sched := c
      pc := Function.update s.pc s.sched.currTask pc
      ret := Function.update s.ret s.sched.currTask none }

/-- `Yield_InitializeTask` -/
def create (s : System) (t : Ptr) (coroutine : Bool) : System :=
  { s with
    sched := s.sched.initializeTask t coroutine
    pc := Function.update s.pc t .running
    ret := Function.update s.ret t none
    returned := Function.update s.returned s.sched.nextTaskId false
    inits := (t, s.sched.nextTaskId) :: s.inits }

/-- The memory is what `Yield_AllocateTask` may return. -/
def Available (s : System) (t : Ptr) : Prop := t = 0 ∨ s.sched.live t = false

instance (s : System) (t : Ptr) : Decidable (s.Available t) := inferInstanceAs (Decidable (_ ∨ _))

/-- `Yield_AllocateTask` returned `t`. -/
def allocate (s : System) (t : Ptr) : System := { s with sched := s.sched.allocateTask t }

/-- `Yield_Task` -/
def yieldTask (s : System) (t : Ptr) : System :=
  if t = 0 then s else (s.allocate t).create t false

/-- `!(*coro) || (*coro)->state == TASK_DONE` -/
def Free (s : System) (k : Fin coroMaxNum) : Prop :=
  s.coroutines k = 0 ∨ (s.sched.task (s.coroutines k)).state = .done

instance (s : System) (k : Fin coroMaxNum) : Decidable (s.Free k) := inferInstanceAs (Decidable (_ ∨ _))

/-- The search of `Yield_Run`, with the `Yield()` that follows it in any case. -/
def search (s : System) : Option System :=
  match (List.finRange coroMaxNum).find? fun k => decide (s.Free k) with
  | some k => s.switch (.found k)
  | none => s.switch .searching

/-- A coroutine is started in slot `k`, and the caller gets its id. -/
def launch (s : System) (k : Fin coroMaxNum) : System :=
  let s := s.create (s.coroutines k) true
  s.answer (.taskId (s.sched.task (s.coroutines k)).id)

/-- `Yield_Run` after its loop. -/
def claim (s : System) (k : Fin coroMaxNum) (t : Ptr) : Option System :=
  if s.coroutines k = 0 then
    if t = 0 then some (s.answer .efatal)
    else if s.Available t then some (launch { s.allocate t with coroutines := Function.update s.coroutines k t } k)
    else none
  else some (s.launch k)

/-- A pass of the loop of `Yield_Wait`. -/
def waitPass (s : System) (t : Ptr) (id : BitVec 32) (w : Wait) (now : BitVec 32) : Option System :=
  if (s.sched.task t).handlerDone then some (s.answer .eok)
  else if w.Expired now then some (s.answer .etimeout)
  else s.switch (.waiting t id w)

/-- `Yield_Wait` -/
def wait (s : System) (id : BitVec 32) (w : Wait) (now : BitVec 32) : Option System :=
  match s.sched.getTaskByID id with
  | none => some (s.answer .eok)
  | some t => s.waitPass t id w now

/-- The handler returns, to `Yield_Start` or to `Yield_ExecuteTask`. -/
def handlerReturns (s : System) : Option System :=
  let c := s.sched.currTask
  let s := { s with returned := Function.update s.returned (s.sched.task c).id true }
  if c = s.first then s.switch .looping
  else { s with sched := s.sched.setHandlerDone c }.switch .returned

/-- The rest of `Yield_ExecuteTask`. -/
def finish (s : System) : Option System :=
  { s with sched := s.sched.setState s.sched.currTask .done }.switch .returned

/-- The current task is in its handler. -/
def InHandler (s : System) : Prop :=
  Running s.sched ∧ s.pc s.sched.currTask = .running

instance (s : System) : Decidable s.InHandler := inferInstanceAs (Decidable (_ ∧ _))

/-- The current task goes on after the call of the scheduler it is at. -/
def resume (s : System) (t : Ptr) (now : BitVec 32) : Option System :=
  match s.pc s.sched.currTask with
  | .running => none
  | .searching => s.search
  | .found k => s.claim k t
  | .waiting t id w => s.waitPass t id w now
  | .returned => s.finish
  | .looping => s.switch .looping

def step (s : System) : Call → Option System
  | .task t => if s.Available t ∧ (Running s.sched → s.InHandler) then some (s.yieldTask t) else none
  | .start => if Running s.sched then none else s.sched.start.map fun c => { s with sched := c, first := c.currTask }
  | .yield => if s.InHandler then s.switch .running else none
  | .run => if s.InHandler then s.search else none
  | .wait id timeout ts now => if s.InHandler then s.wait id ⟨timeout, ts⟩ now else none
  | .ret => if s.InHandler then s.handlerReturns else none
  | .resume t now => if Running s.sched then s.resume t now else none

end System

/-- After reset. -/
structure System.Boot (s : System) : Prop where
  sched : Yield.Boot s.sched
  coroutines : ∀ k, s.coroutines k = 0
  first : s.first = 0
  returned : ∀ id, s.returned id = false
  inits : s.inits = []

/-! ## The slots -/

/-- Every slot in use has a descriptor of its own memory, whose task is in the ring until it is done. -/
structure Good (c : Sched) (co : Fin coroMaxNum → Ptr) : Prop where
  inv : Inv c
  calm : ∀ t ∈ c.ring, (c.task t).state ≠ .done
  live : ∀ t ∈ c.ring, c.live t = true
  slot : ∀ k, co k ≠ 0 → c.live (co k) = true ∧ (c.task (co k)).coroutine = true ∧
    (co k ∈ c.ring ∨ (c.task (co k)).state = .done)

variable {c c' : Sched} {co : Fin coroMaxNum → Ptr} {t : Ptr} {k : Fin coroMaxNum}

theorem good_of_boot (h : Boot c) : Good c fun _ => 0 := by
  have hring : c.ring = [] := ring_of_taskCnt h.taskCnt
  refine ⟨h.inv, ?_, ?_, fun k hk => absurd rfl hk⟩
  · rw [hring]
    exact fun t ht => absurd ht List.not_mem_nil
  · rw [hring]
    exact fun t ht => absurd ht List.not_mem_nil

/-- Memory that is not allocated is not a task's, nor a slot's. -/
theorem Good.fresh (h : Good c co) (ht : c.live t = false) (ht0 : t ≠ 0) : t ∉ c.ring ∧ ∀ k, co k ≠ t := by
  refine ⟨fun hm => ?_, ?_⟩
  · rw [h.live t hm] at ht
    cases ht
  · rintro k rfl
    rw [(h.slot k ht0).1] at ht
    cases ht

theorem Good.allocate (h : Good c co) (t : Ptr) : Good (c.allocateTask t) co := by
  have hlive : ∀ p, c.live p = true → (c.allocateTask t).live p = true := by
    intro p hp
    by_cases hpt : p = t
    · rw [hpt]
      exact Function.update_self ..
    · exact (Function.update_of_ne hpt ..).trans hp
  refine ⟨?_, h.calm, fun p hp => hlive p (h.live p hp), fun k hk => ?_⟩
  · rcases h.inv with hc | ⟨xs, hring, hpend⟩
    · exact .inl hc
    · exact .inr ⟨xs, hring.congr rfl rfl rfl rfl, hpend⟩
  · obtain ⟨hl, hco, hin⟩ := h.slot k hk
    exact ⟨hlive _ hl, hco, hin⟩

/-- A task is created in memory of its own. -/
theorem Good.initializeTask {b : Bool} (h : Good c co) (ht : t ∉ c.ring) (ht0 : t ≠ 0) (hlive : c.live t = true)
    (hslot : ∀ k, co k = t → b = true) : Good (c.initializeTask t b) co := by
  have hring := h.inv.ring_create ht ht0 b
  have hnew : (c.initializeTask t b).task t = _ := Sched.initializeTask_self c t b
  refine ⟨h.inv.create ht ht0 b, fun u hu => ?_, fun u hu => ?_, fun k hk => ?_⟩
  · by_cases hut : u = t
    · rw [hut, hnew]
      intro he
      cases he
    · rw [Sched.initializeTask_of_ne hut]
      rw [hring] at hu
      exact h.calm u ((List.mem_append.1 hu).resolve_right fun hm => hut (List.mem_singleton.1 hm))
  · rw [Sched.initializeTask_live]
    rw [hring] at hu
    rcases List.mem_append.1 hu with hu | hu
    · exact h.live u hu
    · rw [List.mem_singleton.1 hu, hlive]
  · obtain ⟨hl, hco, hin⟩ := h.slot k hk
    rw [Sched.initializeTask_live, hring]
    by_cases hkt : co k = t
    · rw [hkt, hnew]
      exact ⟨hlive, hslot k hkt, .inl (List.mem_append_right _ (List.mem_singleton.2 rfl))⟩
    · rw [Sched.initializeTask_of_ne hkt]
      exact ⟨hl, hco, hin.imp_left fun hm => List.mem_append_left _ hm⟩

/-- A slot gets its descriptor. -/
theorem Good.assign (h : Good c co) (hlive : c.live t = true) (hco : (c.task t).coroutine = true) (ht : t ∈ c.ring) :
    Good c (Function.update co k t) := by
  refine ⟨h.inv, h.calm, h.live, fun j hj => ?_⟩
  by_cases hjk : j = k
  · rw [hjk, Function.update_self]
    exact ⟨hlive, hco, .inl ht⟩
  · rw [Function.update_of_ne hjk] at hj ⊢
    exact h.slot j hj

/-- Changes of descriptors, with the same ring. -/
theorem Good.congr (h : Good c co) (hinv : Inv c') (hring : c'.ring = c.ring) (hlive : c'.live = c.live)
    (hcalm : ∀ t ∈ c.ring, (c'.task t).state ≠ .done)
    (htask : ∀ p, (c'.task p).coroutine = (c.task p).coroutine ∧
      ((c.task p).state = .done → (c'.task p).state = .done)) : Good c' co := by
  refine ⟨hinv, ?_, ?_, fun k hk => ?_⟩
  · rw [hring]
    exact hcalm
  · rw [hring, hlive]
    exact h.live
  · obtain ⟨hl, hco, hin⟩ := h.slot k hk
    rw [hring, hlive, (htask _).1]
    exact ⟨hl, hco, hin.imp_right (htask _).2⟩

/-! ## A call of the scheduler -/

/-- The current task went to the end of the ring, and nothing else changed. -/
structure Turned (c c' : Sched) : Prop where
  ring : ∃ xs, c.ring = c.currTask :: xs ∧ c'.ring = xs ++ [c.currTask]
  alike : ∀ p, (c'.task p).Alike (c.task p)
  done : ∀ p, (c.task p).state = .done → (c'.task p).state = .done
  live : c'.live = c.live
  nextTaskId : c'.nextTaskId = c.nextTaskId

/-- The current task left the ring, and its memory was freed unless it was a coroutine's. -/
structure Gone (c c' : Sched) : Prop where
  ring : c.ring = c.currTask :: c'.ring
  alike : ∀ p, (c'.task p).Alike (c.task p)
  done : ∀ p, (c.task p).state = .done → (c'.task p).state = .done
  live : ∀ p, p ≠ c.currTask ∨ (c.task c.currTask).coroutine = true → c'.live p = c.live p
  nextTaskId : c'.nextTaskId = c.nextTaskId

theorem Served.calm {x : Ptr} {xs : List Ptr} (h : Served c x xs) : ∀ t ∈ c.ring, (c.task t).state ≠ .done := by
  rw [h.ring.ring_eq]
  intro t ht
  rcases List.mem_cons.1 ht with rfl | ht
  · rw [h.active]
    decide
  · rw [h.pending t ht]
    decide

theorem Good.schedule (h : Good c co) (hrun : Running c) (hs : c.schedule = some c') : Good c' co ∧ Turned c c' := by
  obtain ⟨xs, hring, ⟨-, rfl, x, xs', hl, hserved⟩ | ⟨hdone, -⟩⟩ := h.inv.schedule_cases hrun hs
  · have hcount : Ringed c.bumpSwitchCnt c.currTask xs := hring.congr rfl rfl rfl rfl
    have hq : c.bumpSwitchCnt.turn.ring = xs ++ [c.currTask] := by rw [hserved.ring.ring_eq, hl]
    have hmem : ∀ t, t ∈ c.bumpSwitchCnt.turn.ring ↔ t ∈ c.ring := fun t => by
      rw [hq, hring.ring_eq, (List.perm_append_singleton c.currTask xs).mem_iff]
    have halike : ∀ p, (c.bumpSwitchCnt.turn.task p).Alike (c.task p) := turn_alike c.bumpSwitchCnt
    have hoff : ∀ p, p ∉ c.ring → c.bumpSwitchCnt.turn.task p = c.task p := fun p hp =>
      hcount.turn_off (hring.ring_eq ▸ hp)
    refine ⟨⟨hserved.inv, hserved.calm, fun t ht => h.live t ((hmem t).1 ht), fun k hk => ?_⟩,
      ⟨⟨xs, hring.ring_eq, hq⟩, halike, fun p hp => ?_, rfl, rfl⟩⟩
    swap
    · rw [hoff p fun hm => h.calm p hm hp, hp]
    obtain ⟨hlive, hco, hin⟩ := h.slot k hk
    refine ⟨hlive, (halike _).coroutine.trans hco, ?_⟩
    by_cases hm : co k ∈ c.ring
    · exact .inl ((hmem _).2 hm)
    · rw [hoff _ hm]
      exact .inr (hin.resolve_left hm)
  · have hmem : c.currTask ∈ c.ring := by
      rw [hring.ring_eq]
      exact List.mem_cons_self
    exact absurd hdone (h.calm _ hmem)

theorem finish_alike (c : Sched) (p : Ptr) :
    ((c.setState c.currTask .done).bumpSwitchCnt.leave.task p).Alike (c.task p) :=
  (leave_alike _ p).trans (c.setState_alike c.currTask p .done)

theorem finish_live {p : Ptr} (hp : p ≠ c.currTask ∨ (c.task c.currTask).coroutine = true) :
    (c.setState c.currTask .done).bumpSwitchCnt.leave.live p = c.live p := by
  apply leave_live (c.setState c.currTask .done).bumpSwitchCnt p
  exact hp.imp_right fun hco => (c.setState_alike c.currTask c.currTask .done).coroutine.trans hco

theorem Good.finish (h : Good c co) (hrun : Running c) (hs : (c.setState c.currTask .done).schedule = some c') :
    Good c' co ∧ Gone c c' := by
  have hdone : ((c.setState c.currTask .done).task c.currTask).state = .done := by rw [Sched.setState_self]
  have hrun' : Running (c.setState c.currTask .done) := by
    refine ⟨hrun.1, ?_⟩
    show ((c.setState c.currTask .done).task c.currTask).state ≠ .pending
    rw [hdone]
    decide
  obtain ⟨xs, hring, ⟨hact, -⟩ | ⟨-, rfl, y, ys, rfl, hserved⟩⟩ := (h.inv.setCurr .done).schedule_cases hrun' hs
  · change ((c.setState c.currTask .done).task c.currTask).state = .active at hact
    rw [hdone] at hact
    cases hact
  · have hq : c.ring = c.currTask :: (y :: ys) := hring.ring_eq
    have hq' := hserved.ring.ring_eq
    have hcount : Ringed (c.setState c.currTask .done).bumpSwitchCnt c.currTask (y :: ys) :=
      hring.congr rfl rfl rfl rfl
    have hoff : ∀ p, p ∉ c.ring → (c.setState c.currTask .done).bumpSwitchCnt.leave.task p = c.task p := by
      intro p hp
      rw [hq] at hp
      rw [hcount.leave_off fun hm => hp (List.mem_cons_of_mem _ hm)]
      exact Sched.setState_of_ne (List.ne_of_not_mem_cons hp) .done
    refine ⟨⟨hserved.inv, hserved.calm, fun t ht => ?_, fun k hk => ?_⟩,
      ⟨by rw [hq, hq'], finish_alike c, fun p hp => ?_, fun _ => finish_live, ?_⟩⟩
    · rw [hq'] at ht
      have htc : t ≠ c.currTask := hring.closed.ne_head ht
      rw [finish_live (.inl htc)]
      exact h.live t (hq ▸ List.mem_cons_of_mem _ ht)
    · obtain ⟨hl, hco, hin⟩ := h.slot k hk
      refine ⟨?_, (finish_alike c _).coroutine.trans hco, ?_⟩
      · rw [finish_live, hl]
        by_cases hkc : co k = c.currTask
        · exact .inr (hkc ▸ hco)
        · exact .inl hkc
      · rw [hq']
        by_cases hm : co k ∈ y :: ys
        · exact .inl hm
        · right
          by_cases hkc : co k = c.currTask
          · rw [hcount.leave_off hm, hkc]
            exact hdone
          · have hnot : co k ∉ c.ring := by
              rw [hq]
              exact fun hm' => (List.mem_cons.1 hm').elim hkc hm
            rw [hoff _ hnot]
            exact hin.resolve_left hnot
    · rw [hoff p fun hm => h.calm p hm hp, hp]
    · exact leave_nextTaskId _

/-! ## Property and condition -/

/-- A step initializes no descriptor of the ring, and replaces no descriptor that is in the ring. -/
def Exclusive (s : System) (_ : Call) (s' : System) : Prop :=
  (∀ t id, s'.inits = (t, id) :: s.inits → t ∉ s.sched.ring) ∧
    ∀ k, s'.coroutines k ≠ s.coroutines k → s.coroutines k ∉ s.sched.ring

/-- A task that found a slot finds it free. -/
def RecheckedAt (s : System) : Pc → Prop
  | .found k => s.Free k
  | _ => True

instance (s : System) : ∀ pc, Decidable (RecheckedAt s pc)
  | .found k => inferInstanceAs (Decidable (s.Free k))
  | .running | .searching | .waiting .. | .returned | .looping => isTrue trivial

/-- The slot `Yield_Run` found is still free when it goes on after its `Yield()`. -/
def Rechecked (s : System) : Call → Prop
  | .resume _ _ => Running s.sched → RecheckedAt s (s.pc s.sched.currTask)
  | _ => True

instance (s : System) : ∀ e, Decidable (Rechecked s e)
  | .resume .. => inferInstanceAs (Decidable (Running s.sched → RecheckedAt s (s.pc s.sched.currTask)))
  | .task _ | .start | .yield | .run | .wait .. | .ret => isTrue trivial

/-! ## Steps that start no task -/

/-- No task is started, and the slots are as they were. -/
structure Quiet (s s' : System) : Prop where
  good : Good s'.sched s'.coroutines
  inits : s'.inits = s.inits
  coroutines : s'.coroutines = s.coroutines

variable {s s' : System} {pc : Pc}

theorem switch_some (hs : s.switch pc = some s') :
    ∃ c, s.sched.schedule = some c ∧ s' = { s with
      sched := c
      pc := Function.update s.pc s.sched.currTask pc
      ret := Function.update s.ret s.sched.currTask none } := by
  obtain ⟨c, hc, rfl⟩ := Option.map_eq_some_iff.1 hs
  exact ⟨c, hc, rfl⟩

theorem Quiet.exclusive (h : Quiet s s') (e : Call) : Exclusive s e s' := by
  refine ⟨fun t id ht => ?_, fun k hk => ?_⟩
  · rw [h.inits] at ht
    exact absurd (congrArg List.length ht) (Nat.ne_of_lt (Nat.lt_succ_self _))
  · exact absurd (congrFun h.coroutines k) hk

theorem Quiet.iff {p : Prop} {e : Call} (hp : p) (h : Quiet s s') :
    (Exclusive s e s' ↔ p) ∧ (p → Good s'.sched s'.coroutines) :=
  ⟨iff_of_true (h.exclusive e) hp, fun _ => h.good⟩

theorem Good.start (h : Good c co) (hcurr : c.currTask ≠ 0) : Good (c.setState c.currTask .active) co := by
  obtain ⟨xs, hserved⟩ := h.inv.start_served hcurr
  refine h.congr hserved.inv rfl rfl hserved.calm fun p => ⟨(c.setState_alike _ _ _).coroutine, fun hst => ?_⟩
  by_cases hp : p = c.currTask
  · obtain ⟨ys, hring, -⟩ := h.inv.ringed hcurr
    have hmem : p ∈ c.ring := by
      rw [hring.ring_eq, hp]
      exact List.mem_cons_self
    exact absurd hst (h.calm p hmem)
  · rw [Sched.setState_of_ne hp]
    exact hst

theorem Running.setHandlerDone (h : Running c) (p : Ptr) : Running (c.setHandlerDone p) := by
  refine ⟨h.1, ?_⟩
  rw [Sched.setHandlerDone_state]
  exact h.2

section Quiet

variable (h : Good s.sched s.coroutines)
include h

theorem quiet_answer (r : Ret) : Quiet s (s.answer r) := ⟨h, rfl, rfl⟩

theorem quiet_switch (hrun : Running s.sched) (hs : s.switch pc = some s') : Quiet s s' := by
  obtain ⟨c, hc, rfl⟩ := switch_some hs
  exact ⟨(h.schedule hrun hc).1, rfl, rfl⟩

theorem quiet_search (hrun : Running s.sched) (hs : s.search = some s') : Quiet s s' := by
  unfold System.search at hs
  split at hs
  · exact quiet_switch h hrun hs
  · exact quiet_switch h hrun hs

theorem quiet_waitPass {t : Ptr} {id : BitVec 32} {w : Wait} {now : BitVec 32} (hrun : Running s.sched)
    (hs : s.waitPass t id w now = some s') : Quiet s s' := by
  unfold System.waitPass at hs
  split at hs
  · obtain rfl := Option.some.inj hs
    exact quiet_answer h .eok
  split at hs
  · obtain rfl := Option.some.inj hs
    exact quiet_answer h .etimeout
  · exact quiet_switch h hrun hs

theorem quiet_wait {id : BitVec 32} {w : Wait} {now : BitVec 32} (hrun : Running s.sched)
    (hs : s.wait id w now = some s') : Quiet s s' := by
  unfold System.wait at hs
  split at hs
  · obtain rfl := Option.some.inj hs
    exact quiet_answer h .eok
  · exact quiet_waitPass h hrun hs

/-- `handler_done` is set. -/
theorem Good.setHandlerDone (p : Ptr) : Good (s.sched.setHandlerDone p) s.coroutines := by
  refine h.congr ?_ rfl rfl (fun t ht => ?_) fun q => ⟨Sched.setHandlerDone_coroutine .., fun hst => ?_⟩
  · rcases h.inv with hc | ⟨xs, hring, hpend⟩
    · exact .inl hc
    · exact .inr ⟨xs, hring.setTask _ _, fun t ht => (Sched.setHandlerDone_state ..).trans (hpend t ht)⟩
  · rw [Sched.setHandlerDone_state]
    exact h.calm t ht
  · rw [Sched.setHandlerDone_state]
    exact hst

theorem quiet_handlerReturns (hrun : Running s.sched) (hs : s.handlerReturns = some s') : Quiet s s' := by
  unfold System.handlerReturns at hs
  dsimp only at hs
  split at hs
  · obtain ⟨c, hc, rfl⟩ := switch_some hs
    exact ⟨(h.schedule hrun hc).1, rfl, rfl⟩
  · have hgood := h.setHandlerDone s.sched.currTask
    obtain ⟨c, hc, rfl⟩ := switch_some hs
    exact ⟨(hgood.schedule (hrun.setHandlerDone _) hc).1, rfl, rfl⟩

theorem quiet_finish (hrun : Running s.sched) (hs : s.finish = some s') : Quiet s s' := by
  obtain ⟨c, hc, rfl⟩ := switch_some hs
  exact ⟨(h.finish hrun hc).1, rfl, rfl⟩

end Quiet

/-! ## Steps that start a task -/

theorem Good.null_not_mem (h : Good c co) : (0 : Ptr) ∉ c.ring := by
  rcases h.inv with ⟨-, hcnt⟩ | ⟨xs, hring, -⟩
  · rw [ring_of_taskCnt hcnt]
    exact List.not_mem_nil
  · rw [hring.ring_eq]
    exact hring.null

theorem allocate_self (c : Sched) (t : Ptr) : (c.allocateTask t).live t = true := Function.update_self ..

/-- `Yield_Task` -/
theorem task_good (h : Good s.sched s.coroutines) {t : Ptr} (ht : s.Available t) :
    Good (s.yieldTask t).sched (s.yieldTask t).coroutines ∧ Exclusive s (.task t) (s.yieldTask t) := by
  unfold System.yieldTask
  split
  · exact ⟨h, Quiet.exclusive ⟨h, rfl, rfl⟩ _⟩
  · rename_i ht0
    obtain ⟨hring, hslot⟩ := h.fresh (ht.resolve_left ht0) ht0
    refine ⟨(h.allocate t).initializeTask hring ht0 (allocate_self ..) fun k hk => absurd hk (hslot k), fun u id hu => ?_,
      fun k hk => absurd rfl hk⟩
    obtain rfl := (Prod.mk.inj (List.cons.inj hu).1).1
    exact hring

/-- A coroutine in a slot whose descriptor is not in the ring. -/
theorem launch_good (h : Good s.sched s.coroutines) (hring : s.coroutines k ∉ s.sched.ring) (h0 : s.coroutines k ≠ 0) :
    Good (s.launch k).sched (s.launch k).coroutines :=
  h.initializeTask hring h0 (h.slot k h0).1 fun _ _ => rfl

/-- A coroutine in an empty slot, which gets new memory. -/
theorem launch_fresh (h : Good s.sched s.coroutines) {t : Ptr} (ht : s.sched.live t = false) (ht0 : t ≠ 0) :
    Good (System.launch { s.allocate t with coroutines := Function.update s.coroutines k t } k).sched
      (Function.update s.coroutines k t) := by
  obtain ⟨hring, hslot⟩ := h.fresh ht ht0
  have hinit : Good ((s.sched.allocateTask t).initializeTask t true) s.coroutines :=
    (h.allocate t).initializeTask hring ht0 (allocate_self ..) fun k hk => absurd hk (hslot k)
  have hsched : (System.launch { s.allocate t with coroutines := Function.update s.coroutines k t } k).sched =
      (s.sched.allocateTask t).initializeTask t true := by
    show (s.sched.allocateTask t).initializeTask (Function.update s.coroutines k t k) true = _
    rw [Function.update_self]
  rw [hsched]
  apply hinit.assign
  · rw [Sched.initializeTask_live]
    exact allocate_self ..
  · rw [Sched.initializeTask_self]
  · rw [(h.allocate t).inv.ring_create hring ht0]
    exact List.mem_append_right _ (List.mem_singleton.2 rfl)

/-- **`Yield_Run` after its `Yield()`** is exclusive exactly if the slot is still free, and then all is well again. -/
theorem claim_iff (h : Good s.sched s.coroutines) {t : Ptr} (e : Call) (hs : s.claim k t = some s') :
    (Exclusive s e s' ↔ s.Free k) ∧ (s.Free k → Good s'.sched s'.coroutines) := by
  unfold System.claim at hs
  split at hs
  · rename_i hk0
    have hfree : s.Free k := .inl hk0
    split at hs
    · obtain rfl := Option.some.inj hs
      have hq := quiet_answer h .efatal
      exact ⟨iff_of_true (hq.exclusive e) hfree, fun _ => hq.good⟩
    rename_i ht0
    split at hs
    · rename_i hav
      obtain rfl := Option.some.inj hs
      have hlive := hav.resolve_left ht0
      refine ⟨iff_of_true ⟨fun u id hu => ?_, fun j hj => ?_⟩ hfree, fun _ => launch_fresh h hlive ht0⟩
      · have hut : Function.update s.coroutines k t k = u := (Prod.mk.inj (List.cons.inj hu).1).1
        rw [← hut, Function.update_self]
        exact (h.fresh hlive ht0).1
      · have hjk : j = k := by
          by_contra hne
          exact hj (Function.update_of_ne hne ..)
        rw [hjk, hk0]
        exact h.null_not_mem
    · cases hs
  · rename_i hk0
    obtain rfl := Option.some.inj hs
    have hfree : s.Free k ↔ s.coroutines k ∉ s.sched.ring := by
      constructor
      · rintro (h0 | hdone) hm
        · exact hk0 h0
        · exact h.calm _ hm hdone
      · exact fun hm => .inr ((h.slot k hk0).2.2.resolve_left hm)
    rw [hfree]
    refine ⟨⟨fun hx => hx.1 _ _ rfl, fun hm => ⟨fun u id hu => ?_, fun j hj => absurd rfl hj⟩⟩, fun hm => launch_good h hm hk0⟩
    obtain rfl := (Prod.mk.inj (List.cons.inj hu).1).1
    exact hm

theorem rechecked_resume {t : Ptr} {now : BitVec 32} (hrun : Running s.sched) :
    Rechecked s (.resume t now) ↔ RecheckedAt s (s.pc s.sched.currTask) :=
  imp_iff_right hrun

/-- One step. -/
theorem step_iff {e : Call} (h : Good s.sched s.coroutines) (hs : s.step e = some s') :
    (Exclusive s e s' ↔ Rechecked s e) ∧ (Rechecked s e → Good s'.sched s'.coroutines) := by
  cases e with
  | task t =>
      obtain ⟨⟨hav, -⟩, rfl⟩ := (Option.ite_none_right_eq_some.1 hs).imp_right Option.some.inj
      obtain ⟨hgood, hex⟩ := task_good h hav
      exact ⟨iff_of_true hex trivial, fun _ => hgood⟩
  | start =>
      obtain ⟨-, hs⟩ := Option.ite_none_left_eq_some.1 hs
      obtain ⟨c, hc, rfl⟩ := Option.map_eq_some_iff.1 hs
      obtain ⟨hcurr, rfl⟩ := (Option.ite_none_left_eq_some.1 hc).imp_right Option.some.inj
      exact Quiet.iff trivial ⟨h.start hcurr, rfl, rfl⟩
  | yield =>
      obtain ⟨hin, hs⟩ := Option.ite_none_right_eq_some.1 hs
      exact Quiet.iff trivial (quiet_switch h hin.1 hs)
  | run =>
      obtain ⟨hin, hs⟩ := Option.ite_none_right_eq_some.1 hs
      exact Quiet.iff trivial (quiet_search h hin.1 hs)
  | wait id timeout ts now =>
      obtain ⟨hin, hs⟩ := Option.ite_none_right_eq_some.1 hs
      exact Quiet.iff trivial (quiet_wait h hin.1 hs)
  | ret =>
      obtain ⟨hin, hs⟩ := Option.ite_none_right_eq_some.1 hs
      exact Quiet.iff trivial (quiet_handlerReturns h hin.1 hs)
  | resume t now =>
      obtain ⟨hrun, hs⟩ := Option.ite_none_right_eq_some.1 hs
      rw [rechecked_resume hrun]
      unfold System.resume at hs
      cases hpc : s.pc s.sched.currTask with
      | running =>
          rw [hpc] at hs
          cases hs
      | searching =>
          rw [hpc] at hs
          exact Quiet.iff trivial (quiet_search h hrun hs)
      | found k =>
          rw [hpc] at hs
          exact claim_iff h (.resume t now) hs
      | waiting u id w =>
          rw [hpc] at hs
          exact Quiet.iff trivial (quiet_waitPass h hrun hs)
      | returned =>
          rw [hpc] at hs
          exact Quiet.iff trivial (quiet_finish h hrun hs)
      | looping =>
          rw [hpc] at hs
          exact Quiet.iff trivial (quiet_switch h hrun hs)

theorem rechecked_of_none {e : Call} (h : s.step e = none) : Rechecked s e := by
  cases e with
  | resume t now =>
      intro hrun
      have hres : s.resume t now = none := by
        rw [← h]
        exact (if_pos hrun).symm
      unfold System.resume at hres
      cases hpc : s.pc s.sched.currTask with
      | found k =>
          rw [hpc] at hres
          apply Or.inl
          by_contra hk0
          have hlaunch : s.claim k t = some (s.launch k) := if_neg hk0
          exact Option.some_ne_none _ (hlaunch.symm.trans hres)
      | _ => trivial
  | _ => trivial

theorem along_exclusive_iff (h : Good s.sched s.coroutines) (es : List Call) :
    Along System.step Exclusive s es ↔ Meets System.step Rechecked s es :=
  @along_iff_meets _ _ System.step (fun s => Good s.sched s.coroutines) Rechecked Exclusive
    (fun _ _ _ hs => rechecked_of_none hs) (fun _ _ _ h hs => step_iff h hs) s es h

theorem System.Boot.good (h : s.Boot) : Good s.sched s.coroutines := by
  have hco : s.coroutines = fun _ => 0 := funext h.coroutines
  rw [hco]
  exact good_of_boot h.sched

/-- **Ownership of coroutine slots, over every run**: no descriptor of the ring is initialized and none is replaced,
exactly if every caller of `Yield_Run` still finds its slot free after its `Yield()`. -/
theorem exclusive_iff_rechecked {s₀ : System} (h₀ : s₀.Boot) (es : List Call) :
    Along System.step Exclusive s₀ es ↔ Meets System.step Rechecked s₀ es :=
  along_exclusive_iff h₀.good es

/-- Cleared memory after reset. -/
def System.cleared : System := ⟨reset, fun _ => 0, fun _ => .running, fun _ => none, 0, fun _ => false, []⟩

theorem cleared_boot : System.cleared.Boot := ⟨reset_boot, fun _ => rfl, rfl, fun _ => rfl, rfl⟩

/-- Two tasks call `Yield_Run` one after the other. -/
theorem exclusive_iff_rechecked_takingTurns :
    Along System.step Exclusive System.cleared
      [.task 16, .start, .task 32, .run, .yield, .resume 48 0, .yield, .run, .ret, .yield, .resume 64 0] :=
  (exclusive_iff_rechecked cleared_boot _).2 (by decide +kernel)

/-- Two tasks call `Yield_Run`, and both find the first slot before one of them takes it. -/
theorem not_exclusive_overlapping :
    ¬ Along System.step Exclusive System.cleared
      [.task 16, .start, .task 32, .run, .run, .resume 48 0, .yield, .resume 64 0] := by
  rw [along_exclusive_iff cleared_boot.good]
  decide +kernel

end YieldStm32.Yield
