import YieldStm32.Sys.Yield.Tasks

/-!
# Shielding and cancellation (`sys/src/yield.c`)

`Yield_Shield`, `Yield_Cancel` and `Yield_IsCancelled`, beside the calls of `System.step`. Memory that is not allocated is
written at any time, so a descriptor may hold anything when it is initialized.

Ghost state: `clean`, the descriptors whose task has not called `Yield_Shield` since it was created, nor was named in a
call of `Yield_Cancel`.

* `StartsClean` : tasks that are `clean` are neither shielded nor cancelled, and nothing observed of a new task depends
  on what its descriptor held before;
* `startsClean_iff` : over every run, where each descriptor handed to `Yield_InitializeTask` holds no shield.
-/

namespace YieldStm32.Yield

open Transition

/-- What the memory of a descriptor holds. -/
structure Content where
  task : Task
  next : Ptr
  prev : Ptr

namespace Sched

/-- `Yield_Shield` -/
def shield (c : Sched) (enable : Bool) : Sched :=
  c.setTask c.currTask { c.task c.currTask with shielded := enable }

/-- `t->cancelled = 1` -/
def setCancelled (c : Sched) (t : Ptr) : Sched := c.setTask t { c.task t with cancelled := true }

/-- `Yield_IsCancelled` -/
def isCancelled (c : Sched) : Bool := !(c.task c.currTask).shielded && (c.task c.currTask).cancelled

/-- The scheduler with something else in the memory at `t`. -/
def refill (c : Sched) (t : Ptr) (d : Content) : Sched := ((c.setTask t d.task).setNext t d.next).setPrev t d.prev

end Sched

namespace System

/-- `Yield_Cancel` -/
def cancel (s : System) (id : BitVec 32) : System :=
  match s.sched.getTaskByID id with
  | some t => { s with sched := s.sched.setCancelled t }.answer .eok
  | none => s.answer .efatal

def refill (s : System) (t : Ptr) (d : Content) : System := { s with sched := s.sched.refill t d }

/-- The descriptor an event passes to `Yield_InitializeTask`, if it is enabled (`step_initializes`). -/
def target (s : System) : Call → Option Ptr
  | .task t => if t = 0 then none else some t
  | .resume t _ =>
      match s.pc s.sched.currTask with
      | .found k => if s.coroutines k = 0 then (if t = 0 then none else some t) else some (s.coroutines k)
      | _ => none
  | _ => none

/-- The descriptor an event passes to `Yield_InitializeTask`. -/
def handed (s : System) (e : Call) : Option Ptr := (s.target e).filter fun _ => (s.step e).isSome

end System

/-- A call of the current task, or a write to memory that is not allocated. -/
inductive Act where
  | call (e : Call)
  | shield (enable : Bool)
  | cancel (id : BitVec 32)
  | write (t : Ptr) (d : Content)

structure Marked where
  sys : System
  clean : Ptr → Bool

namespace Marked

def step (s : Marked) : Act → Option Marked
  | .call e => (s.sys.step e).map fun sys =>
      ⟨sys, (s.sys.target e).elim s.clean fun t => Function.update s.clean t true⟩
  | .shield enable =>
      if s.sys.InHandler then
        some ⟨{ s.sys with sched := s.sys.sched.shield enable }, Function.update s.clean s.sys.sched.currTask false⟩
      else none
  | .cancel id =>
      if s.sys.InHandler then
        some ⟨s.sys.cancel id, fun p => s.clean p && decide ((s.sys.sched.task p).id ≠ id)⟩
      else none
  | .write t d =>
      if s.sys.sched.live t = false then some ⟨s.sys.refill t d, Function.update s.clean t false⟩ else none

def refill (s : Marked) (t : Ptr) (d : Content) : Marked := { s with sys := s.sys.refill t d }

/-- The descriptor an act passes to `Yield_InitializeTask`. -/
def handed (s : Marked) : Act → Option Ptr
  | .call e => s.sys.handed e
  | _ => none

/-- What the current task sees: that it runs, its id, what its call returned, and what `Yield_IsCancelled` returns. -/
structure View where
  currTask : Ptr
  id : BitVec 32
  ret : Option Ret
  cancelled : Bool
deriving DecidableEq

def view (s : Marked) : View :=
  let c := s.sys.sched
  ⟨c.currTask, (c.task c.currTask).id, s.sys.ret c.currTask, c.isCancelled⟩

/-- What is seen along a run. -/
def views (s : Marked) (as : List Act) : List View := trace step (fun _ _ s' => [s'.view]) s as

/-- The tasks that are `clean` are neither shielded nor cancelled. -/
def Unmarked (s : Marked) : Prop :=
  ∀ p, s.clean p = true → (s.sys.sched.task p).shielded = false ∧ (s.sys.sched.task p).cancelled = false

/-- **New tasks start clean**: no task is shielded or cancelled before it calls `Yield_Shield` or is named in a call of
`Yield_Cancel`; and with anything else that holds no shield in its descriptor, every run goes on with the same views. -/
structure StartsClean (s : Marked) (a : Act) (s' : Marked) : Prop where
  unmarked : s'.Unmarked
  independent : ∀ t ∈ s.handed a, t ≠ s.sys.sched.currTask → ∀ d : Content, d.task.shielded = false →
    ∀ as, (s.refill t d).views (a :: as) = s.views (a :: as)

/-- The descriptor initialized holds no shield. -/
def Unshielded (s : Marked) (a : Act) : Prop := ∀ t ∈ s.handed a, (s.sys.sched.task t).shielded = false

instance (s : Marked) (a : Act) : Decidable (s.Unshielded a) := Option.decidableForallMem (s.handed a)

end Marked

/-! ## The flags -/

/-- What becomes of the flags of `p`, where `o` is initialized. -/
def Flags (o : Option Ptr) (c c' : Sched) (p : Ptr) : Prop :=
  (c'.task p).shielded = (c.task p).shielded ∧
    (c'.task p).cancelled = if o = some p then false else (c.task p).cancelled

/-- The descriptor `o` is initialized, and no flag is written but its own `cancelled`. -/
structure Initializes (o : Option Ptr) (s s' : System) : Prop where
  inits : s'.inits = o.elim s.inits fun t => (t, s.sched.nextTaskId) :: s.inits
  flags : ∀ p, Flags o s.sched s'.sched p

theorem Task.Alike.shielded {a b : Task} (h : a.Alike b) : a.shielded = b.shielded := congrArg (fun t => t.shielded) h

theorem Task.Alike.cancelled {a b : Task} (h : a.Alike b) : a.cancelled = b.cancelled :=
  congrArg (fun t => t.cancelled) h

variable {c c' : Sched} {s s' : System} {p t : Ptr}

theorem Flags.of_alike (h : (c'.task p).Alike (c.task p)) : Flags none c c' p := ⟨h.shielded, h.cancelled⟩

/-- A call of the scheduler changes states only. -/
theorem scheduleLoop_alike {n : Nat} (h : Sched.scheduleLoop n c = some c') (p : Ptr) :
    (c'.task p).Alike (c.task p) := by
  induction n generalizing c with
  | zero => cases h
  | succ n ih =>
      unfold Sched.scheduleLoop at h
      split at h
      · dsimp only at h
        split at h
        · have halike := ih h
          rwa [Sched.releaseTask_task, Sched.unlinkTask_task] at halike
        · cases h
      · exact (ih h).trans (c.setState_alike c.currTask p .pending)
      · obtain rfl := Option.some.inj h
        exact c.setState_alike c.currTask p .active

/-- A call of the scheduler, after other changes that initialize nothing. -/
theorem Initializes.switch {u : System} {pc : Pc} (h : Initializes none s u) (hs : u.switch pc = some s') :
    Initializes none s s' := by
  obtain ⟨c, hc, rfl⟩ := switch_some hs
  refine ⟨h.inits, fun p => ?_⟩
  have halike := scheduleLoop_alike hc p
  exact ⟨halike.shielded.trans (h.flags p).1, halike.cancelled.trans (h.flags p).2⟩

theorem Initializes.refl (s : System) : Initializes none s s := ⟨rfl, fun _ => ⟨rfl, rfl⟩⟩

theorem Initializes.answer (s : System) (r : Ret) : Initializes none s (s.answer r) := ⟨rfl, fun _ => ⟨rfl, rfl⟩⟩

theorem Initializes.create (s : System) (t : Ptr) (co : Bool) : Initializes (some t) s (s.create t co) where
  inits := rfl
  flags p := by
    show Flags (some t) s.sched (s.sched.initializeTask t co) p
    unfold Flags
    by_cases hp : p = t
    · subst hp
      rw [Sched.initializeTask_self, if_pos rfl]
      exact ⟨rfl, rfl⟩
    · rw [Sched.initializeTask_of_ne hp, if_neg fun h => hp (Option.some.inj h).symm]
      exact ⟨rfl, rfl⟩

theorem waitPass_initializes {id now : BitVec 32} {w : Wait} (h : s.waitPass t id w now = some s') :
    Initializes none s s' := by
  unfold System.waitPass at h
  split at h
  · obtain rfl := Option.some.inj h
    exact .answer s .eok
  split at h
  · obtain rfl := Option.some.inj h
    exact .answer s .etimeout
  · exact (Initializes.refl s).switch h

theorem search_initializes (h : s.search = some s') : Initializes none s s' := by
  unfold System.search at h
  split at h
  · exact (Initializes.refl s).switch h
  · exact (Initializes.refl s).switch h

theorem handlerReturns_initializes (h : s.handlerReturns = some s') : Initializes none s s' := by
  unfold System.handlerReturns at h
  dsimp only at h
  split at h
  · refine Initializes.switch ⟨?_, fun p => ?_⟩ h
    · rfl
    · exact ⟨rfl, rfl⟩
  · refine Initializes.switch ⟨?_, fun p => ?_⟩ h
    · rfl
    · show Flags none s.sched (s.sched.setHandlerDone s.sched.currTask) p
      unfold Flags
      by_cases hp : p = s.sched.currTask
      · subst hp
        rw [Sched.setHandlerDone_self]
        exact ⟨rfl, rfl⟩
      · rw [Sched.setHandlerDone_of_ne hp]
        exact ⟨rfl, rfl⟩

theorem finish_initializes (h : s.finish = some s') : Initializes none s s' := by
  unfold System.finish at h
  refine Initializes.switch ⟨?_, fun p => ?_⟩ h
  · rfl
  · exact .of_alike (s.sched.setState_alike s.sched.currTask p .done)

theorem claim_initializes {k : Fin coroMaxNum} (h : s.claim k t = some s') :
    Initializes (if s.coroutines k = 0 then (if t = 0 then none else some t) else some (s.coroutines k)) s s' := by
  unfold System.claim at h
  split at h
  · rename_i hk
    rw [if_pos hk]
    split at h
    · rename_i ht
      rw [if_pos ht]
      obtain rfl := Option.some.inj h
      exact .answer s .efatal
    · rename_i ht
      rw [if_neg ht]
      split at h
      · obtain rfl := Option.some.inj h
        have hnew := Initializes.create { s.allocate t with coroutines := Function.update s.coroutines k t }
          (Function.update s.coroutines k t k) true
        rw [Function.update_self] at hnew
        unfold System.launch
        dsimp only
        rw [Function.update_self]
        exact ⟨hnew.inits, hnew.flags⟩
      · cases h
  · rename_i hk
    rw [if_neg hk]
    obtain rfl := Option.some.inj h
    have hnew := Initializes.create s (s.coroutines k) true
    exact ⟨hnew.inits, hnew.flags⟩

/-- **One step and the flags**: only `Yield_InitializeTask` writes them, and it clears `cancelled` alone. -/
theorem step_initializes {e : Call} (h : s.step e = some s') : Initializes (s.target e) s s' := by
  cases e with
  | task t =>
      obtain ⟨-, rfl⟩ := (Option.ite_none_right_eq_some.1 h).imp_right Option.some.inj
      show Initializes (if t = 0 then none else some t) s (s.yieldTask t)
      unfold System.yieldTask
      split
      · exact .refl s
      · have hnew := Initializes.create (s.allocate t) t false
        exact ⟨hnew.inits, hnew.flags⟩
  | start =>
      obtain ⟨-, h⟩ := Option.ite_none_left_eq_some.1 h
      obtain ⟨c, hc, rfl⟩ := Option.map_eq_some_iff.1 h
      obtain ⟨-, rfl⟩ := (Option.ite_none_left_eq_some.1 hc).imp_right Option.some.inj
      exact ⟨rfl, fun p => .of_alike (s.sched.setState_alike s.sched.currTask p .active)⟩
  | yield =>
      obtain ⟨-, h⟩ := Option.ite_none_right_eq_some.1 h
      exact (Initializes.refl s).switch h
  | run =>
      obtain ⟨-, h⟩ := Option.ite_none_right_eq_some.1 h
      exact search_initializes h
  | wait id timeout ts now =>
      obtain ⟨-, h⟩ := Option.ite_none_right_eq_some.1 h
      unfold System.wait at h
      split at h
      · obtain rfl := Option.some.inj h
        exact .answer s .eok
      · exact waitPass_initializes h
  | ret =>
      obtain ⟨-, h⟩ := Option.ite_none_right_eq_some.1 h
      exact handlerReturns_initializes h
  | resume t now =>
      obtain ⟨-, h⟩ := Option.ite_none_right_eq_some.1 h
      unfold System.resume at h
      unfold System.target
      cases hpc : s.pc s.sched.currTask with
      | running =>
          rw [hpc] at h
          cases h
      | searching =>
          rw [hpc] at h
          exact search_initializes h
      | found k =>
          rw [hpc] at h
          exact claim_initializes h
      | waiting u id w =>
          rw [hpc] at h
          exact waitPass_initializes h
      | returned =>
          rw [hpc] at h
          exact finish_initializes h
      | looping =>
          rw [hpc] at h
          exact (Initializes.refl s).switch h

/-! ## What a descriptor held before -/

/-- The first half of `Yield_InitializeTask` writes every field but the shield. -/
theorem fillTask_refill {d : Content} (hd : d.task.shielded = (c.task t).shielded) (co : Bool) :
    (c.refill t d).fillTask t co = ((c.fillTask t co).setNext t d.next).setPrev t d.prev := by
  have htask : ((c.refill t d).fillTask t co).task = (c.fillTask t co).task := by
    show Function.update (Function.update c.task t d.task) t _ = Function.update c.task t _
    rw [Function.update_idem]
    congr 1
    show Task.mk _ _ _ (Function.update c.task t d.task t).shielded _ _ = Task.mk _ _ _ _ _ _
    rw [Function.update_self, hd]
    rfl
  show { (c.fillTask t co) with
    next := Function.update c.next t d.next
    prev := Function.update c.prev t d.prev
    task := ((c.refill t d).fillTask t co).task } = _
  rw [htask]
  rfl

theorem linkTask_of_current (h0 : c.currTask ≠ 0) (ht : t ≠ c.currTask) : c.linkTask t = { c with
    next := Function.update (Function.update c.next t c.currTask) (c.prev c.currTask) t
    prev := Function.update (Function.update c.prev t (c.prev c.currTask)) c.currTask t } := by
  rw [Sched.linkTask, if_neg h0]
  show { c with
    next := Function.update (Function.update c.next t c.currTask)
      (Function.update c.prev t (c.prev c.currTask) c.currTask) t
    prev := _ } = _
  rw [Function.update_of_ne (Ne.symm ht)]
  rfl

/-- The second half writes both links, and reads neither of them. -/
theorem linkTask_links (ht : t ≠ c.currTask) (n q : Ptr) : ((c.setNext t n).setPrev t q).linkTask t = c.linkTask t := by
  by_cases h0 : c.currTask = 0
  · rw [Sched.linkTask, Sched.linkTask, if_pos h0, if_pos (show ((c.setNext t n).setPrev t q).currTask = 0 from h0)]
    show { c with
      next := Function.update (Function.update c.next t n) t t
      prev := Function.update (Function.update c.prev t q) t t
      currTask := t } = _
    rw [Function.update_idem, Function.update_idem]
    rfl
  · have hprev : ((c.setNext t n).setPrev t q).prev c.currTask = c.prev c.currTask :=
      Function.update_of_ne (Ne.symm ht) ..
    rw [linkTask_of_current h0 ht, linkTask_of_current (c := (c.setNext t n).setPrev t q) h0 ht]
    show { c with
      next := Function.update (Function.update (Function.update c.next t n) t c.currTask)
        (((c.setNext t n).setPrev t q).prev c.currTask) t
      prev := Function.update (Function.update (Function.update c.prev t q) t
        (((c.setNext t n).setPrev t q).prev c.currTask)) c.currTask t } = _
    rw [hprev, Function.update_idem, Function.update_idem]

theorem initializeTask_refill {d : Content} (ht : t ≠ c.currTask) (hd : d.task.shielded = (c.task t).shielded)
    (co : Bool) : (c.refill t d).initializeTask t co = c.initializeTask t co := by
  unfold Sched.initializeTask
  rw [fillTask_refill hd, linkTask_links (c := c.fillTask t co) ht]

theorem create_refill {d : Content} (ht : t ≠ s.sched.currTask) (hd : d.task.shielded = (s.sched.task t).shielded)
    (co : Bool) : (s.refill t d).create t co = s.create t co := by
  have hinit := initializeTask_refill ht hd co
  unfold System.create
  show { s with sched := (s.sched.refill t d).initializeTask t co, pc := _, ret := _, returned := _, inits := _ } = _
  rw [hinit]
  rfl

theorem launch_refill {k : Fin coroMaxNum} {d : Content} (hk : s.coroutines k = t) (ht : t ≠ s.sched.currTask)
    (hd : d.task.shielded = (s.sched.task t).shielded) : (s.refill t d).launch k = s.launch k := by
  show ((s.refill t d).create (s.coroutines k) true).answer
    (.taskId (((s.refill t d).create (s.coroutines k) true).sched.task (s.coroutines k)).id) = _
  rw [hk, create_refill ht hd, ← hk]
  rfl

theorem running_refill {d : Content} (ht : t ≠ c.currTask) : Running (c.refill t d) ↔ Running c := by
  have htask : (c.refill t d).task c.currTask = c.task c.currTask := Function.update_of_ne (Ne.symm ht) ..
  show c.currTask ≠ 0 ∧ ((c.refill t d).task c.currTask).state ≠ .pending ↔ _
  rw [htask]
  exact Iff.rfl

theorem yieldTask_refill {d : Content} (ht : t ≠ s.sched.currTask) (hd : d.task.shielded = (s.sched.task t).shielded)
    (h0 : t ≠ 0) : (s.refill t d).yieldTask t = s.yieldTask t := by
  unfold System.yieldTask
  rw [if_neg h0, if_neg h0]
  exact create_refill (s := s.allocate t) ht hd false

theorem claim_refill {k : Fin coroMaxNum} {u : Ptr} {d : Content} (ht : t ≠ s.sched.currTask)
    (hd : d.task.shielded = (s.sched.task t).shielded)
    (hk : (if s.coroutines k = 0 then (if u = 0 then none else some u) else some (s.coroutines k)) = some t) :
    (s.refill t d).claim k u = s.claim k u := by
  unfold System.claim
  by_cases hk0 : s.coroutines k = 0
  · rw [if_pos hk0, if_pos (show (s.refill t d).coroutines k = 0 from hk0)]
    rw [if_pos hk0] at hk
    obtain ⟨hu0, hk⟩ := Option.ite_none_left_eq_some.1 hk
    obtain rfl := Option.some.inj hk
    rw [if_neg hu0, if_neg hu0]
    congr 1
    exact congrArg some (launch_refill (s := { s.allocate u with coroutines := Function.update s.coroutines k u })
      (Function.update_self ..) ht hd)
  · rw [if_neg hk0, if_neg (show (s.refill t d).coroutines k ≠ 0 from hk0)]
    rw [if_neg hk0] at hk
    rw [launch_refill (Option.some.inj hk) ht hd]

/-- **The step that initializes a descriptor does not depend on what it held**, but for the shield. -/
theorem step_refill {e : Call} {d : Content} (hh : s.handed e = some t) (ht : t ≠ s.sched.currTask)
    (hd : d.task.shielded = (s.sched.task t).shielded) : (s.refill t d).step e = s.step e := by
  have hrun := @running_refill s.sched t d ht
  obtain ⟨htarget, hsome⟩ := Option.filter_eq_some_iff.1 hh
  obtain ⟨s', hs⟩ := Option.isSome_iff_exists.1 hsome
  cases e with
  | task u =>
      obtain ⟨h0, hu⟩ := Option.ite_none_left_eq_some.1 htarget
      obtain rfl := Option.some.inj hu
      obtain ⟨⟨hav, hin⟩, -⟩ := Option.ite_none_right_eq_some.1 hs
      have hin' : Running (s.refill u d).sched → (s.refill u d).InHandler := fun h => ⟨h, (hin (hrun.1 h)).2⟩
      have hstep : (s.refill u d).step (.task u) = some ((s.refill u d).yieldTask u) := if_pos ⟨hav, hin'⟩
      rw [hstep, yieldTask_refill ht hd h0]
      exact (if_pos ⟨hav, hin⟩).symm
  | resume u now =>
      obtain ⟨hr, -⟩ := Option.ite_none_right_eq_some.1 hs
      have hstep : (s.refill t d).step (.resume u now) = (s.refill t d).resume u now := if_pos (hrun.2 hr)
      have hstep' : s.step (.resume u now) = s.resume u now := if_pos hr
      rw [hstep, hstep']
      unfold System.target at htarget
      unfold System.resume
      cases hpc : s.pc s.sched.currTask with
      | found k =>
          rw [hpc] at htarget
          rw [show (s.refill t d).pc (s.refill t d).sched.currTask = .found k from hpc]
          exact claim_refill ht hd htarget
      | _ =>
          rw [hpc] at htarget
          cases htarget
  | _ => cases htarget

namespace Marked

variable {m m' : Marked} {a : Act}

theorem views_refill {d : Content} (hh : m.handed a = some t) (ht : t ≠ m.sys.sched.currTask)
    (hd : d.task.shielded = (m.sys.sched.task t).shielded) (as : List Act) :
    (m.refill t d).views (a :: as) = m.views (a :: as) := by
  have hstep : (m.refill t d).step a = m.step a := by
    cases a with
    | call e =>
        have hsys := @step_refill m.sys t e d hh ht hd
        show ((m.sys.refill t d).step e).map (fun sys =>
          Marked.mk sys ((m.sys.target e).elim m.clean fun t => Function.update m.clean t true)) = _
        rw [hsys]
        rfl
    | _ => cases hh
  unfold views
  rw [trace, trace, hstep]

/-! ## Runs -/

theorem handed_of_step {e : Call} (hs : s.step e = some s') : s.handed e = s.target e := by
  unfold System.handed
  rw [hs]
  cases s.target e <;> rfl

theorem unmarked_call {e : Call} (h : m.Unmarked) (hs : m.step (.call e) = some m') :
    m'.Unmarked ↔ m.Unshielded (.call e) := by
  obtain ⟨sys, hsys, rfl⟩ := Option.map_eq_some_iff.1 hs
  have hflags := (step_initializes hsys).flags
  have hun : m.Unshielded (.call e) ↔ ∀ t ∈ m.sys.handed e, (m.sys.sched.task t).shielded = false := Iff.rfl
  rw [hun, handed_of_step hsys]
  unfold Unmarked
  cases hh : m.sys.target e with
  | none =>
      rw [hh] at hflags
      refine iff_of_true (fun p hp => ?_) fun t ht => absurd ht (Option.not_mem_none t)
      rw [(hflags p).1, (hflags p).2]
      exact h p hp
  | some t =>
      rw [hh] at hflags
      constructor
      · intro h' u hu
        obtain rfl := Option.some.inj hu
        rw [← (hflags t).1]
        exact (h' t (Function.update_self ..)).1
      · intro ht p hp
        rw [(hflags p).1, (hflags p).2]
        by_cases hpt : t = p
        · rw [← hpt, if_pos rfl]
          exact ⟨ht t rfl, rfl⟩
        · rw [if_neg fun heq => hpt (Option.some.inj heq)]
          exact h p ((Function.update_of_ne (Ne.symm hpt) ..).symm.trans hp)

/-- A task found by its id has that id. -/
theorem id_of_searchID {id : BitVec 32} {n : Nat} {u : Ptr} (h : c.searchID id n t = some u) : (c.task u).id = id := by
  induction n generalizing t with
  | zero => cases h
  | succ n ih =>
      unfold Sched.searchID at h
      split at h
      · rename_i hid
        obtain rfl := Option.some.inj h
        exact hid
      split at h
      · cases h
      · exact ih h

theorem unmarked_cancel {id : BitVec 32} (h : m.Unmarked) (hs : m.step (.cancel id) = some m') : m'.Unmarked := by
  obtain ⟨-, hs⟩ := Option.ite_none_right_eq_some.1 hs
  obtain rfl := Option.some.inj hs
  intro p hp
  obtain ⟨hclean, hne⟩ := Bool.and_eq_true_iff.1 hp
  have hid := of_decide_eq_true hne
  unfold System.cancel
  split
  · rename_i t ht
    have hpt : p ≠ t := by
      rintro rfl
      exact hid (id_of_searchID ht)
    show ((m.sys.sched.setCancelled t).task p).shielded = false ∧ ((m.sys.sched.setCancelled t).task p).cancelled = false
    rw [Sched.setCancelled, Sched.setTask_of_ne hpt]
    exact h p hclean
  · exact h p hclean

/-- A write to one descriptor, after which nothing is said of it. -/
theorem unmarked_update {c' : Sched} {sys : System} (h : m.Unmarked) (hsys : sys.sched = c')
    (ht : ∀ p, p ≠ t → c'.task p = m.sys.sched.task p) : Unmarked ⟨sys, Function.update m.clean t false⟩ := by
  intro p hp
  have hpt : p ≠ t := by
    rintro rfl
    exact Bool.false_ne_true ((Function.update_self ..).symm.trans hp)
  show (sys.sched.task p).shielded = false ∧ (sys.sched.task p).cancelled = false
  rw [hsys, ht p hpt]
  exact h p ((Function.update_of_ne hpt ..).symm.trans hp)

theorem unmarked_step (h : m.Unmarked) (hs : m.step a = some m') : m'.Unmarked ↔ m.Unshielded a := by
  have hnone : (∀ e, a ≠ .call e) → m.Unshielded a := by
    intro ha t ht
    cases a with
    | call e => exact absurd rfl (ha e)
    | _ => cases ht
  cases a with
  | call e => exact unmarked_call h hs
  | shield enable =>
      obtain ⟨-, hs⟩ := Option.ite_none_right_eq_some.1 hs
      obtain rfl := Option.some.inj hs
      exact iff_of_true (unmarked_update h rfl fun p hp => Sched.setTask_of_ne hp _) (hnone fun e he => by cases he)
  | cancel id => exact iff_of_true (unmarked_cancel h hs) (hnone fun e he => by cases he)
  | write t d =>
      obtain ⟨-, hs⟩ := Option.ite_none_right_eq_some.1 hs
      obtain rfl := Option.some.inj hs
      exact iff_of_true (unmarked_update h rfl fun p hp => Function.update_of_ne hp ..) (hnone fun e he => by cases he)

theorem unshielded_of_none (hs : m.step a = none) : m.Unshielded a := by
  intro t ht
  cases a with
  | call e =>
      obtain ⟨-, hsome⟩ := Option.filter_eq_some_iff.1 ht
      rw [Option.map_eq_none_iff.1 hs] at hsome
      cases hsome
  | _ => cases ht

theorem step_startsClean (h : m.Unmarked) (hs : m.step a = some m') :
    (m.StartsClean a m' ↔ m.Unshielded a) ∧ (m.Unshielded a → m'.Unmarked) := by
  have hiff := unmarked_step h hs
  refine ⟨⟨fun hc => hiff.1 hc.unmarked, fun hu => ⟨hiff.2 hu, fun t ht hne d hd as => ?_⟩⟩, hiff.2⟩
  exact views_refill ht hne (hd.trans (hu t ht).symm) as

theorem along_startsClean_iff (h : m.Unmarked) (as : List Act) :
    Along step StartsClean m as ↔ Meets step Unshielded m as :=
  @along_iff_meets _ _ step Unmarked Unshielded StartsClean (fun _ _ _ hs => unshielded_of_none hs)
    (fun _ _ _ h hs => step_startsClean h hs) m as h

/-- The system with no task known to be clean. -/
def start (s : System) : Marked := ⟨s, fun _ => false⟩

theorem unmarked_start (s : System) : (start s).Unmarked := fun _ hp => absurd hp Bool.false_ne_true

/-- **A new task starts clean, over every run**, exactly if each descriptor that `Yield_InitializeTask` is given holds no
shield, whatever else it holds. -/
theorem startsClean_iff (s : System) (as : List Act) :
    Along step StartsClean (start s) as ↔ Meets step Unshielded (start s) as :=
  along_startsClean_iff (unmarked_start s) as

/-- A coroutine does something and returns, and another one is started in its slot. -/
def recycled (a : Act) : List Act :=
  [.call (.task 16), .call .start, .call .run, .call (.resume 48 0), .call .yield, a, .call .ret, .call .yield,
    .call (.resume 0 0), .call .run, .call (.resume 0 0)]

/-- It was cancelled. -/
example : Along step StartsClean (start .cleared) (recycled (.cancel 2)) := by
  rw [along_startsClean_iff (unmarked_start _)]
  decide +kernel

/-- It shielded itself: the next one is shielded from the start, and does not see that it is cancelled. -/
theorem not_startsClean_recycled : ¬ Along step StartsClean (start .cleared) (recycled (.shield true)) ∧
    (run step (start .cleared) (recycled (.shield true) ++ [.cancel 3, .call .yield])).map view =
      some ⟨48, 3, none, false⟩ ∧
    (run step (start .cleared) (recycled (.shield false) ++ [.cancel 3, .call .yield])).map view =
      some ⟨48, 3, none, true⟩ := by
  rw [along_startsClean_iff (unmarked_start _)]
  decide +kernel

end Marked

end YieldStm32.Yield
