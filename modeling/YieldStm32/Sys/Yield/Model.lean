import Mathlib.Data.FinEnum
import Mathlib.Data.List.Iterate
import Mathlib.Data.List.Nodup
import Mathlib.Logic.Function.Basic

/-!
# The scheduler (`sys/src/yield.c`)

Task descriptors are kept field by field: the links `next` and `prev`, and a `Task` with the other fields. A descriptor is
named by its address, and `0` is the null pointer. What the memory holds before a descriptor is initialized is arbitrary.

* `initializeTask`, `schedule`, `start`, `getTaskByID` : the functions of the source, write by write;
* `none` : an assertion that fails, which resets the processor;
* `ring` : the descriptors met along `next`, as many as `task_cnt` says.
-/

namespace YieldStm32.Yield

/-- The address of a `task_t`. -/
abbrev Ptr := BitVec 32

/-- `enum task_state` -/
inductive TaskState where
  | pending
  | active
  | done
deriving DecidableEq, Repr

/-- A `task_t`, without its links, its stack and its handler. -/
structure Task where
  state : TaskState
  /-- `flags & TASK_FLAGS_COROUTINE` -/
  coroutine : Bool
  handlerDone : Bool
  shielded : Bool
  cancelled : Bool
  id : BitVec 32
deriving DecidableEq

/-- Two descriptors with the same fields, up to the state. -/
def Task.Alike (a b : Task) : Prop := { a with state := .pending } = { b with state := .pending }

theorem Task.Alike.id {a b : Task} (h : a.Alike b) : a.id = b.id := congrArg (fun t => t.id) h

theorem Task.Alike.handlerDone {a b : Task} (h : a.Alike b) : a.handlerDone = b.handlerDone :=
  congrArg (fun t => t.handlerDone) h

theorem Task.Alike.coroutine {a b : Task} (h : a.Alike b) : a.coroutine = b.coroutine :=
  congrArg (fun t => t.coroutine) h

/-- The memory of the scheduler. -/
structure Sched where
  next : Ptr → Ptr
  prev : Ptr → Ptr
  task : Ptr → Task
  currTask : Ptr
  switchCnt : BitVec 32
  taskCnt : BitVec 32
  nextTaskId : BitVec 32
  /-- The descriptors that are allocated, and not freed. -/
  live : Ptr → Bool

namespace Sched

def setNext (s : Sched) (p v : Ptr) : Sched := { s with next := Function.update s.next p v }

def setPrev (s : Sched) (p v : Ptr) : Sched := { s with prev := Function.update s.prev p v }

def setTask (s : Sched) (p : Ptr) (t : Task) : Sched := { s with task := Function.update s.task p t }

def setState (s : Sched) (p : Ptr) (st : TaskState) : Sched := s.setTask p { s.task p with state := st }

/-- `t->handler_done = 1` -/
def setHandlerDone (s : Sched) (p : Ptr) : Sched := s.setTask p { s.task p with handlerDone := true }

/-- The descriptor `Yield_AllocateTask` returns. -/
def allocateTask (s : Sched) (p : Ptr) : Sched := { s with live := Function.update s.live p true }

def deallocateTask (s : Sched) (p : Ptr) : Sched := { s with live := Function.update s.live p false }

/-- The first half of `Yield_InitializeTask`: the fields. `shielded` is left as it is. -/
def fillTask (s : Sched) (t : Ptr) (coroutine : Bool) : Sched :=
  { s.setTask t { s.task t with
      state := .pending, coroutine := coroutine, handlerDone := false, cancelled := false, id := s.nextTaskId } with
    nextTaskId := s.nextTaskId + 1 }

/-- The second half: the links. -/
def linkTask (s : Sched) (t : Ptr) : Sched :=
  if s.currTask = 0 then
    { (s.setNext t t).setPrev t t with currTask := t }
  else
    let s := s.setPrev t (s.prev s.currTask)
    let s := s.setNext t s.currTask
    let s := s.setNext (s.prev s.currTask) t
    s.setPrev s.currTask t

/-- `Yield_InitializeTask` -/
def initializeTask (s : Sched) (t : Ptr) (coroutine : Bool) : Sched :=
  let s := (s.fillTask t coroutine).linkTask t
  { s with taskCnt := s.taskCnt + 1 }

/-- The current task is taken out of the list, and the next one becomes current. -/
def unlinkTask (s : Sched) : Sched :=
  let t := s.currTask
  let s := { s with currTask := s.next t }
  let s := s.setNext (s.prev t) (s.next t)
  s.setPrev (s.next t) (s.prev t)

/-- The memory of a finished task is released, unless it is a coroutine's. -/
def releaseTask (s : Sched) (t : Ptr) : Sched :=
  { (if (s.task t).coroutine then s else s.deallocateTask t) with taskCnt := s.taskCnt - 1 }

/-- The loop of `Yield_Schedule`. -/
def scheduleLoop : Nat → Sched → Option Sched
  | 0, _ => none
  | n + 1, s =>
    match (s.task s.currTask).state with
    | .done =>
        let t := s.currTask
        let s := s.unlinkTask
        if s.prev t ≠ t ∧ s.next t ≠ t then scheduleLoop n (s.releaseTask t) else none
    | .active => scheduleLoop n { s.setState s.currTask .pending with currTask := s.next s.currTask }
    | .pending => some (s.setState s.currTask .active)

theorem scheduleLoop_succ (n : Nat) (s : Sched) :
    scheduleLoop (n + 1) s =
      match (s.task s.currTask).state with
      | .done =>
          if s.unlinkTask.prev s.currTask ≠ s.currTask ∧ s.unlinkTask.next s.currTask ≠ s.currTask then
            scheduleLoop n (s.unlinkTask.releaseTask s.currTask)
          else none
      | .active => scheduleLoop n { s.setState s.currTask .pending with currTask := s.next s.currTask }
      | .pending => some (s.setState s.currTask .active) := rfl

/-- `switch_cnt++` -/
def bumpSwitchCnt (s : Sched) : Sched := { s with switchCnt := s.switchCnt + 1 }

/-- `Yield_Schedule`. Each pass of the loop that is not the last unlinks a task or turns an active one into a pending
one, so as many passes as there are tasks, and one more, are enough (`schedule_isSome`). -/
def schedule (s : Sched) : Option Sched :=
  scheduleLoop (s.taskCnt.toNat + 1) s.bumpSwitchCnt

/-- `Yield_Start`, up to its call of the handler. -/
def start (s : Sched) : Option Sched :=
  if s.currTask = 0 then none else some (s.setState s.currTask .active)

/-- The loop of `Yield_GetTaskByID`, from `t` on. -/
def searchID (s : Sched) (id : BitVec 32) : Nat → Ptr → Option Ptr
  | 0, _ => none
  | n + 1, t =>
      if (s.task t).id = id then some t
      else if s.next t = s.currTask then none
      else searchID s id n (s.next t)

/-- `Yield_GetTaskByID` -/
def getTaskByID (s : Sched) (id : BitVec 32) : Option Ptr := s.searchID id s.taskCnt.toNat s.currTask

/-- The descriptors met from the current one on. -/
def ring (s : Sched) : List Ptr := List.iterate s.next s.currTask s.taskCnt.toNat

/-! ## Reading back what was written -/

section

variable {s : Sched} {p q : Ptr}

theorem setTask_self (s : Sched) (p : Ptr) (t : Task) : (s.setTask p t).task p = t := Function.update_self ..

theorem setTask_of_ne (h : q ≠ p) (t : Task) : (s.setTask p t).task q = s.task q := Function.update_of_ne h ..

theorem setState_self (s : Sched) (p : Ptr) (st : TaskState) :
    (s.setState p st).task p = { s.task p with state := st } := setTask_self ..

theorem setState_of_ne (h : q ≠ p) (st : TaskState) : (s.setState p st).task q = s.task q := setTask_of_ne h _

/-- Only the state changes. -/
theorem setState_alike (s : Sched) (p q : Ptr) (st : TaskState) : ((s.setState p st).task q).Alike (s.task q) := by
  by_cases h : q = p
  · rw [h, setState_self]
    rfl
  · rw [setState_of_ne h]
    rfl

theorem setHandlerDone_self (s : Sched) (p : Ptr) :
    (s.setHandlerDone p).task p = { s.task p with handlerDone := true } := setTask_self ..

theorem setHandlerDone_of_ne (h : q ≠ p) : (s.setHandlerDone p).task q = s.task q := setTask_of_ne h _

@[simp] theorem setHandlerDone_state (s : Sched) (p q : Ptr) :
    ((s.setHandlerDone p).task q).state = (s.task q).state := by
  by_cases h : q = p
  · rw [h, setHandlerDone_self]
  · rw [setHandlerDone_of_ne h]

@[simp] theorem setHandlerDone_coroutine (s : Sched) (p q : Ptr) :
    ((s.setHandlerDone p).task q).coroutine = (s.task q).coroutine := by
  by_cases h : q = p
  · rw [h, setHandlerDone_self]
  · rw [setHandlerDone_of_ne h]

@[simp] theorem setHandlerDone_id (s : Sched) (p q : Ptr) : ((s.setHandlerDone p).task q).id = (s.task q).id := by
  by_cases h : q = p
  · rw [h, setHandlerDone_self]
  · rw [setHandlerDone_of_ne h]

@[simp] theorem linkTask_task (s : Sched) (t : Ptr) : (s.linkTask t).task = s.task := by unfold linkTask; split <;> rfl
@[simp] theorem linkTask_nextTaskId (s : Sched) (t : Ptr) : (s.linkTask t).nextTaskId = s.nextTaskId := by
  unfold linkTask; split <;> rfl
@[simp] theorem linkTask_live (s : Sched) (t : Ptr) : (s.linkTask t).live = s.live := by unfold linkTask; split <;> rfl

theorem initializeTask_self (s : Sched) (t : Ptr) (co : Bool) :
    (s.initializeTask t co).task t =
      { s.task t with
        state := .pending, coroutine := co, handlerDone := false, cancelled := false, id := s.nextTaskId } := by
  show ((s.fillTask t co).linkTask t).task t = _
  rw [linkTask_task]
  exact Function.update_self ..

theorem initializeTask_of_ne (h : q ≠ p) (co : Bool) : (s.initializeTask p co).task q = s.task q := by
  show ((s.fillTask p co).linkTask p).task q = _
  rw [linkTask_task]
  exact Function.update_of_ne h ..

@[simp] theorem initializeTask_nextTaskId (s : Sched) (t : Ptr) (co : Bool) :
    (s.initializeTask t co).nextTaskId = s.nextTaskId + 1 := linkTask_nextTaskId ..

theorem initializeTask_currTask (h : s.currTask ≠ 0) (t : Ptr) (co : Bool) :
    (s.initializeTask t co).currTask = s.currTask := by
  show ((s.fillTask t co).linkTask t).currTask = s.currTask
  rw [linkTask, if_neg (show (s.fillTask t co).currTask ≠ 0 from h)]
  rfl

@[simp] theorem initializeTask_live (s : Sched) (t : Ptr) (co : Bool) : (s.initializeTask t co).live = s.live :=
  linkTask_live ..

@[simp] theorem unlinkTask_task (s : Sched) : s.unlinkTask.task = s.task := rfl
@[simp] theorem unlinkTask_nextTaskId (s : Sched) : s.unlinkTask.nextTaskId = s.nextTaskId := rfl
@[simp] theorem unlinkTask_live (s : Sched) : s.unlinkTask.live = s.live := rfl
@[simp] theorem releaseTask_next (s : Sched) (t : Ptr) : (s.releaseTask t).next = s.next := by
  unfold releaseTask; split <;> rfl
@[simp] theorem releaseTask_prev (s : Sched) (t : Ptr) : (s.releaseTask t).prev = s.prev := by
  unfold releaseTask; split <;> rfl
@[simp] theorem releaseTask_task (s : Sched) (t : Ptr) : (s.releaseTask t).task = s.task := by
  unfold releaseTask; split <;> rfl
@[simp] theorem releaseTask_currTask (s : Sched) (t : Ptr) : (s.releaseTask t).currTask = s.currTask := by
  unfold releaseTask; split <;> rfl
@[simp] theorem releaseTask_nextTaskId (s : Sched) (t : Ptr) : (s.releaseTask t).nextTaskId = s.nextTaskId := by
  unfold releaseTask; split <;> rfl
@[simp] theorem releaseTask_taskCnt (s : Sched) (t : Ptr) : (s.releaseTask t).taskCnt = s.taskCnt - 1 := rfl

end

end Sched

end YieldStm32.Yield
