import Mathlib.Data.List.OfFn
import YieldStm32.Lib.Ring
import YieldStm32.Lib.Run
import YieldStm32.Sys.Yield.Run

/-!
# The context switch (`sys/src/yield.c`)

The processor puts some registers on the stack of the task when it takes the exception, `Yield_PendSVHandler` puts the
others below them, and stores the stack pointer in the descriptor. Memory is counted in words, and so are addresses; the
stacking of floating point registers is done at once, although the processor waits for the first use of them, which is
in the handler.

* `saveContext`, `restoreContext` : what the exception and the handler do before and after `Yield_Schedule`;
* `saveContext_eq`, `restoreContext_frame` : between them, the stack holds one `frame`, which gives back what was saved;
* `pendSV`, `initializeTask`, `start` : the functions of the source.
-/

namespace YieldStm32.Yield.Context

open Ring Transition

/-! ## The processor -/

abbrev Word := BitVec 32

abbrev Mem := Nat → Word

/-- A value of `xpsr`; its bit 9 is not there. -/
abbrev Xpsr := { w : Word // w &&& 0x200 = 0 }

/-- What a task has of the processor. -/
structure Core where
  /-- `r0` to `r3`, `r12`, `lr` and `pc` -/
  low : Fin 7 → Word
  xpsr : Xpsr
  /-- `r4` to `r11` -/
  high : Fin 8 → Word
  /-- `s0` to `s15`, and `fpscr` -/
  fpLow : Fin 17 → Word
  /-- `s16` to `s31` -/
  fpHigh : Fin 16 → Word
  /-- `FPCA` of `CONTROL`: floating point registers are in use -/
  fpca : Bool
  psp : Nat

/-- The same, but for floating point registers that are not in use. -/
structure Same (k k' : Core) : Prop where
  low : k.low = k'.low
  xpsr : k.xpsr = k'.xpsr
  high : k.high = k'.high
  fpca : k.fpca = k'.fpca
  psp : k.psp = k'.psp
  fp : k.fpca = true → k.fpLow = k'.fpLow ∧ k.fpHigh = k'.fpHigh

theorem Same.refl (k : Core) : Same k k := ⟨rfl, rfl, rfl, rfl, rfl, fun _ => ⟨rfl, rfl⟩⟩

/-- `EXC_RETURN` -/
def excReturn (k : Core) : Word := if k.fpca then 0xffffffed else 0xfffffffd

/-- The word of `xpsr` on the stack; its bit 9 is set where the stack pointer was moved to a multiple of eight bytes. -/
def xpsrWord (k : Core) : Word := k.xpsr.val ||| if k.psp % 2 = 1 then 0x200 else 0

/-- What the exception does: the stack pointer, the memory, and `lr` in the handler. -/
def exceptionEntry (k : Core) (m : Mem) : Nat × Mem × Word :=
  let sp := (k.psp - if k.fpca then 26 else 8) / 2 * 2
  let m := copyIn m sp (List.ofFn k.low)
  let m := Function.update m (sp + 7) (xpsrWord k)
  let m := if k.fpca then copyIn m (sp + 8) (List.ofFn k.fpLow) else m
  (sp, m, excReturn k)

/-- `stmdb`, of these registers. -/
def push (ws : List Word) (r : Nat × Mem) : Nat × Mem := (r.1 - ws.length, copyIn r.2 (r.1 - ws.length) ws)

/-- `Yield_PendSVHandler`, up to `curr_task->sp = sp`. -/
def saveContext (k : Core) (m : Mem) : Nat × Mem :=
  let (r0, m, lr) := exceptionEntry k m
  let r := push (List.ofFn k.high) (r0, m)
  let r := if lr &&& 0x10 = 0 then push (List.ofFn k.fpHigh) r else r
  push [lr] r

/-- Words read from memory. -/
def regs {n : Nat} (m : Mem) (sp : Nat) : Fin n → Word := fun i => m (sp + i)

theorem and_not_and (w : Word) : w &&& ~~~0x200 &&& 0x200 = 0 := by
  rw [BitVec.and_assoc, show (~~~0x200 &&& 0x200 : Word) = 0 by decide]
  exact BitVec.and_zero

/-- `bx` to an `EXC_RETURN`. -/
def exceptionReturn (k : Core) (m : Mem) (sp : Nat) (lr : Word) : Core :=
  { k with
    low := regs m sp
    xpsr := ⟨m (sp + 7) &&& ~~~0x200, and_not_and _⟩
    fpLow := if lr &&& 0x10 = 0 then regs m (sp + 8) else k.fpLow
    fpca := decide (lr &&& 0x10 = 0)
    psp := (sp + if lr &&& 0x10 = 0 then 26 else 8) ||| if m (sp + 7) &&& 0x200 = 0 then 0 else 1 }

/-- `Yield_PendSVHandler`, from `sp = curr_task->sp` on. -/
def restoreContext (k : Core) (m : Mem) (sp : Nat) : Core :=
  let r0 := m sp
  let fpHigh := if r0 &&& 0x10 = 0 then regs m (sp + 1) else k.fpHigh
  let sp := if r0 &&& 0x10 = 0 then sp + 1 + 16 else sp + 1
  exceptionReturn { k with fpHigh := fpHigh, high := regs m sp } m (sp + 8) r0

/-! ## Frames -/

/-- The words that the exception puts on the stack. -/
def hardFrame (k : Core) : List Word :=
  List.ofFn k.low ++ ([xpsrWord k] ++ if k.fpca then List.ofFn k.fpLow else [])

/-- What is on the stack of a task that was switched away from. -/
def frame (k : Core) : List Word :=
  [excReturn k] ++ ((if k.fpca then List.ofFn k.fpHigh else []) ++ (List.ofFn k.high ++ hardFrame k))

/-- The number of its words, by the first one. -/
def frameSize (w : Word) : Nat := if w &&& 0x10 = 0 then 50 else 17

/-- Where it begins. -/
def frameSp (k : Core) : Nat := (k.psp - if k.fpca then 26 else 8) / 2 * 2 - 8 - (if k.fpca then 16 else 0) - 1

theorem excReturn_fpca (k : Core) : excReturn k &&& 0x10 = 0 ↔ k.fpca = true := by
  unfold excReturn
  cases k.fpca with
  | true => simp
  | false => simp

theorem length_frame (k : Core) : (frame k).length = frameSize (excReturn k) := by
  unfold frameSize
  simp only [excReturn_fpca]
  cases h : k.fpca with
  | true => simp [frame, hardFrame, h]
  | false => simp [frame, hardFrame, h]

theorem Same.frame {k k' : Core} (h : Same k k') : frame k = frame k' ∧ frameSp k = frameSp k' := by
  have hexc : excReturn k = excReturn k' := by rw [excReturn, excReturn, h.fpca]
  have hword : xpsrWord k = xpsrWord k' := by rw [xpsrWord, xpsrWord, h.xpsr, h.psp]
  refine ⟨?_, by rw [frameSp, frameSp, h.fpca, h.psp]⟩
  unfold Context.frame hardFrame
  rw [hexc, hword, h.low, h.high, ← h.fpca]
  cases hfp : k.fpca with
  | true => rw [(h.fp hfp).1, (h.fp hfp).2]
  | false => rfl

theorem frameSp_bounds {k : Core} (h : 0 < frameSp k) :
    (if k.fpca then 26 else 8) ≤ k.psp ∧ frameSp k + frameSize (excReturn k) ≤ k.psp := by
  unfold frameSize
  unfold frameSp at *
  simp only [excReturn_fpca]
  split_ifs at * <;> omega

theorem update_eq_copyIn (m : Mem) (p : Nat) (w : Word) : Function.update m p w = copyIn m p [w] := by
  rw [← update_copyIn, copyIn_nil]

theorem exceptionEntry_eq (k : Core) (m : Mem) :
    exceptionEntry k m =
      ((k.psp - if k.fpca then 26 else 8) / 2 * 2,
        copyIn m ((k.psp - if k.fpca then 26 else 8) / 2 * 2) (hardFrame k), excReturn k) := by
  unfold exceptionEntry
  generalize (k.psp - if k.fpca then 26 else 8) / 2 * 2 = sp
  have hlow (ws : List Word) : copyIn (copyIn m sp (List.ofFn k.low)) (sp + 7) ws = copyIn m sp (List.ofFn k.low ++ ws) := by
    rw [← copyIn_append, List.length_ofFn]
  have hword (ws : List Word) : copyIn (copyIn (copyIn m sp (List.ofFn k.low)) (sp + 7) [xpsrWord k]) (sp + 8) ws =
      copyIn m sp (List.ofFn k.low ++ ([xpsrWord k] ++ ws)) := by
    rw [← hlow, ← copyIn_append, List.length_singleton]
  unfold hardFrame
  cases hfp : k.fpca with
  | true => simp only [if_true, update_eq_copyIn, hword]
  | false => simp only [Bool.false_eq_true, if_false, update_eq_copyIn, hlow, List.append_nil]

/-- Registers pushed below a frame. -/
theorem push_frame (m : Mem) {sp : Nat} {ws : List Word} (h : ws.length ≤ sp) (xs : List Word) :
    push ws (sp, copyIn m sp xs) = (sp - ws.length, copyIn m (sp - ws.length) (ws ++ xs)) := by
  unfold push
  have hsp : sp = sp - ws.length + ws.length := (Nat.sub_add_cancel h).symm
  conv_lhs =>
    arg 2
    arg 1
    rw [hsp]
  rw [copyIn_before]

/-- The exception and the handler put one frame on the stack. -/
theorem saveContext_eq {k : Core} (h : 0 < frameSp k) (m : Mem) :
    saveContext k m = (frameSp k, copyIn m (frameSp k) (frame k)) := by
  unfold saveContext
  rw [exceptionEntry_eq]
  unfold frameSp frame at *
  generalize (k.psp - if k.fpca then 26 else 8) / 2 * 2 = sp at *
  dsimp only
  rw [push_frame m (by rw [List.length_ofFn]; omega), List.length_ofFn]
  cases hfp : k.fpca with
  | true =>
      rw [hfp, if_pos rfl] at h
      rw [if_pos ((excReturn_fpca k).2 hfp), push_frame m (by rw [List.length_ofFn]; omega), List.length_ofFn,
        push_frame m (by rw [List.length_singleton]; omega), List.length_singleton, if_pos rfl, if_pos rfl]
  | false =>
      have hexc : ¬ excReturn k &&& 0x10 = 0 := fun h => absurd ((excReturn_fpca k).1 h) (by rw [hfp]; decide)
      rw [if_neg hexc, push_frame m (by rw [List.length_singleton]; omega), List.length_singleton]
      rfl

/-- The stack pointer that is stored. -/
theorem saveContext_sp (k : Core) (m : Mem) : (saveContext k m).1 = frameSp k := by
  unfold saveContext
  rw [exceptionEntry_eq]
  unfold frameSp push
  simp only [excReturn_fpca]
  split <;> simp

/-- A bit that is not there, set and cleared. -/
theorem or_and_not {w c : Word} (h : w &&& c = 0) : (w ||| c) &&& ~~~c = w ∧ w &&& ~~~c = w := by
  have hbit (i : Nat) : (w.getLsbD i && c.getLsbD i) = false := by
    rw [← BitVec.getLsbD_and, h]
    exact BitVec.getLsbD_zero
  constructor
  · apply BitVec.eq_of_getLsbD_eq
    intro i hi
    have hi' := hbit i
    rw [BitVec.getLsbD_and, BitVec.getLsbD_or, BitVec.getLsbD_not]
    revert hi'
    cases w.getLsbD i <;> cases c.getLsbD i <;> simp [hi]
  · apply BitVec.eq_of_getLsbD_eq
    intro i hi
    have hi' := hbit i
    rw [BitVec.getLsbD_and, BitVec.getLsbD_not]
    revert hi'
    cases w.getLsbD i <;> cases c.getLsbD i <;> simp [hi]

theorem or_and_self (w c : Word) : (w ||| c) &&& c = c := by
  apply BitVec.eq_of_getLsbD_eq
  intro i _
  rw [BitVec.getLsbD_and, BitVec.getLsbD_or]
  cases w.getLsbD i <;> cases c.getLsbD i <;> rfl

/-- The word of `xpsr` gives back its value, -/
theorem xpsrWord_and (k : Core) : xpsrWord k &&& ~~~0x200 = k.xpsr.val := by
  unfold xpsrWord
  split
  · exact (or_and_not k.xpsr.property).1
  · rw [show k.xpsr.val ||| 0 = k.xpsr.val from BitVec.or_zero]
    exact (or_and_not k.xpsr.property).2

/-- and how the stack pointer was moved. -/
theorem xpsrWord_bit (k : Core) : xpsrWord k &&& 0x200 = 0 ↔ k.psp % 2 = 0 := by
  unfold xpsrWord
  split
  · rename_i hodd
    rw [or_and_self, hodd]
    decide
  · rename_i heven
    rw [show k.xpsr.val ||| 0 = k.xpsr.val from BitVec.or_zero]
    exact iff_of_true k.xpsr.property (by omega)

/-- The stack pointer after the exception. -/
theorem psp_return {psp n : Nat} (hn : n % 2 = 0) (h : n ≤ psp) :
    ((psp - n) / 2 * 2 + n ||| if psp % 2 = 0 then 0 else 1) = psp := by
  split
  · rw [Nat.or_zero]
    omega
  · have heven : (psp - n) / 2 * 2 + n = 2 ^ 1 * (psp / 2) := by omega
    rw [heven, ← Nat.two_pow_add_eq_or_of_lt (by decide)]
    omega

/-- These words are in memory. -/
def At (m : Mem) (p : Nat) (ws : List Word) : Prop := copyOut m p ws.length = ws

theorem at_append {m : Mem} {p : Nat} {xs ys : List Word} : At m p (xs ++ ys) ↔ At m p xs ∧ At m (p + xs.length) ys := by
  unfold At
  rw [List.length_append, copyOut_add]
  constructor
  · intro h
    exact List.append_inj h (length_copyOut ..)
  · rintro ⟨h, h'⟩
    rw [h, h']

theorem at_singleton {m : Mem} {p : Nat} {w : Word} : At m p [w] ↔ m p = w := by
  simp [At, copyOut]

/-- Registers read from where they are. -/
theorem regs_of_at {n : Nat} {m : Mem} {p : Nat} {f : Fin n → Word} (h : At m p (List.ofFn f)) : regs m p = f := by
  unfold At at h
  rw [List.length_ofFn] at h
  funext i
  have hi := congrArg (·[i.val]?) h
  simpa [copyOut, regs] using hi

/-- The exception returns what it put on the stack. -/
theorem exceptionReturn_frame {k k' : Core} (hpsp : (if k.fpca then 26 else 8) ≤ k.psp) {m : Mem} {sp : Nat}
    (hsp : sp = (k.psp - if k.fpca then 26 else 8) / 2 * 2) (hm : At m sp (hardFrame k)) (hhigh : k'.high = k.high)
    (hfpHigh : k.fpca = true → k'.fpHigh = k.fpHigh) : Same (exceptionReturn k' m sp (excReturn k)) k := by
  obtain ⟨hlow, hm⟩ := at_append.1 hm
  obtain ⟨hword, hfpLow⟩ := at_append.1 hm
  rw [at_singleton, List.length_ofFn] at hword
  rw [List.length_ofFn, List.length_singleton] at hfpLow
  have hlr : (excReturn k &&& 0x10 = 0) = (k.fpca = true) := propext (excReturn_fpca k)
  refine ⟨regs_of_at hlow, Subtype.ext ?_, hhigh, ?_, ?_, fun hfp => ⟨?_, ?_⟩⟩
  · show m (sp + 7) &&& ~~~0x200 = _
    rw [hword]
    exact xpsrWord_and k
  · exact Bool.eq_iff_iff.2 (decide_eq_true_iff.trans (excReturn_fpca k))
  · unfold exceptionReturn
    simp only [hword, xpsrWord_bit, hlr]
    rw [hsp]
    exact psp_return (by split <;> decide) hpsp
  · simp only [exceptionReturn, hlr, decide_eq_true_eq] at hfp
    simp only [exceptionReturn, hlr, if_pos hfp] at hfpLow ⊢
    exact regs_of_at hfpLow
  · simp only [exceptionReturn, hlr, decide_eq_true_eq] at hfp
    exact hfpHigh hfp

theorem at_regs (n : Nat) (m : Mem) (p : Nat) : At m p (List.ofFn (regs m p : Fin n → Word)) := by
  unfold At
  rw [List.length_ofFn]
  apply List.ext_getElem
  · rw [length_copyOut, List.length_ofFn]
  · intro i _ _
    simp [copyOut, regs]

/-- A frame gives back what was saved. -/
theorem restoreContext_frame {k : Core} (h : 0 < frameSp k) {m : Mem} (hm : At m (frameSp k) (frame k)) (k' : Core) :
    Same (restoreContext k' m (frameSp k)) k := by
  have hpsp := (frameSp_bounds h).1
  have hsp : frameSp k + 1 + (if k.fpca then 16 else 0) + 8 = (k.psp - if k.fpca then 26 else 8) / 2 * 2 := by
    unfold frameSp at *
    omega
  obtain ⟨hexc, hm⟩ := at_append.1 hm
  rw [at_singleton] at hexc
  obtain ⟨hfpHigh, hm⟩ := at_append.1 hm
  obtain ⟨hhigh, hm⟩ := at_append.1 hm
  unfold restoreContext
  simp only [hexc, excReturn_fpca]
  cases hfp : k.fpca with
  | true =>
      simp only [hfp, if_true, List.length_singleton, List.length_ofFn] at hsp hfpHigh hhigh hm
      simp only [if_true]
      refine exceptionReturn_frame hpsp ?_ hm (regs_of_at hhigh) fun _ => regs_of_at hfpHigh
      rw [hsp, hfp, if_pos rfl]
  | false =>
      simp only [hfp, Bool.false_eq_true, if_false, List.length_singleton, List.length_ofFn, List.length_nil,
        Nat.add_zero] at hsp hhigh hm
      simp only [Bool.false_eq_true, if_false]
      refine exceptionReturn_frame hpsp ?_ hm (regs_of_at hhigh) fun h => absurd (hfp.symm.trans h) (by decide)
      rw [hsp, hfp, if_neg (by decide)]

/-! ## The functions -/

/-- The processor, the memory, and the descriptors; `sp`, `stack` and `stackSize` are fields of these. -/
structure Machine where
  core : Core
  mem : Mem
  sched : Sched
  sp : Ptr → Nat
  stack : Ptr → Nat
  stackSize : Ptr → Nat

/-- `Yield_CheckStack` -/
def CheckStack (s : Machine) : Prop :=
  s.stack s.sched.currTask < s.sp s.sched.currTask ∧ s.mem (s.stack s.sched.currTask) = 0xdeadc0de

instance (s : Machine) : Decidable (CheckStack s) := inferInstanceAs (Decidable (_ ∧ _))

/-- The current task is put away. -/
def putAway (s : Machine) : Machine :=
  let r := saveContext s.core s.mem
  { s with sp := Function.update s.sp s.sched.currTask r.1, mem := r.2 }

/-- `Yield_PendSVHandler`, with the exception before and after it. -/
def pendSV (s : Machine) : Option Machine :=
  let s := putAway s
  if CheckStack s then
    s.sched.schedule.map fun sched =>
      { s with sched := sched, core := restoreContext s.core s.mem (s.sp sched.currTask) }
  else none

/-- The writes of `Yield_InitializeTask` on the stack of the new task, which `sp` is the first frame of. -/
def firstFrame (executeTask : Word) (t : Ptr) (stack sp : Nat) (m : Mem) : Mem :=
  let m := Function.update m stack 0xdeadc0de
  let m := Function.update m (sp + 16) 0x01000000
  let m := Function.update m (sp + 15) executeTask
  let m := Function.update m (sp + 14) 0xdeadc0de
  let m := Function.update m (sp + 9) t
  Function.update m sp 0xfffffffd

/-- `Yield_InitializeTask`, of a task with this stack: what it does besides `Sched.initializeTask`. -/
def initializeTask (executeTask : Word) (t : Ptr) (stack size : Nat) (s : Machine) : Option Machine :=
  let sp := (stack + size) / 2 * 2 - 17
  if 50 ≤ size then
    some { s with
      mem := firstFrame executeTask t stack sp s.mem
      sp := Function.update s.sp t sp
      stack := Function.update s.stack t stack
      stackSize := Function.update s.stackSize t size }
  else none

/-- `Yield_Start`, up to the call of the handler. -/
def start (s : Machine) : Machine :=
  let sp := (s.stack s.sched.currTask + s.stackSize s.sched.currTask) / 2 * 2
  { s with sp := Function.update s.sp s.sched.currTask sp, core := { s.core with psp := sp, fpca := false } }

/-- `work` is all that a task does between two calls of the scheduler, with its writes to memory. -/
inductive Event where
  | create (t : Ptr) (coroutine : Bool) (stack size : Nat)
  | start
  | work (k : Core) (ws : List (Nat × Word))
  | done
  | pendSV

/-- Writes to memory, one after the other. -/
def write (m : Mem) (ws : List (Nat × Word)) : Mem := ws.foldl (fun m w => Function.update m w.1 w.2) m

def step (executeTask : Word) (s : Machine) : Event → Option Machine
  | .create t coroutine stack size =>
      (Yield.step s.sched (.create t coroutine)).bind fun sched =>
        initializeTask executeTask t stack size { s with sched := sched }
  | .start => (Yield.step s.sched .start).map fun sched => Context.start { s with sched := sched }
  | .work k ws => some { s with core := k, mem := write s.mem ws }
  | .done => (Yield.step s.sched .done).map fun sched => { s with sched := sched }
  | .pendSV => if Running s.sched then Context.pendSV s else none

end YieldStm32.Yield.Context
