import YieldStm32.Sys.Yield.Context

/-!
# Tasks and the context switch

What a scheduler is for is a processor for each task: `Private`, where a switch changes none of them. The switch of
`Sys.Yield.Context` does the same with one processor, as long as the stacks of the tasks lie apart, and no task writes to
the frame of another one.

* `Rel` : the frames of the tasks that wait are in memory, and the registers are those of the task that runs;
* `step_rel` : every step keeps it;
* `refines` : every run of the switch is one of `Private`.
-/

namespace YieldStm32.Yield.Context

open Ring Transition

/-! ## A processor for each task -/

/-- The scheduler, and a processor for each task. -/
structure Private where
  sched : Sched
  core : Ptr → Core

/-- How a new task starts: its routine is called with its descriptor, on the stack of its own. -/
structure Fresh (executeTask : Word) (t : Ptr) (stack size : Nat) (k : Core) : Prop where
  r0 : k.low 0 = t
  lr : k.low 5 = 0xdeadc0de
  pc : k.low 6 = executeTask
  xpsr : k.xpsr.val = 0x01000000
  fpca : k.fpca = false
  psp : k.psp = (stack + size) / 2 * 2

/-- No processor is changed by a switch: the next task goes on with its own. -/
inductive Private.Step (executeTask : Word) : Private → Event → Private → Prop
  | create {p : Private} {t : Ptr} {coroutine : Bool} {stack size : Nat} {sched : Sched} {k : Core}
      (hstep : Yield.step p.sched (.create t coroutine) = some sched) (hk : Fresh executeTask t stack size k) :
      Step executeTask p (.create t coroutine stack size) ⟨sched, Function.update p.core t k⟩
  | start {p : Private} {sched : Sched} {k : Core} (hstep : Yield.step p.sched .start = some sched) (hk : k.fpca = false) :
      Step executeTask p .start ⟨sched, Function.update p.core sched.currTask k⟩
  | work {p : Private} (k : Core) (ws : List (Nat × Word)) :
      Step executeTask p (.work k ws) ⟨p.sched, Function.update p.core p.sched.currTask k⟩
  | done {p : Private} {sched : Sched} (hstep : Yield.step p.sched .done = some sched) :
      Step executeTask p .done ⟨sched, p.core⟩
  | pendSV {p : Private} {sched : Sched} (hstep : Yield.step p.sched .schedule = some sched) :
      Step executeTask p .pendSV ⟨sched, p.core⟩

/-! ## Each task goes on with its own -/

section

variable {executeTask : Word} {s s' : Machine} {p : Private} {t : Ptr}

/-- The frame of a task is in memory, within its stack. -/
structure Suspended (m : Mem) (sp stack size : Nat) (k : Core) : Prop where
  eq : sp = frameSp k
  frame : At m sp (frame k)
  low : stack < sp
  high : k.psp ≤ stack + size

/-- The switch, and the processors of the tasks. -/
structure Rel (s : Machine) (p : Private) : Prop where
  sched : s.sched = p.sched
  inv : Inv s.sched
  suspended : ∀ t ∈ s.sched.ring, t ≠ s.sched.currTask → Suspended s.mem (s.sp t) (s.stack t) (s.stackSize t) (p.core t)
  running : Running s.sched → Same s.core (p.core s.sched.currTask) ∧
    s.core.psp ≤ s.stack s.sched.currTask + s.stackSize s.sched.currTask
  size : ∀ t ∈ s.sched.ring, 50 ≤ s.stackSize t
  apart : ∀ t ∈ s.sched.ring, ∀ u ∈ s.sched.ring, t ≠ u →
    s.stack t + s.stackSize t ≤ s.stack u ∨ s.stack u + s.stackSize u ≤ s.stack t

/-- What the allocator sees to: the stack of a new task is its own, and in the memory of the machine. -/
def Apart (s : Machine) (stack size : Nat) : Prop :=
  0x08000000 ≤ stack ∧
    ∀ u ∈ s.sched.ring, stack + size ≤ s.stack u ∨ s.stack u + s.stackSize u ≤ stack

/-- What tasks see to: their stack pointer is in their stack, and they do not write to the frame of another one. -/
def Guard (s : Machine) : Event → Prop
  | .create _ _ stack size => Apart s stack size
  | .work k ws =>
      (Running s.sched → s.stack s.sched.currTask ≤ k.psp ∧
        k.psp ≤ s.stack s.sched.currTask + s.stackSize s.sched.currTask) ∧
      ∀ w ∈ ws, ∀ u ∈ s.sched.ring, u ≠ s.sched.currTask →
        w.1 < s.sp u ∨ s.sp u + frameSize (s.mem (s.sp u)) ≤ w.1
  | _ => True

-- the tasks of the ring are gone through, not all addresses
instance (s : Machine) (stack size : Nat) : Decidable (Apart s stack size) :=
  @instDecidableAnd _ _ _ (List.decidableBAll _ _)

instance (s : Machine) (k : Core) (ws : List (Nat × Word)) : Decidable (Guard s (.work k ws)) :=
  have (w : Nat × Word) : Decidable (∀ u ∈ s.sched.ring, u ≠ s.sched.currTask →
      w.1 < s.sp u ∨ s.sp u + frameSize (s.mem (s.sp u)) ≤ w.1) := List.decidableBAll _ _
  inferInstanceAs (Decidable ((_ → _) ∧ _))

instance (s : Machine) : (e : Event) → Decidable (Guard s e)
  | .create _ _ stack size => inferInstanceAs (Decidable (Apart s stack size))
  | .start => inferInstanceAs (Decidable True)
  | .work k ws => inferInstanceAs (Decidable (Guard s (.work k ws)))
  | .done => inferInstanceAs (Decidable True)
  | .pendSV => inferInstanceAs (Decidable True)

theorem write_of_ne {m : Mem} {ws : List (Nat × Word)} {a : Nat} (h : ∀ w ∈ ws, w.1 ≠ a) : write m ws a = m a := by
  unfold write
  induction ws generalizing m with
  | nil => rfl
  | cons w ws ih =>
      obtain ⟨hw, hws⟩ := List.forall_mem_cons.1 h
      rw [List.foldl_cons, ih hws, Function.update_of_ne hw.symm]

/-- A frame that is not written to. -/
theorem Suspended.congr {m m' : Mem} {sp stack size : Nat} {k : Core} (h : Suspended m sp stack size k)
    (hm : ∀ i < frameSize (excReturn k), m' (sp + i) = m (sp + i)) : Suspended m' sp stack size k := by
  refine ⟨h.eq, ?_, h.low, h.high⟩
  have hframe := h.frame
  unfold At at *
  rw [length_frame] at *
  rw [copyOut_congr hm]
  exact hframe

theorem Suspended.first {m : Mem} {sp stack size : Nat} {k : Core} (h : Suspended m sp stack size k) :
    m sp = excReturn k := at_singleton.1 (at_append.1 h.frame).1

/-- It ends within the stack. -/
theorem Suspended.end_le {m : Mem} {sp stack size : Nat} {k : Core} (h : Suspended m sp stack size k) :
    sp + frameSize (excReturn k) ≤ stack + size := by
  have hpos : 0 < frameSp k := by
    rw [← h.eq]
    exact Nat.zero_lt_of_lt h.low
  rw [h.eq]
  exact (frameSp_bounds hpos).2.trans h.high

/-- The frame of a new task. -/
theorem firstFrame_suspended (executeTask : Word) (t : Ptr) {stack size : Nat} (hsize : 50 ≤ size) (m : Mem) :
    ∃ k, Fresh executeTask t stack size k ∧
      Suspended (firstFrame executeTask t stack ((stack + size) / 2 * 2 - 17) m) ((stack + size) / 2 * 2 - 17) stack size
        k := by
  obtain ⟨sp, hsp⟩ : ∃ sp, (stack + size) / 2 * 2 = sp + 17 := Nat.exists_eq_add_of_le' (by omega)
  rw [hsp, Nat.add_sub_cancel]
  generalize hm : firstFrame executeTask t stack sp m = m'
  let k : Core :=
    { low := regs m' (sp + 9), xpsr := ⟨0x01000000, by decide⟩, high := regs m' (sp + 1), fpLow := fun _ => 0
      fpHigh := fun _ => 0, fpca := false, psp := sp + 17 }
  have hword : xpsrWord k = 0x01000000 := by
    have heven : (sp + 17) % 2 = 0 := by omega
    simp [xpsrWord, k, heven]
  have hcells : m' sp = 0xfffffffd ∧ m' (sp + 9) = t ∧ m' (sp + 14) = 0xdeadc0de ∧ m' (sp + 15) = executeTask ∧
      m' (sp + 16) = 0x01000000 := by
    subst hm
    simp [firstFrame]
  refine ⟨k, ⟨hcells.2.1, hcells.2.2.1, hcells.2.2.2.1, rfl, rfl, hsp.symm⟩, ?_, ?_, ?_, ?_⟩
  · show sp = (sp + 17 - 8) / 2 * 2 - 8 - 0 - 1
    omega
  · refine at_append.2 ⟨at_singleton.2 hcells.1, at_append.2 ⟨rfl, at_append.2 ⟨at_regs .., at_append.2 ⟨?_, ?_⟩⟩⟩⟩
    · exact at_regs 7 m' (sp + 9)
    · refine at_append.2 ⟨at_singleton.2 ?_, rfl⟩
      rw [hword]
      simpa using hcells.2.2.2.2
  · omega
  · show sp + 17 ≤ stack + size
    omega

/-- It is written within the stack. -/
theorem firstFrame_of_out (executeTask : Word) (t : Ptr) {stack size a : Nat} (hsize : 50 ≤ size)
    (ha : a < stack ∨ stack + size ≤ a) (m : Mem) :
    firstFrame executeTask t stack ((stack + size) / 2 * 2 - 17) m a = m a := by
  unfold firstFrame
  rw [Function.update_of_ne (by omega), Function.update_of_ne (by omega), Function.update_of_ne (by omega),
    Function.update_of_ne (by omega), Function.update_of_ne (by omega), Function.update_of_ne (by omega)]

theorem ring_ne_nil_iff {s : Sched} (h : Inv s) : s.ring ≠ [] ↔ s.currTask ≠ 0 := by
  rcases h with ⟨hcurr, hcnt⟩ | ⟨xs, hring, -⟩
  · exact iff_of_false (fun h => h (ring_of_taskCnt hcnt)) fun h => h hcurr
  · have hcurr : s.currTask ≠ 0 := fun h0 => hring.null (h0 ▸ List.mem_cons_self)
    exact iff_of_true (by rw [hring.ring_eq]; exact List.cons_ne_nil _ _) hcurr

theorem rel_create (h : Rel s p) {coroutine : Bool} {stack size : Nat} (hg : Apart s stack size)
    (hs : step executeTask s (.create t coroutine stack size) = some s') :
    ∃ p', Private.Step executeTask p (.create t coroutine stack size) p' ∧ Rel s' p' := by
  obtain ⟨sched, hsched, hs⟩ := Option.bind_eq_some_iff.1 hs
  obtain ⟨hsize, hs⟩ := Option.ite_none_right_eq_some.1 hs
  obtain rfl := Option.some.inj hs
  obtain ⟨ht0, ht, rfl⟩ := step_create hsched
  have hinv := step_inv h.inv hsched
  have hring := h.inv.ring_create ht ht0 coroutine
  obtain ⟨k, hfresh, hfirst⟩ := firstFrame_suspended executeTask t hsize s.mem
  rw [h.sched] at hsched
  refine ⟨_, .create hsched hfresh, ?_⟩
  -- a task that was there is not the new one, and there is a current one
  have hold {u : Ptr} (hu : u ∈ s.sched.ring) :
      u ≠ t ∧ (s.sched.initializeTask t coroutine).currTask = s.sched.currTask :=
    ⟨fun hut => ht (hut ▸ hu),
      Sched.initializeTask_currTask ((ring_ne_nil_iff h.inv).1 (List.ne_nil_of_mem hu)) t coroutine⟩
  have hcases {u : Ptr} (hu : u ∈ (s.sched.initializeTask t coroutine).ring) : u ∈ s.sched.ring ∨ u = t := by
    rw [hring] at hu
    exact (List.mem_append.1 hu).imp_right List.mem_singleton.1
  refine ⟨by rw [h.sched], hinv, fun u hu hne => ?_, fun hrun => ?_, fun u hu => ?_, fun u hu v hv hne => ?_⟩
  · rcases hcases hu with hu | rfl
    · obtain ⟨hut, hcurr⟩ := hold hu
      have hsusp := h.suspended u hu (hcurr ▸ hne)
      dsimp only
      rw [Function.update_of_ne hut, Function.update_of_ne hut, Function.update_of_ne hut, Function.update_of_ne hut]
      have hlow := hsusp.low
      have hend := hsusp.end_le
      have hapart := hg.2 u hu
      exact hsusp.congr fun i hi => firstFrame_of_out executeTask t hsize (by omega) s.mem
    · dsimp only
      rw [Function.update_self, Function.update_self, Function.update_self, Function.update_self]
      exact hfirst
  · have hcurr : s.sched.currTask ≠ 0 := by
      intro h0
      have hnil : s.sched.ring = [] := by
        by_contra hne
        exact (ring_ne_nil_iff h.inv).1 hne h0
      have hmem := hinv.curr_mem hrun.1
      rw [hring, hnil] at hmem
      have ht' : (s.sched.initializeTask t coroutine).currTask = t := List.mem_singleton.1 hmem
      apply hrun.2
      show ((s.sched.initializeTask t coroutine).task (s.sched.initializeTask t coroutine).currTask).state = .pending
      rw [ht', Sched.initializeTask_self]
    have hmem := h.inv.curr_mem hcurr
    obtain ⟨hne, hcurr'⟩ := hold hmem
    have hrun' : Running s.sched := by
      refine ⟨hcurr, ?_⟩
      have hstate := hrun.2
      dsimp only at hstate
      rw [hcurr', Sched.initializeTask_of_ne hne] at hstate
      exact hstate
    dsimp only
    rw [hcurr', Function.update_of_ne hne, Function.update_of_ne hne, Function.update_of_ne hne]
    exact h.running hrun'
  · dsimp only
    rcases hcases hu with hu | rfl
    · rw [Function.update_of_ne (hold hu).1]
      exact h.size u hu
    · rw [Function.update_self]
      exact hsize
  · dsimp only
    rcases hcases hu with hu' | hut
    · rw [Function.update_of_ne (hold hu').1, Function.update_of_ne (hold hu').1]
      rcases hcases hv with hv' | hvt
      · rw [Function.update_of_ne (hold hv').1, Function.update_of_ne (hold hv').1]
        exact h.apart u hu' v hv' hne
      · rw [hvt, Function.update_self, Function.update_self]
        exact (hg.2 u hu').symm
    · rw [hut, Function.update_self, Function.update_self]
      rcases hcases hv with hv' | hvt
      · rw [Function.update_of_ne (hold hv').1, Function.update_of_ne (hold hv').1]
        exact hg.2 v hv'
      · exact absurd (hut.trans hvt.symm) hne

/-- A step that keeps the ring. -/
theorem ring_setState {s : Sched} (h : Inv s) (hc : s.currTask ≠ 0) (st : TaskState) :
    (s.setState s.currTask st).ring = s.ring := by
  obtain ⟨xs, hring, -⟩ := h.ringed hc
  rw [hring.ring_eq, (hring.setState s.currTask st).ring_eq]

theorem rel_start (h : Rel s p) (hs : step executeTask s .start = some s') :
    ∃ p', Private.Step executeTask p .start p' ∧ Rel s' p' := by
  obtain ⟨sched, core⟩ := p
  obtain rfl : s.sched = sched := h.sched
  obtain ⟨sched, hsched, rfl⟩ := Option.map_eq_some_iff.1 hs
  have hinv := step_inv h.inv hsched
  obtain ⟨-, hcurr, rfl⟩ := step_start hsched
  have hring := ring_setState h.inv hcurr .active
  refine ⟨_, .start hsched (k := { s.core with
    psp := (s.stack s.sched.currTask + s.stackSize s.sched.currTask) / 2 * 2, fpca := false }) rfl, rfl, hinv,
    fun u hu hne => ?_, fun _ => ⟨?_, ?_⟩, fun u hu => ?_, fun u hu v hv => ?_⟩
  · have hne' : u ≠ s.sched.currTask := hne
    show Suspended s.mem (Function.update s.sp s.sched.currTask _ u) (s.stack u) (s.stackSize u)
      (Function.update core s.sched.currTask _ u)
    rw [Function.update_of_ne hne', Function.update_of_ne hne']
    exact h.suspended u (hring ▸ hu) hne'
  · show Same _ (Function.update core s.sched.currTask _ s.sched.currTask)
    rw [Function.update_self]
    exact Same.refl _
  · exact Nat.div_mul_le_self ..
  · exact h.size u (hring ▸ hu)
  · exact h.apart u (hring ▸ hu) v (hring ▸ hv)

theorem rel_work (h : Rel s p) {k : Core} {ws : List (Nat × Word)} (hg : Guard s (.work k ws))
    (hs : step executeTask s (.work k ws) = some s') :
    ∃ p', Private.Step executeTask p (.work k ws) p' ∧ Rel s' p' := by
  obtain rfl := Option.some.inj hs
  refine ⟨_, .work k ws, h.sched, h.inv, fun u hu hne => ?_, fun hrun => ⟨?_, (hg.1 hrun).2⟩, h.size, h.apart⟩
  · have hsusp := h.suspended u hu hne
    show Suspended (write s.mem ws) (s.sp u) (s.stack u) (s.stackSize u) (Function.update p.core p.sched.currTask k u)
    rw [← h.sched, Function.update_of_ne hne]
    refine hsusp.congr fun i hi => write_of_ne fun w hw => ?_
    have hout := hg.2 w hw u hu hne
    rw [hsusp.first] at hout
    omega
  · show Same k (Function.update p.core p.sched.currTask k s.sched.currTask)
    rw [h.sched, Function.update_self]
    exact Same.refl k

theorem rel_done (h : Rel s p) (hs : step executeTask s .done = some s') :
    ∃ p', Private.Step executeTask p .done p' ∧ Rel s' p' := by
  obtain ⟨sched, hsched, rfl⟩ := Option.map_eq_some_iff.1 hs
  have hinv := step_inv h.inv hsched
  obtain ⟨hcurr, hactive, rfl⟩ := step_done hsched
  have hring := ring_setState h.inv hcurr .done
  have hrunning : Running s.sched := ⟨hcurr, by rw [hactive]; decide⟩
  rw [h.sched] at hsched
  refine ⟨_, .done hsched, by rw [h.sched], hinv, fun u hu hne => ?_, fun _ => h.running hrunning, fun u hu => ?_,
    fun u hu v hv => ?_⟩
  · exact h.suspended u (hring ▸ hu) hne
  · exact h.size u (hring ▸ hu)
  · exact h.apart u (hring ▸ hu) v (hring ▸ hv)

/-- The next task is one of the ring, and none comes to the ring. -/
theorem schedule_ring {s s' : Sched} (h : Inv s) (hrun : Running s) (hs : s.schedule = some s') :
    s'.currTask ∈ s.ring ∧ (∀ t ∈ s'.ring, t ∈ s.ring) := by
  obtain ⟨xs, hring, ⟨-, -, c', xs', hl, hserved⟩ | ⟨-, -, y, ys, hxs, hserved⟩⟩ := h.schedule_cases hrun hs
  · rw [hring.ring_eq, hserved.ring.ring_eq, hserved.ring.curr, ← hl]
    have hperm := List.perm_append_singleton s.currTask xs
    refine ⟨?_, fun t ht => hperm.mem_iff.1 ht⟩
    rw [← hperm.mem_iff, hl]
    exact List.mem_cons_self
  · rw [hring.ring_eq, hserved.ring.ring_eq, hserved.ring.curr, hxs]
    exact ⟨List.mem_cons_of_mem _ List.mem_cons_self, fun t ht => List.mem_cons_of_mem _ ht⟩

/-- Once the current task is put away, all tasks are. -/
theorem putAway_suspended (h : Rel s p) (hrun : Running s.sched) (hc : CheckStack (putAway s)) {u : Ptr}
    (hu : u ∈ s.sched.ring) :
    Suspended (putAway s).mem ((putAway s).sp u) (s.stack u) (s.stackSize u) (p.core u) := by
  obtain ⟨hsame, hhigh⟩ := h.running hrun
  have hlow : s.stack s.sched.currTask < frameSp s.core := by
    have hlow := hc.1
    unfold putAway at hlow
    dsimp only at hlow
    rwa [Function.update_self, saveContext_sp] at hlow
  have hpos : 0 < frameSp s.core := Nat.zero_lt_of_lt hlow
  have hend := (frameSp_bounds hpos).2
  unfold putAway
  rw [saveContext_eq hpos]
  dsimp only
  by_cases hne : u = s.sched.currTask
  · rw [hne, Function.update_self]
    obtain ⟨hframe, hsp⟩ := hsame.frame
    refine ⟨hsp, ?_, hlow, ?_⟩
    · rw [← hframe]
      exact copyOut_copyIn_self ..
    · rw [← hsame.psp]
      exact hhigh
  · rw [Function.update_of_ne hne]
    have hsusp := h.suspended u hu hne
    have hlow' := hsusp.low
    have hend' := hsusp.end_le
    have hapart := h.apart u hu s.sched.currTask (h.inv.curr_mem hrun.1) hne
    refine hsusp.congr fun i hi => dif_neg ?_
    rw [length_frame]
    omega

theorem rel_pendSV (h : Rel s p) (hs : step executeTask s .pendSV = some s') :
    ∃ p', Private.Step executeTask p .pendSV p' ∧ Rel s' p' := by
  obtain ⟨hrun, hs⟩ := Option.ite_none_right_eq_some.1 hs
  obtain ⟨hc, hs⟩ := Option.ite_none_right_eq_some.1 hs
  obtain ⟨sched, hsched, rfl⟩ := Option.map_eq_some_iff.1 hs
  have hstep : Yield.step s.sched .schedule = some sched := by
    rw [Yield.step, if_pos hrun]
    exact hsched
  obtain ⟨hnext, hring⟩ := schedule_ring h.inv hrun hsched
  refine ⟨_, .pendSV (h.sched ▸ hstep), rfl, step_inv h.inv hstep, fun u hu _ => ?_, fun _ => ?_, fun u hu => ?_,
    fun u hu v hv => ?_⟩
  · exact putAway_suspended h hrun hc (hring u hu)
  · have hsusp := putAway_suspended h hrun hc hnext
    have hpos : 0 < frameSp (p.core sched.currTask) := by
      rw [← hsusp.eq]
      exact Nat.zero_lt_of_lt hsusp.low
    have hsame := restoreContext_frame hpos (hsusp.eq ▸ hsusp.frame) s.core
    rw [← hsusp.eq] at hsame
    exact ⟨hsame, hsame.psp.le.trans hsusp.high⟩
  · exact h.size u (hring u hu)
  · exact h.apart u (hring u hu) v (hring v hv)

/-- Each step of the switch is one of the tasks on processors of their own. -/
theorem step_rel {e : Event} (h : Rel s p) (hg : Guard s e) (hs : step executeTask s e = some s') :
    ∃ p', Private.Step executeTask p e p' ∧ Rel s' p' := by
  cases e with
  | create t coroutine stack size => exact rel_create h hg hs
  | start => exact rel_start h hs
  | work k ws => exact rel_work h hg hs
  | done => exact rel_done h hs
  | pendSV => exact rel_pendSV h hs

theorem rel_boot (h : Boot s.sched) (core : Ptr → Core) : Rel s ⟨s.sched, core⟩ := by
  have hring : s.sched.ring = [] := ring_of_taskCnt h.taskCnt
  refine ⟨rfl, h.inv, ?_, fun hrun => absurd h.currTask hrun.1, ?_, ?_⟩
  · rw [hring]
    exact nofun
  · rw [hring]
    exact nofun
  · rw [hring]
    exact nofun

/-- **Tasks do not see the switch**: whatever they do, and in whatever order they are created, run and end, there is a run
in which each has a processor of its own that no switch changes, and the one that runs has the same in its registers. -/
theorem refines (h : Boot s.sched) (core : Ptr → Core) {es : List Event} (hm : Meets (step executeTask) Guard s es)
    (hr : run (step executeTask) s es = some s') :
    ∃ p', Runs (Private.Step executeTask) ⟨s.sched, core⟩ es p' ∧ p'.sched = s'.sched ∧
      (Running s'.sched → Same s'.core (p'.core s'.sched.currTask)) := by
  obtain ⟨p', hruns, hrel⟩ := runs_of_simulates (fun _ _ _ _ => step_rel) (rel_boot h core) hm hr
  exact ⟨p', hruns, hrel.sched.symm, fun hrun => (hrel.running hrun).1⟩

end

/-- Registers in use, the floating point registers among them. -/
def busy : Core :=
  { low := fun i => BitVec.ofNat 32 i, xpsr := ⟨0x01000000, by decide⟩, high := fun i => BitVec.ofNat 32 (4 + i)
    fpLow := fun i => BitVec.ofNat 32 (32 + i), fpHigh := fun i => BitVec.ofNat 32 (64 + i), fpca := true
    psp := 0x0800103d }

/-- A machine with cleared memory, before tasks are created. -/
def cleared : Machine := ⟨busy, fun _ => 0, reset, fun _ => 0, fun _ => 0, fun _ => 0⟩

/-- Two tasks: the first one works, with the stack pointer at an odd word, and is switched away from and back to. -/
def twoTasks : List Event :=
  [.create 16 false 0x08001000 64, .create 32 false 0x08002000 64, .start, .work busy [(0x08001040, 5)], .pendSV, .pendSV]

theorem refines_twoTasks :
    ∃ s' p', run (step 0x08000101) cleared twoTasks = some s' ∧
      Runs (Private.Step 0x08000101) ⟨reset, fun _ => busy⟩ twoTasks p' ∧ p'.sched = s'.sched ∧
      (Running s'.sched → Same s'.core (p'.core s'.sched.currTask)) := by
  obtain ⟨s', hs'⟩ := Option.isSome_iff_exists.1
    (show (run (step 0x08000101) cleared twoTasks).isSome = true by decide +kernel)
  obtain ⟨p', hp'⟩ := refines (s := cleared) reset_boot (fun _ => busy) (by decide +kernel) hs'
  exact ⟨s', p', hs', hp'⟩

end YieldStm32.Yield.Context
