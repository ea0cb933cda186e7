import YieldStm32.Lib.RoundRobin
import YieldStm32.Sys.Yield.Tasks

/-!
# Waiting for a task (`Yield_Wait`)

A waiter keeps the descriptor it found, and reads its `handler_done` at each of its turns. That the descriptor is still
the same task's rests on the order of the ring: a task whose handler has returned gets one more turn before it is done,
and every task that waits for it has its own turn before that.

* `InDomain` : fewer than 2^31 tasks, and calls of `Yield_Run` that do not overlap;
* `Tidy` : the invariant, `wait` is the part about waiters;
* `Exact` : what a pass of `Yield_Wait` reads and returns;
* `Spared` : it is not about the task of `Yield_Start` after its handler has returned, unless the time is up;
* `exact_iff_spared` : over every run in the domain.
-/

namespace YieldStm32.Yield

open Transition RoundRobin

/-! ## Finding a task by its id -/

variable {c c' : Sched} {t : Ptr} {i : BitVec 32}

def Sched.hasID (c : Sched) (i : BitVec 32) (t : Ptr) : Bool := (c.task t).id = i

theorem hasID_iff : c.hasID i t = true ↔ (c.task t).id = i := decide_eq_true_iff

/-- The loop of `Yield_GetTaskByID` goes along the ring, up to the current task. -/
theorem searchID_chain {u : Ptr} {us : List Ptr} (hchain : List.IsChain (Circular.Linked c.next c.prev) (u :: us))
    (hcurr : c.currTask ∉ us) (hclose : ∀ p ∈ (u :: us).getLast?, c.next p = c.currTask) :
    c.searchID i (us.length + 1) u = (u :: us).find? (c.hasID i) := by
  induction us generalizing u with
  | nil =>
      rw [Sched.searchID, hclose u rfl, if_pos rfl]
      by_cases hu : (c.task u).id = i
      · rw [if_pos hu, List.find?_cons_of_pos (hasID_iff.2 hu)]
      · rw [if_neg hu, List.find?_cons_of_neg (hasID_iff.not.2 hu), List.find?_nil]
  | cons v vs ih =>
      obtain ⟨hlink, hrest⟩ := List.isChain_cons_cons.1 hchain
      have hv : v ≠ c.currTask := fun he => hcurr (he ▸ List.mem_cons_self)
      have hrec := ih hrest (fun hm => hcurr (List.mem_cons_of_mem v hm)) fun p hp =>
        hclose p (by rw [List.getLast?_cons_cons]; exact hp)
      rw [List.length_cons, Sched.searchID, hlink.1, if_neg hv, hrec]
      by_cases hu : (c.task u).id = i
      · rw [if_pos hu, List.find?_cons_of_pos (hasID_iff.2 hu)]
      · rw [if_neg hu, List.find?_cons_of_neg (hasID_iff.not.2 hu)]

/-- **`Yield_GetTaskByID` searches the ring.** -/
theorem getTaskByID_eq {xs : List Ptr} (h : Ringed c c.currTask xs) :
    c.getTaskByID i = c.ring.find? (c.hasID i) := by
  rw [Sched.getTaskByID, h.count, h.ring_eq]
  exact searchID_chain h.closed.chain h.closed.not_mem fun p hp => (h.closed.close p hp).1

theorem mem_of_getTaskByID (h : Inv c) (hc : c.currTask ≠ 0) (hf : c.getTaskByID i = some t) :
    t ∈ c.ring ∧ (c.task t).id = i := by
  obtain ⟨xs, hring, -⟩ := h.ringed hc
  rw [getTaskByID_eq hring] at hf
  exact ⟨List.mem_of_find?_eq_some hf, hasID_iff.1 (List.find?_some hf)⟩

theorem not_mem_of_getTaskByID (h : Inv c) (hc : c.currTask ≠ 0) (hf : c.getTaskByID i = none) :
    ∀ t ∈ c.ring, (c.task t).id ≠ i := by
  obtain ⟨xs, hring, -⟩ := h.ringed hc
  rw [getTaskByID_eq hring] at hf
  intro t ht he
  exact List.find?_eq_none.1 hf t ht (hasID_iff.2 he)

/-! ## The invariant -/

/-- The task is in `Yield_Run`. -/
def Claiming : Pc → Prop
  | .searching => True
  | .found _ => True
  | _ => False

instance : ∀ pc, Decidable (Claiming pc)
  | .searching | .found _ => isTrue trivial
  | .running | .waiting .. | .returned | .looping => isFalse fun h => h

/-- `Yield_Run` is not called while another task is in it. -/
def Alone (s : System) : Call → Prop
  | .run => ∀ t ∈ s.sched.ring, ¬ Claiming (s.pc t)
  | _ => True

instance (s : System) : ∀ e, Decidable (Alone s e)
  | .run => decidable_of_iff ((s.sched.ring.all fun t => decide (¬ Claiming (s.pc t))) = true) (by
      simp only [List.all_eq_true, decide_eq_true_eq]
      exact Iff.rfl)
  | .task _ | .start | .yield | .wait .. | .ret | .resume .. => isTrue trivial

/-- Fewer than 2^31 tasks were created, and calls of `Yield_Run` do not overlap. -/
def InDomain (s : System) (e : Call) : Prop := s.inits.length < 2 ^ 31 ∧ Alone s e

instance (s : System) (e : Call) : Decidable (InDomain s e) := inferInstanceAs (Decidable (_ ∧ _))

/-- Ids tell the tasks of the ring apart; `handler_done` and the places of the tasks agree; and a task that waits for one
whose handler has returned has its turn before it. -/
structure Tidy (s : System) : Prop where
  good : Good s.sched s.coroutines
  next : s.sched.nextTaskId = BitVec.ofNat 32 (s.inits.length + 1)
  issued : ∀ p i, (p, i) ∈ s.inits → 0 < i.toNat ∧ i.toNat ≤ s.inits.length
  known : ∀ t ∈ s.sched.ring, ∃ p, (p, (s.sched.task t).id) ∈ s.inits
  inj : ∀ t ∈ s.sched.ring, ∀ u ∈ s.sched.ring, (s.sched.task t).id = (s.sched.task u).id → t = u
  gone : ∀ p i, (p, i) ∈ s.inits → s.returned i = true ∨ ∃ t ∈ s.sched.ring, (s.sched.task t).id = i
  ret : ∀ t ∈ s.sched.ring, s.returned (s.sched.task t).id = true ↔ s.pc t = .returned ∨ s.pc t = .looping
  flag : ∀ t ∈ s.sched.ring, (s.sched.task t).handlerDone = true ↔ s.pc t = .returned
  wait : ∀ w ∈ s.sched.ring, ∀ t i l, s.pc w = .waiting t i l →
    t ∈ s.sched.ring ∧ (s.sched.task t).id = i ∧ ((s.sched.task t).handlerDone = true → Before w t s.sched.ring)
  single : ∀ a ∈ s.sched.ring, ∀ b ∈ s.sched.ring, Claiming (s.pc a) → Claiming (s.pc b) → a = b
  free : ∀ a ∈ s.sched.ring, ∀ k, s.pc a = .found k → s.Free k

variable {s s' : System}

/-- Only the current task changes its place, and only its `handler_done` may change. -/
structure Moves (s s' : System) (c : Ptr) : Prop where
  inits : s'.inits = s.inits
  next : s'.sched.nextTaskId = s.sched.nextTaskId
  id : ∀ p, (s'.sched.task p).id = (s.sched.task p).id
  handlerDone : ∀ p, p ≠ c → (s'.sched.task p).handlerDone = (s.sched.task p).handlerDone
  returned : ∀ i, i ≠ (s.sched.task c).id → s'.returned i = s.returned i
  pc : ∀ p, p ≠ c → s'.pc p = s.pc p
  free : ∀ k, s.Free k → s'.Free k

/-- The place the current task comes to. -/
structure Placed (s s' : System) (c : Ptr) : Prop where
  ret : s'.returned (s.sched.task c).id = true ↔ s'.pc c = .returned ∨ s'.pc c = .looping
  flag : (s'.sched.task c).handlerDone = true ↔ s'.pc c = .returned
  wait : ∀ t i l, s'.pc c = .waiting t i l →
    t ∈ s.sched.ring ∧ (s.sched.task t).id = i ∧ (s'.sched.task t).handlerDone ≠ true
  single : Claiming (s'.pc c) → ∀ b ∈ s.sched.ring, Claiming (s.pc b) → b = c
  free : ∀ k, s'.pc c = .found k → s.Free k

section Moves

variable {x : Ptr}

theorem Moves.nextTaskId (hm : Moves s s' x) (h : Tidy s) :
    s'.sched.nextTaskId = BitVec.ofNat 32 (s'.inits.length + 1) := by
  rw [hm.next, hm.inits, h.next]

theorem Moves.issued (hm : Moves s s' x) (h : Tidy s) :
    ∀ p i, (p, i) ∈ s'.inits → 0 < i.toNat ∧ i.toNat ≤ s'.inits.length := by
  rw [hm.inits]
  exact h.issued

theorem Moves.known (hm : Moves s s' x) (h : Tidy s) (hsub : ∀ t ∈ s'.sched.ring, t ∈ s.sched.ring) :
    ∀ t ∈ s'.sched.ring, ∃ p, (p, (s'.sched.task t).id) ∈ s'.inits := by
  intro t ht
  rw [hm.id, hm.inits]
  exact h.known t (hsub t ht)

theorem Moves.inj (hm : Moves s s' x) (h : Tidy s) (hsub : ∀ t ∈ s'.sched.ring, t ∈ s.sched.ring) :
    ∀ t ∈ s'.sched.ring, ∀ u ∈ s'.sched.ring, (s'.sched.task t).id = (s'.sched.task u).id → t = u := by
  intro t ht u hu he
  rw [hm.id, hm.id] at he
  exact h.inj t (hsub t ht) u (hsub u hu) he

/-- The current task comes to another place, and no task is gone. What it does to the order of the ring, it does to that
of the other waiters and the tasks they wait for. -/
theorem Tidy.moved (h : Tidy s) (hgood : Good s'.sched s'.coroutines) (hx : x ∈ s.sched.ring)
    (hmem : ∀ t, t ∈ s'.sched.ring ↔ t ∈ s.sched.ring) (hm : Moves s s' x) (hp : Placed s s' x)
    (hbefore : ∀ w ∈ s.sched.ring, w ≠ x → ∀ t, (s'.sched.task t).handlerDone = true →
      ((s.sched.task t).handlerDone = true → Before w t s.sched.ring) → Before w t s'.sched.ring) : Tidy s' := by
  have hsub : ∀ t ∈ s'.sched.ring, t ∈ s.sched.ring := fun t => (hmem t).1
  have hne : ∀ t ∈ s.sched.ring, t ≠ x → (s.sched.task t).id ≠ (s.sched.task x).id := fun t ht htx he =>
    htx (h.inj t ht x hx he)
  refine
    { good := hgood, next := hm.nextTaskId h, issued := hm.issued h, known := hm.known h hsub, inj := hm.inj h hsub
      gone := ?_, ret := ?_, flag := ?_, wait := ?_, single := ?_, free := ?_ }
  · intro p j hj
    rw [hm.inits] at hj
    by_cases hjx : j = (s.sched.task x).id
    · exact .inr ⟨x, (hmem x).2 hx, by rw [hm.id, hjx]⟩
    · rw [hm.returned j hjx]
      refine (h.gone p j hj).imp_right ?_
      rintro ⟨t, ht, he⟩
      exact ⟨t, (hmem t).2 ht, by rw [hm.id, he]⟩
  · intro t ht
    rw [hm.id]
    by_cases htx : t = x
    · rw [htx]
      exact hp.ret
    · rw [hm.returned _ (hne t (hsub t ht) htx), hm.pc t htx]
      exact h.ret t (hsub t ht)
  · intro t ht
    by_cases htx : t = x
    · rw [htx]
      exact hp.flag
    · rw [hm.handlerDone t htx, hm.pc t htx]
      exact h.flag t (hsub t ht)
  · intro w hw t j l hpc
    rw [hmem, hm.id]
    by_cases hwx : w = x
    · rw [hwx] at hpc
      obtain ⟨ht, hid, hnot⟩ := hp.wait t j l hpc
      exact ⟨ht, hid, fun hd => absurd hd hnot⟩
    · rw [hm.pc w hwx] at hpc
      obtain ⟨ht, hid, hb⟩ := h.wait w (hsub w hw) t j l hpc
      exact ⟨ht, hid, fun hd => hbefore w (hsub w hw) hwx t hd hb⟩
  · intro a ha b hb hca hcb
    rw [hmem] at ha hb
    by_cases hax : a = x
    · by_cases hbx : b = x
      · rw [hax, hbx]
      · rw [hm.pc b hbx] at hcb
        rw [hax] at hca
        exact absurd (hp.single hca b hb hcb) hbx
    · rw [hm.pc a hax] at hca
      by_cases hbx : b = x
      · rw [hbx] at hcb
        exact absurd (hp.single hcb a ha hca) hax
      · rw [hm.pc b hbx] at hcb
        exact h.single a ha b hb hca hcb
  · intro a ha k hk
    apply hm.free
    by_cases hax : a = x
    · rw [hax] at hk
      exact hp.free k hk
    · rw [hm.pc a hax] at hk
      exact h.free a (hsub a ha) k hk

/-- The current task yields: it is behind all tasks that wait for it. -/
theorem Tidy.rotate {xs : List Ptr} (h : Tidy s) (hgood : Good s'.sched s'.coroutines)
    (hring : s.sched.ring = x :: xs) (hring' : s'.sched.ring = xs ++ [x]) (hm : Moves s s' x) (hp : Placed s s' x) :
    Tidy s' := by
  have hmem : ∀ t, t ∈ s'.sched.ring ↔ t ∈ s.sched.ring := fun t => by
    rw [hring', hring, (List.perm_append_singleton x xs).mem_iff]
  apply h.moved hgood (hring ▸ List.mem_cons_self) hmem hm hp
  intro w hw hwx t hd hb
  rw [hring] at hw hb
  rw [hring']
  by_cases htx : t = x
  · rw [htx]
    exact before_last ((List.mem_cons.1 hw).resolve_left hwx)
  · rw [hm.handlerDone t htx] at hd
    exact ((hb hd).tail hwx).append [x]

end Moves

/-- The task's handler has not returned. -/
def Busy (pc : Pc) : Prop := pc ≠ .returned ∧ pc ≠ .looping

theorem System.InHandler.busy (h : s.InHandler) : Busy (s.pc s.sched.currTask) := by
  rw [h.2]
  simp [Busy]

/-- A place outside of `Yield_Run` and `Yield_Wait`. -/
def Outside (pc : Pc) : Prop := ¬ Claiming pc ∧ ∀ t i l, pc ≠ .waiting t i l

theorem Outside.ne_found {pc : Pc} (h : Outside pc) (k : Fin coroMaxNum) : pc ≠ .found k := by
  rintro rfl
  exact h.1 trivial

/-- A task that comes to such a place neither waits nor holds a slot. -/
theorem Outside.placed {x : Ptr} (h : Outside (s'.pc x))
    (hret : s'.returned (s.sched.task x).id = true ↔ s'.pc x = .returned ∨ s'.pc x = .looping)
    (hflag : (s'.sched.task x).handlerDone = true ↔ s'.pc x = .returned) : Placed s s' x where
  ret := hret
  flag := hflag
  wait t i l he := absurd he (h.2 t i l)
  single hcl := absurd hcl h.1
  free k he := absurd he (h.ne_found k)

theorem answer_pc_self (s : System) (r : Ret) : (s.answer r).pc s.sched.currTask = .running := Function.update_self ..

theorem answer_pc_of_ne {p : Ptr} (h : p ≠ s.sched.currTask) (r : Ret) : (s.answer r).pc p = s.pc p :=
  Function.update_of_ne h ..

/-- The current task goes back to its handler. -/
theorem Tidy.answer (h : Tidy s) (hrun : Running s.sched) (hbusy : Busy (s.pc s.sched.currTask)) (r : Ret) :
    Tidy (s.answer r) := by
  have hself := answer_pc_self s r
  have hx := h.good.inv.curr_mem hrun.1
  have hgood : Good (s.answer r).sched (s.answer r).coroutines := h.good
  have hm : Moves s (s.answer r) s.sched.currTask :=
    ⟨rfl, rfl, fun _ => rfl, fun _ _ => rfl, fun _ _ => rfl, fun _ hp => answer_pc_of_ne hp r, fun _ hk => hk⟩
  have hout : Outside ((s.answer r).pc s.sched.currTask) := by
    rw [hself]
    exact ⟨id, nofun⟩
  apply h.moved hgood hx (fun _ => Iff.rfl) hm
  · apply hout.placed
    · rw [hself]
      exact iff_of_false (fun hr => not_or.2 hbusy ((h.ret _ hx).1 hr)) (by simp)
    · rw [hself]
      exact iff_of_false (fun hd => hbusy.1 ((h.flag _ hx).1 hd)) (by simp)
  · exact fun _ _ _ _ hd hb => hb hd

/-- The current task leaves. No task waits for it any more: it would have had its turn before. -/
theorem Tidy.leave {x : Ptr} (h : Tidy s) (hgood : Good s'.sched s'.coroutines)
    (hring : s.sched.ring = x :: s'.sched.ring) (hm : Moves s s' x) (hret : s'.returned = s.returned)
    (hpc : s.pc x = .returned) : Tidy s' := by
  have hnodup : (x :: s'.sched.ring).Nodup := hring ▸ h.good.inv.ring_nodup
  have hx : x ∉ s'.sched.ring := (List.nodup_cons.1 hnodup).1
  have hmem : ∀ t ∈ s'.sched.ring, t ∈ s.sched.ring := fun t ht => hring ▸ List.mem_cons_of_mem x ht
  have hne : ∀ t ∈ s'.sched.ring, t ≠ x := fun t ht he => hx (he ▸ ht)
  refine
    { good := hgood, next := hm.nextTaskId h, issued := hm.issued h, known := hm.known h hmem, inj := hm.inj h hmem
      gone := ?_
      ret := fun t ht => by rw [hm.id, hret, hm.pc t (hne t ht)]; exact h.ret t (hmem t ht)
      flag := fun t ht => by rw [hm.handlerDone t (hne t ht), hm.pc t (hne t ht)]; exact h.flag t (hmem t ht)
      wait := ?_
      single := fun a ha b hb hca hcb => by
        rw [hm.pc a (hne a ha)] at hca
        rw [hm.pc b (hne b hb)] at hcb
        exact h.single a (hmem a ha) b (hmem b hb) hca hcb
      free := fun a ha k hk => by
        rw [hm.pc a (hne a ha)] at hk
        exact hm.free k (h.free a (hmem a ha) k hk) }
  · intro p j hj
    rw [hm.inits] at hj
    rw [hret]
    rcases h.gone p j hj with hr | ⟨t, ht, he⟩
    · exact .inl hr
    · by_cases htx : t = x
      · left
        rw [← he, h.ret t ht, htx]
        exact .inl hpc
      · right
        exact ⟨t, (List.mem_cons.1 (hring ▸ ht)).resolve_left htx, by rw [hm.id, he]⟩
  · intro w hw t j l hpcw
    have hwx := hne w hw
    rw [hm.pc w hwx] at hpcw
    obtain ⟨ht, hid, hbefore⟩ := h.wait w (hmem w hw) t j l hpcw
    rw [hring] at hbefore
    have htx : t ≠ x := by
      rintro rfl
      exact not_before_head hx hwx (hbefore ((h.flag t ht).2 hpc))
    refine ⟨(List.mem_cons.1 (hring ▸ ht)).resolve_left htx, by rw [hm.id, hid], fun hd => ?_⟩
    rw [hm.handlerDone t htx] at hd
    exact (hbefore hd).tail hwx

/-- A task was created in `t`. -/
structure Creates (s s' : System) (t : Ptr) : Prop where
  ring : s'.sched.ring = s.sched.ring ++ [t]
  fresh : t ∉ s.sched.ring
  id : (s'.sched.task t).id = s.sched.nextTaskId
  handlerDone : (s'.sched.task t).handlerDone = false
  task : ∀ p, p ≠ t → s'.sched.task p = s.sched.task p
  next : s'.sched.nextTaskId = s.sched.nextTaskId + 1
  pc_self : s'.pc t = .running
  pc : ∀ p, p ≠ t → s'.pc p = s.pc p
  returned : s'.returned = Function.update s.returned s.sched.nextTaskId false
  inits : s'.inits = (t, s.sched.nextTaskId) :: s.inits

/-- A new id is larger than all others. -/
theorem Tidy.next_toNat (h : Tidy s) (hlt : s.inits.length < 2 ^ 31) :
    s.sched.nextTaskId.toNat = s.inits.length + 1 := by
  rw [h.next, BitVec.toNat_ofNat]
  exact Nat.mod_eq_of_lt (by omega)

theorem Tidy.ne_next (h : Tidy s) (hlt : s.inits.length < 2 ^ 31) {p : Ptr} (hi : (p, i) ∈ s.inits) :
    i ≠ s.sched.nextTaskId := by
  rintro rfl
  have hle := (h.issued p _ hi).2
  have hnext := h.next_toNat hlt
  omega

theorem Tidy.id_ne_next (h : Tidy s) (hlt : s.inits.length < 2 ^ 31) (ht : t ∈ s.sched.ring) :
    (s.sched.task t).id ≠ s.sched.nextTaskId := by
  obtain ⟨p, hp⟩ := h.known t ht
  exact h.ne_next hlt hp

section Creates

variable {u : Ptr}

theorem Creates.mem_iff (hc : Creates s s' t) : u ∈ s'.sched.ring ↔ u ∈ s.sched.ring ∨ u = t := by
  rw [hc.ring, List.mem_append, List.mem_singleton]

theorem Creates.ne (hc : Creates s s' t) (hu : u ∈ s.sched.ring) : u ≠ t := fun he => hc.fresh (he ▸ hu)

theorem Creates.issued (hc : Creates s s' t) (h : Tidy s) (hlt : s.inits.length < 2 ^ 31) :
    ∀ p i, (p, i) ∈ s'.inits → 0 < i.toNat ∧ i.toNat ≤ s'.inits.length := by
  intro p j hj
  rw [hc.inits] at hj ⊢
  rw [List.length_cons]
  rcases List.mem_cons.1 hj with he | hj
  · rw [(Prod.mk.inj he).2, h.next_toNat hlt]
    omega
  · have hle := h.issued p j hj
    omega

theorem Creates.known (hc : Creates s s' t) (h : Tidy s) :
    ∀ u ∈ s'.sched.ring, ∃ p, (p, (s'.sched.task u).id) ∈ s'.inits := by
  intro u hu
  rw [hc.inits]
  rcases hc.mem_iff.1 hu with hu | rfl
  · rw [hc.task u (hc.ne hu)]
    obtain ⟨p, hp⟩ := h.known u hu
    exact ⟨p, List.mem_cons_of_mem _ hp⟩
  · exact ⟨u, by rw [hc.id]; exact List.mem_cons_self⟩

theorem Creates.inj (hc : Creates s s' t) (h : Tidy s) (hlt : s.inits.length < 2 ^ 31) :
    ∀ u ∈ s'.sched.ring, ∀ v ∈ s'.sched.ring, (s'.sched.task u).id = (s'.sched.task v).id → u = v := by
  intro u hu v hv he
  rcases hc.mem_iff.1 hu with hu | rfl
  · rcases hc.mem_iff.1 hv with hv | rfl
    · rw [hc.task u (hc.ne hu), hc.task v (hc.ne hv)] at he
      exact h.inj u hu v hv he
    · rw [hc.task u (hc.ne hu), hc.id] at he
      exact absurd he (h.id_ne_next hlt hu)
  · rcases hc.mem_iff.1 hv with hv | rfl
    · rw [hc.task v (hc.ne hv), hc.id] at he
      exact absurd he.symm (h.id_ne_next hlt hv)
    · rfl

theorem Creates.gone (hc : Creates s s' t) (h : Tidy s) (hlt : s.inits.length < 2 ^ 31) :
    ∀ p i, (p, i) ∈ s'.inits → s'.returned i = true ∨ ∃ u ∈ s'.sched.ring, (s'.sched.task u).id = i := by
  intro p j hj
  rw [hc.inits] at hj
  rw [hc.returned]
  rcases List.mem_cons.1 hj with he | hj
  · exact .inr ⟨t, hc.mem_iff.2 (.inr rfl), by rw [hc.id, (Prod.mk.inj he).2]⟩
  · rw [Function.update_of_ne (h.ne_next hlt hj)]
    refine (h.gone p j hj).imp_right ?_
    rintro ⟨u, hu, he⟩
    exact ⟨u, hc.mem_iff.2 (.inl hu), by rw [hc.task u (hc.ne hu), he]⟩

theorem Creates.wait (hc : Creates s s' t) (h : Tidy s) : ∀ w ∈ s'.sched.ring, ∀ u i l, s'.pc w = .waiting u i l →
    u ∈ s'.sched.ring ∧ (s'.sched.task u).id = i ∧
      ((s'.sched.task u).handlerDone = true → Before w u s'.sched.ring) := by
  intro w hw u j l hpc
  rcases hc.mem_iff.1 hw with hw | rfl
  · rw [hc.pc w (hc.ne hw)] at hpc
    obtain ⟨hu, hj, hbefore⟩ := h.wait w hw u j l hpc
    rw [hc.task u (hc.ne hu), hc.ring]
    exact ⟨List.mem_append_left _ hu, hj, fun hd => (hbefore hd).append [t]⟩
  · rw [hc.pc_self] at hpc
    cases hpc

/-- The new task is in its handler, and none of those in `Yield_Run`. -/
theorem Creates.single (hc : Creates s s' t) (h : Tidy s) : ∀ a ∈ s'.sched.ring, ∀ b ∈ s'.sched.ring,
    Claiming (s'.pc a) → Claiming (s'.pc b) → a = b := by
  have hold : ∀ a ∈ s'.sched.ring, Claiming (s'.pc a) → a ∈ s.sched.ring ∧ Claiming (s.pc a) := by
    intro a ha hca
    rcases hc.mem_iff.1 ha with ha | rfl
    · rw [hc.pc a (hc.ne ha)] at hca
      exact ⟨ha, hca⟩
    · rw [hc.pc_self] at hca
      exact hca.elim
  intro a ha b hb hca hcb
  obtain ⟨ha, hca⟩ := hold a ha hca
  obtain ⟨hb, hcb⟩ := hold b hb hcb
  exact h.single a ha b hb hca hcb

/-- A task is created. -/
theorem Tidy.create (h : Tidy s) (hlt : s.inits.length < 2 ^ 31) (hc : Creates s s' t)
    (hgood : Good s'.sched s'.coroutines)
    (hfree : ∀ a ∈ s.sched.ring, ∀ k, s.pc a = .found k → s'.Free k) : Tidy s' := by
  refine
    { good := hgood, next := ?_, issued := hc.issued h hlt, known := hc.known h, inj := hc.inj h hlt
      gone := hc.gone h hlt, ret := ?_, flag := ?_, wait := hc.wait h, single := hc.single h, free := ?_ }
  · rw [hc.next, hc.inits, h.next, List.length_cons]
    exact (BitVec.ofNat_add _ _).symm
  · intro u hu
    rw [hc.returned]
    rcases hc.mem_iff.1 hu with hu | rfl
    · rw [hc.task u (hc.ne hu), Function.update_of_ne (h.id_ne_next hlt hu), hc.pc u (hc.ne hu)]
      exact h.ret u hu
    · rw [hc.id, Function.update_self, hc.pc_self]
      simp
  · intro u hu
    rcases hc.mem_iff.1 hu with hu | rfl
    · rw [hc.task u (hc.ne hu), hc.pc u (hc.ne hu)]
      exact h.flag u hu
    · rw [hc.handlerDone, hc.pc_self]
      simp
  · intro a ha k hk
    rcases hc.mem_iff.1 ha with ha | rfl
    · rw [hc.pc a (hc.ne ha)] at hk
      exact hfree a ha k hk
    · rw [hc.pc_self] at hk
      cases hk

end Creates

/-! ## Steps keep the invariant -/

theorem switch_moves {c : Sched} (ht : Turned s.sched c) (pc : Pc) :
    Moves s
      { s with
        sched := c
        pc := Function.update s.pc s.sched.currTask pc
        ret := Function.update s.ret s.sched.currTask none } s.sched.currTask where
  inits := rfl
  next := ht.nextTaskId
  id p := (ht.alike p).id
  handlerDone p _ := (ht.alike p).handlerDone
  returned _ _ := rfl
  pc _ hp := Function.update_of_ne hp ..
  free _ hk := hk.imp_right (ht.done _)

/-- A call of the scheduler that keeps its place, or is made at a place of `Yield_Run` or `Yield_Wait`. -/
theorem tidy_switch {pc : Pc} (h : Tidy s) (hrun : Running s.sched) (hs : s.switch pc = some s')
    (hkind : (Busy (s.pc s.sched.currTask) ∧ Busy pc) ∨ (s.pc s.sched.currTask = .looping ∧ pc = .looping))
    (hwait : ∀ t i l, pc = .waiting t i l →
      t ∈ s.sched.ring ∧ (s.sched.task t).id = i ∧ (s.sched.task t).handlerDone ≠ true)
    (hsingle : Claiming pc → ∀ b ∈ s.sched.ring, Claiming (s.pc b) → b = s.sched.currTask)
    (hfree : ∀ k, pc = .found k → s.Free k) : Tidy s' := by
  obtain ⟨c, hc, rfl⟩ := switch_some hs
  obtain ⟨hgood, hturned⟩ := h.good.schedule hrun hc
  obtain ⟨xs, hring, hring'⟩ := hturned.ring
  have hx := h.good.inv.curr_mem hrun.1
  have hself : Function.update s.pc s.sched.currTask pc s.sched.currTask = pc := Function.update_self ..
  apply h.rotate hgood hring hring' (switch_moves hturned pc)
  refine ⟨?_, ?_, ?_, ?_, ?_⟩
  · show s.returned _ = true ↔ Function.update s.pc s.sched.currTask pc s.sched.currTask = .returned ∨
      Function.update s.pc s.sched.currTask pc s.sched.currTask = .looping
    rw [hself, h.ret _ hx]
    rcases hkind with ⟨hold, hnew⟩ | ⟨hold, rfl⟩
    · exact iff_of_false (not_or.2 hold) (not_or.2 hnew)
    · exact iff_of_true (.inr hold) (.inr rfl)
  · show (c.task s.sched.currTask).handlerDone = true ↔ Function.update s.pc s.sched.currTask pc s.sched.currTask = _
    rw [hself, (hturned.alike _).handlerDone, h.flag _ hx]
    rcases hkind with ⟨hold, hnew⟩ | ⟨hold, rfl⟩
    · exact iff_of_false hold.1 hnew.1
    · rw [hold]
  · intro t i l hpc
    obtain ⟨ht, hi, hd⟩ := hwait t i l (hself.symm.trans hpc)
    exact ⟨ht, hi, fun hd' => hd ((hturned.alike t).handlerDone.symm.trans hd')⟩
  · intro hcl
    exact hsingle (hself ▸ hcl)
  · exact fun k hk => hfree k (hself.symm.trans hk)

theorem tidy_switch_outside {pc : Pc} (h : Tidy s) (hrun : Running s.sched) (hs : s.switch pc = some s')
    (hkind : (Busy (s.pc s.sched.currTask) ∧ Busy pc) ∨ (s.pc s.sched.currTask = .looping ∧ pc = .looping))
    (hout : Outside pc) : Tidy s' := by
  apply tidy_switch h hrun hs hkind
  · exact fun t i l he => absurd he (hout.2 t i l)
  · exact fun hcl => absurd hcl hout.1
  · exact fun k he => absurd he (hout.ne_found k)

theorem tidy_search (h : Tidy s) (hrun : Running s.sched) (hs : s.search = some s')
    (hbusy : Busy (s.pc s.sched.currTask))
    (hsingle : ∀ b ∈ s.sched.ring, Claiming (s.pc b) → b = s.sched.currTask) : Tidy s' := by
  unfold System.search at hs
  split at hs
  · rename_i k hk
    have hfree := List.find?_some hk
    apply tidy_switch h hrun hs (.inl ⟨hbusy, by simp [Busy]⟩)
    · exact fun t i l he => by cases he
    · exact fun _ => hsingle
    · rintro j he
      cases he
      exact of_decide_eq_true hfree
  · apply tidy_switch h hrun hs (.inl ⟨hbusy, by simp [Busy]⟩)
    · exact fun t i l he => by cases he
    · exact fun _ => hsingle
    · exact fun j he => by cases he

/-- **The handler of the current task returns**, to one of two places. -/
theorem handlerReturns_cases (h : Good s.sched s.coroutines) (hrun : Running s.sched)
    (hs : s.handlerReturns = some s') :
    Good s'.sched s'.coroutines ∧ (∃ xs, s.sched.ring = s.sched.currTask :: xs ∧ s'.sched.ring = xs ++ [s.sched.currTask]) ∧
      Moves s s' s.sched.currTask ∧ s'.returned (s.sched.task s.sched.currTask).id = true ∧
      ((s'.pc s.sched.currTask = .looping ∧ (s'.sched.task s.sched.currTask).handlerDone =
          (s.sched.task s.sched.currTask).handlerDone) ∨
        (s'.pc s.sched.currTask = .returned ∧ (s'.sched.task s.sched.currTask).handlerDone = true)) := by
  unfold System.handlerReturns at hs
  dsimp only at hs
  split at hs
  · obtain ⟨c, hc, rfl⟩ := switch_some hs
    obtain ⟨hgood, hturned⟩ := h.schedule hrun hc
    have hm := switch_moves hturned .looping
    refine ⟨hgood, hturned.ring, ⟨rfl, hm.next, hm.id, hm.handlerDone, fun i hi => ?_, hm.pc, hm.free⟩, ?_, .inl ⟨?_, ?_⟩⟩
    · exact Function.update_of_ne hi ..
    · exact Function.update_self ..
    · exact Function.update_self ..
    · exact (hturned.alike _).handlerDone
  · obtain ⟨c, hc, rfl⟩ := switch_some hs
    obtain ⟨hgood, hturned⟩ := (h.setHandlerDone s.sched.currTask).schedule (hrun.setHandlerDone _) hc
    refine ⟨hgood, hturned.ring, ⟨rfl, hturned.nextTaskId, fun p => ?_, fun p hp => ?_, fun i hi => ?_, fun p hp => ?_,
      fun k hk => ?_⟩, ?_, .inr ⟨?_, ?_⟩⟩
    · exact (hturned.alike p).id.trans (Sched.setHandlerDone_id ..)
    · exact (hturned.alike p).handlerDone.trans (congrArg Task.handlerDone (Sched.setHandlerDone_of_ne hp))
    · exact Function.update_of_ne hi ..
    · exact Function.update_of_ne hp ..
    · exact hk.imp_right fun hd => hturned.done _ ((Sched.setHandlerDone_state ..).trans hd)
    · exact Function.update_self ..
    · exact Function.update_self ..
    · exact (hturned.alike _).handlerDone.trans (congrArg Task.handlerDone (Sched.setHandlerDone_self ..))

theorem tidy_handlerReturns (h : Tidy s) (hin : s.InHandler) (hs : s.handlerReturns = some s') : Tidy s' := by
  have hx := h.good.inv.curr_mem hin.1.1
  have hpc0 : s.pc s.sched.currTask = .running := hin.2
  have hold : ¬ (s.sched.task s.sched.currTask).handlerDone = true := by
    rw [h.flag _ hx, hpc0]
    simp
  obtain ⟨hgood, ⟨xs, hring, hring'⟩, hm, hret, ⟨hpc, hd⟩ | ⟨hpc, hd⟩⟩ := handlerReturns_cases h.good hin.1 hs
  · apply h.rotate hgood hring hring' hm
    have hout : Outside (s'.pc s.sched.currTask) := by
      rw [hpc]
      exact ⟨id, nofun⟩
    apply hout.placed (iff_of_true hret (.inr hpc))
    rw [hpc, hd]
    exact iff_of_false hold (by simp)
  · apply h.rotate hgood hring hring' hm
    have hout : Outside (s'.pc s.sched.currTask) := by
      rw [hpc]
      exact ⟨id, nofun⟩
    exact hout.placed (iff_of_true hret (.inl hpc)) (iff_of_true hd hpc)

/-- The current task is done. -/
theorem tidy_finish (h : Tidy s) (hrun : Running s.sched) (hpc : s.pc s.sched.currTask = .returned)
    (hs : s.finish = some s') : Tidy s' := by
  obtain ⟨c, hc, rfl⟩ := switch_some hs
  obtain ⟨hgood, hgone⟩ := h.good.finish hrun hc
  refine h.leave hgood hgone.ring ?_ rfl hpc
  refine ⟨rfl, hgone.nextTaskId, fun p => (hgone.alike p).id, fun p _ => (hgone.alike p).handlerDone, fun _ _ => rfl,
    fun p hp => ?_, fun k hk => hk.imp_right (hgone.done _)⟩
  exact Function.update_of_ne hp ..

/-- `Yield_Task`, in memory that is not allocated. -/
theorem tidy_yieldTask (h : Tidy s) (hlt : s.inits.length < 2 ^ 31) (ht : s.Available t) : Tidy (s.yieldTask t) := by
  have hgood := (task_good h.good ht).1
  unfold System.yieldTask at hgood ⊢
  split
  · exact h
  · rename_i ht0
    rw [if_neg ht0] at hgood
    obtain ⟨hring, hslot⟩ := h.good.fresh (ht.resolve_left ht0) ht0
    have hself := Sched.initializeTask_self (s.sched.allocateTask t) t false
    have hc : Creates s ((s.allocate t).create t false) t := by
      refine ⟨?_, hring, ?_, ?_, fun p hp => ?_, ?_, ?_, fun p hp => ?_, rfl, rfl⟩
      · exact (h.good.allocate t).inv.ring_create hring ht0 false
      · exact congrArg Task.id hself
      · exact congrArg Task.handlerDone hself
      · exact Sched.initializeTask_of_ne hp false
      · exact Sched.initializeTask_nextTaskId ..
      · exact Function.update_self ..
      · exact Function.update_of_ne hp ..
    refine h.create hlt hc hgood fun a ha k hk => (h.free a ha k hk).imp_right fun hd => ?_
    exact (congrArg Task.state (Sched.initializeTask_of_ne (hslot k) false)).trans hd

/-- A coroutine is created by the only task in `Yield_Run`. `u` is the state with the slot's descriptor in place. -/
theorem tidy_launch {k : Fin coroMaxNum} {u : System} (h : Tidy s) (hlt : s.inits.length < 2 ^ 31)
    (hrun : Running s.sched) (hpc : s.pc s.sched.currTask = .found k)
    (hu : u = { s with sched := u.sched, coroutines := u.coroutines })
    (hsched : u.sched = { s.sched with live := u.sched.live }) (hinv : Inv u.sched)
    (hring : u.coroutines k ∉ s.sched.ring) (h0 : u.coroutines k ≠ 0)
    (hgood : Good (u.launch k).sched (u.launch k).coroutines) : Tidy (u.launch k) := by
  have hbase : Tidy (s.answer .eok) := h.answer hrun (by rw [hpc]; simp [Busy]) .eok
  have hring' : u.sched.ring = s.sched.ring := by rw [hsched]; rfl
  have htask : u.sched.task = s.sched.task := by rw [hsched]
  have hnext : u.sched.nextTaskId = s.sched.nextTaskId := by rw [hsched]
  have hcurr : u.sched.currTask = s.sched.currTask := by rw [hsched]
  have hpcs : u.pc = s.pc := by rw [hu]
  have hcurr' : (u.sched.initializeTask (u.coroutines k) true).currTask = s.sched.currTask :=
    (Sched.initializeTask_currTask (by rw [hcurr]; exact hrun.1) _ _).trans hcurr
  have hself := Sched.initializeTask_self u.sched (u.coroutines k) true
  have hpclaunch : (u.launch k).pc =
      Function.update (Function.update s.pc (u.coroutines k) .running) s.sched.currTask .running := by
    show Function.update (Function.update u.pc _ _) (u.sched.initializeTask (u.coroutines k) true).currTask _ = _
    rw [hcurr', hpcs]
  have hct : u.coroutines k ≠ s.sched.currTask := fun he => hring (he ▸ h.good.inv.curr_mem hrun.1)
  have hc : Creates (s.answer .eok) (u.launch k) (u.coroutines k) := by
    refine ⟨?_, hring, ?_, ?_, fun p hp => ?_, ?_, ?_, fun p hp => ?_, ?_, ?_⟩
    · show (u.sched.initializeTask (u.coroutines k) true).ring = s.sched.ring ++ [u.coroutines k]
      rw [hinv.ring_create (hring' ▸ hring) h0, hring']
    · exact (congrArg Task.id hself).trans hnext
    · exact congrArg Task.handlerDone hself
    · exact (Sched.initializeTask_of_ne hp true).trans (congrFun htask p)
    · exact (Sched.initializeTask_nextTaskId ..).trans (by rw [hnext]; rfl)
    · rw [hpclaunch, Function.update_of_ne hct, Function.update_self]
    · rw [hpclaunch]
      show _ = Function.update s.pc s.sched.currTask .running p
      by_cases hpcurr : p = s.sched.currTask
      · rw [hpcurr, Function.update_self, Function.update_self]
      · rw [Function.update_of_ne hpcurr, Function.update_of_ne hpcurr, Function.update_of_ne hp]
    · show Function.update u.returned u.sched.nextTaskId false = Function.update s.returned s.sched.nextTaskId false
      rw [hnext, hu]
    · show (u.coroutines k, u.sched.nextTaskId) :: u.inits = _
      rw [hnext, hu]
      rfl
  refine hbase.create hlt hc hgood fun a ha j hj => ?_
  by_cases hac : a = s.sched.currTask
  · rw [hac, answer_pc_self] at hj
    cases hj
  · have hja : s.pc a = .found j := (answer_pc_of_ne hac .eok).symm.trans hj
    have hclaim : Claiming (s.pc a) := by rw [hja]; trivial
    have hclaim' : Claiming (s.pc s.sched.currTask) := by rw [hpc]; trivial
    exact absurd (h.single a ha _ (h.good.inv.curr_mem hrun.1) hclaim hclaim') hac

theorem tidy_claim {k : Fin coroMaxNum} (h : Tidy s) (hlt : s.inits.length < 2 ^ 31) (hrun : Running s.sched)
    (hpc : s.pc s.sched.currTask = .found k) (hs : s.claim k t = some s') : Tidy s' := by
  have hfree := h.free _ (h.good.inv.curr_mem hrun.1) k hpc
  have hgood := (claim_iff h.good .run hs).2 hfree
  unfold System.claim at hs
  split at hs
  · split at hs
    · obtain rfl := Option.some.inj hs
      exact h.answer hrun (by rw [hpc]; simp [Busy]) .efatal
    rename_i ht0
    split at hs
    · rename_i hav
      obtain rfl := Option.some.inj hs
      have hring : Function.update s.coroutines k t k ∉ s.sched.ring := by
        rw [Function.update_self]
        exact (h.good.fresh (hav.resolve_left ht0) ht0).1
      have hslot0 : Function.update s.coroutines k t k ≠ 0 := by
        rw [Function.update_self]
        exact ht0
      exact tidy_launch h hlt hrun hpc rfl rfl (h.good.allocate t).inv hring hslot0 hgood
    · cases hs
  · rename_i hk0
    obtain rfl := Option.some.inj hs
    have hring : s.coroutines k ∉ s.sched.ring := fun hm => h.good.calm _ hm (hfree.resolve_left hk0)
    exact tidy_launch h hlt hrun hpc rfl rfl h.good.inv hring hk0 hgood

theorem tidy_start (h : Tidy s) (hcurr : s.sched.currTask ≠ 0) (p : Ptr) :
    Tidy { s with sched := s.sched.setState s.sched.currTask .active, first := p } := by
  have halike := fun q => s.sched.setState_alike s.sched.currTask q .active
  exact
    { good := h.good.start hcurr, next := h.next, issued := h.issued
      known := fun t ht => by rw [(halike t).id]; exact h.known t ht
      inj := fun t ht u hu he => by
        rw [(halike t).id, (halike u).id] at he
        exact h.inj t ht u hu he
      gone := fun q j hj => (h.gone q j hj).imp_right fun ⟨t, ht, he⟩ => ⟨t, ht, (halike t).id.trans he⟩
      ret := fun t ht => by rw [(halike t).id]; exact h.ret t ht
      flag := fun t ht => by rw [(halike t).handlerDone]; exact h.flag t ht
      wait := fun w hw t j l hpc => by
        rw [(halike t).id, (halike t).handlerDone]
        exact h.wait w hw t j l hpc
      single := h.single
      free := fun a ha k hk => (h.free a ha k hk).imp_right fun hd => by
        have hne : s.coroutines k ≠ s.sched.currTask := fun he =>
          h.good.calm _ (h.good.inv.curr_mem hcurr) (he ▸ hd)
        exact (congrArg Task.state (Sched.setState_of_ne hne .active)).trans hd }

/-! ## Property and condition -/

/-- The read of `handler_done` a step makes for `Yield_Wait`: the descriptor, and the id that is waited for. -/
def reading (s : System) : Call → Option (Ptr × BitVec 32)
  | .wait i _ _ _ => (s.sched.getTaskByID i).map fun t => (t, i)
  | .resume _ _ =>
      match s.pc s.sched.currTask with
      | .waiting t i _ => some (t, i)
      | _ => none
  | _ => none

/-- The id a call of `Yield_Wait` is for. -/
def awaited (s : System) : Call → Option (BitVec 32)
  | .wait i _ _ _ => some i
  | .resume _ _ =>
      match s.pc s.sched.currTask with
      | .waiting _ i _ => some i
      | _ => none
  | _ => none

/-- What a pass of `Yield_Wait` reads is the descriptor of the task with that id, allocated and in the ring; it returns
`EOK` only if the handler of every task that was given the id has returned; and it does so, unless it times out, once
the handler has returned. -/
structure Exact (s : System) (e : Call) (s' : System) : Prop where
  safe : ∀ t i, reading s e = some (t, i) →
    t ∈ s.sched.ring ∧ s.sched.live t = true ∧ (s.sched.task t).id = i
  sound : ∀ i, awaited s e = some i → s'.ret s.sched.currTask = some .eok →
    ∀ p, (p, i) ∈ s.inits → s.returned i = true
  prompt : ∀ t i, reading s e = some (t, i) → s.returned i = true → s'.ret s.sched.currTask ≠ some .etimeout →
    s'.ret s.sched.currTask = some .eok

/-- A task that goes on in `Yield_Wait` waits for another than that of `Yield_Start` in its endless loop, or its time is
up. -/
def SparedAt (s : System) (now : BitVec 32) : Pc → Prop
  | .waiting t _ l => s.pc t = .looping → l.Expired now
  | _ => True

instance (s : System) (now : BitVec 32) : ∀ pc, Decidable (SparedAt s now pc)
  | .waiting t _ l => inferInstanceAs (Decidable (s.pc t = .looping → l.Expired now))
  | .running | .searching | .found _ | .returned | .looping => isTrue trivial

/-- So does a task that has looked for the id. -/
def SparedFor (s : System) (i : BitVec 32) (l : Wait) (now : BitVec 32) : Option Ptr → Prop
  | some t => SparedAt s now (.waiting t i l)
  | none => True

instance (s : System) (i : BitVec 32) (l : Wait) (now : BitVec 32) : ∀ o, Decidable (SparedFor s i l now o)
  | some t => inferInstanceAs (Decidable (SparedAt s now (.waiting t i l)))
  | none => isTrue trivial

/-- No pass of `Yield_Wait` finds the task of `Yield_Start` in its endless loop, but one whose time is up. -/
def Spared (s : System) : Call → Prop
  | .wait i timeout ts now => s.InHandler → SparedFor s i ⟨timeout, ts⟩ now (s.sched.getTaskByID i)
  | .resume _ now => Running s.sched → SparedAt s now (s.pc s.sched.currTask)
  | _ => True

instance (s : System) : ∀ e, Decidable (Spared s e)
  | .wait i timeout ts now =>
      inferInstanceAs (Decidable (s.InHandler → SparedFor s i ⟨timeout, ts⟩ now (s.sched.getTaskByID i)))
  | .resume _ now => inferInstanceAs (Decidable (Running s.sched → SparedAt s now (s.pc s.sched.currTask)))
  | .task _ | .start | .yield | .run | .ret => isTrue trivial

theorem Good.switch_isSome (h : Good s.sched s.coroutines) (hrun : Running s.sched) (pc : Pc) :
    ∃ s', s.switch pc = some s' := by
  obtain ⟨xs, hring, -⟩ := h.inv.ringed hrun.1
  have hcurr := h.inv.curr_mem hrun.1
  obtain ⟨c, hc⟩ := schedule_isSome hring ⟨_, hring.ring_eq ▸ hcurr, h.calm _ hcurr⟩
  exact ⟨_, by rw [System.switch, hc]; rfl⟩

/-- **A pass of `Yield_Wait`** on a task of the ring. -/
theorem tidy_waitPass {l : Wait} {now : BitVec 32} (h : Tidy s) (hrun : Running s.sched)
    (hbusy : Busy (s.pc s.sched.currTask)) (ht : t ∈ s.sched.ring) (hi : (s.sched.task t).id = i)
    (hs : s.waitPass t i l now = some s') :
    Tidy s' ∧ (s'.ret s.sched.currTask = some .eok → s.returned i = true) ∧
      ((s.returned i = true → s'.ret s.sched.currTask ≠ some .etimeout → s'.ret s.sched.currTask = some .eok) ↔
        (s.pc t = .looping → l.Expired now)) := by
  have hret := h.ret t ht
  have hflag := h.flag t ht
  rw [hi] at hret
  unfold System.waitPass at hs
  split at hs
  · rename_i hd
    obtain rfl := Option.some.inj hs
    have hpc := hflag.1 hd
    have heok : (s.answer .eok).ret s.sched.currTask = some .eok := Function.update_self ..
    refine ⟨h.answer hrun hbusy .eok, fun _ => hret.2 (.inl hpc), iff_of_true (fun _ _ => heok) fun hloop => ?_⟩
    cases hpc.symm.trans hloop
  rename_i hd
  split at hs
  · rename_i hexp
    obtain rfl := Option.some.inj hs
    have htime : (s.answer .etimeout).ret s.sched.currTask = some .etimeout := Function.update_self ..
    refine ⟨h.answer hrun hbusy .etimeout, fun heok => ?_, iff_of_true (fun _ hne => absurd htime hne) fun _ => hexp⟩
    rw [htime] at heok
    cases heok
  · rename_i hexp
    have htidy : Tidy s' := by
      refine tidy_switch h hrun hs (.inl ⟨hbusy, by simp [Busy]⟩) ?_ (fun hcl => hcl.elim) fun j he => by cases he
      rintro u j m he
      cases he
      exact ⟨ht, hi, hd⟩
    obtain ⟨c, -, rfl⟩ := switch_some hs
    have hnone : Function.update s.ret s.sched.currTask none s.sched.currTask = none := Function.update_self ..
    refine ⟨htidy, fun heok => ?_, fun hall hloop => ?_, fun hloop hr _ => ?_⟩
    · cases hnone.symm.trans heok
    · have hnot : Function.update s.ret s.sched.currTask none s.sched.currTask ≠ some .etimeout := by simp
      cases hnone.symm.trans (hall (hret.2 (.inr hloop)) hnot)
    · rcases hret.1 hr with hpc | hpc
      · exact absurd (hflag.2 hpc) hd
      · exact absurd (hloop hpc) hexp

/-! ## One step -/

theorem exact_of_none {e : Call} (hr : reading s e = none) (ha : awaited s e = none) : Exact s e s' := by
  refine ⟨fun t i he => ?_, fun i he => ?_, fun t i he => ?_⟩
  · cases hr.symm.trans he
  · cases ha.symm.trans he
  · cases hr.symm.trans he

/-- A pass that reads the descriptor of a task of the ring. -/
theorem exact_iff_prompt {e : Call} (hr : reading s e = some (t, i)) (ha : awaited s e = some i)
    (hsafe : t ∈ s.sched.ring ∧ s.sched.live t = true ∧ (s.sched.task t).id = i)
    (hsound : s'.ret s.sched.currTask = some .eok → s.returned i = true) :
    Exact s e s' ↔ (s.returned i = true → s'.ret s.sched.currTask ≠ some .etimeout →
      s'.ret s.sched.currTask = some .eok) := by
  refine ⟨fun h => h.prompt t i hr, fun hprompt => ⟨fun u j he => ?_, fun j he heok p hp => ?_, fun u j he => ?_⟩⟩
  · obtain ⟨rfl, rfl⟩ := Prod.mk.inj (Option.some.inj (hr.symm.trans he))
    exact hsafe
  · obtain rfl := Option.some.inj (ha.symm.trans he)
    exact hsound heok
  · obtain ⟨rfl, rfl⟩ := Prod.mk.inj (Option.some.inj (hr.symm.trans he))
    exact hprompt

theorem spared_wait {timeout : Int} {ts now : BitVec 32} (hin : s.InHandler) :
    Spared s (.wait i timeout ts now) ↔ SparedFor s i ⟨timeout, ts⟩ now (s.sched.getTaskByID i) :=
  imp_iff_right hin

theorem spared_resume {u : Ptr} {now : BitVec 32} (hrun : Running s.sched) :
    Spared s (.resume u now) ↔ SparedAt s now (s.pc s.sched.currTask) :=
  imp_iff_right hrun

/-- A call of `Yield_Wait`. -/
theorem wait_exact {timeout : Int} {ts now : BitVec 32} (h : Tidy s) (hin : s.InHandler)
    (hs : s.wait i ⟨timeout, ts⟩ now = some s') :
    Tidy s' ∧ (Exact s (.wait i timeout ts now) s' ↔ Spared s (.wait i timeout ts now)) := by
  have hbusy := hin.busy
  rw [spared_wait hin]
  unfold System.wait at hs
  cases hf : s.sched.getTaskByID i with
  | none =>
      rw [hf] at hs
      obtain rfl := Option.some.inj hs
      refine ⟨h.answer hin.1 hbusy .eok, iff_of_true ?_ trivial⟩
      have hr : reading s (.wait i timeout ts now) = none := by rw [reading, hf]; rfl
      refine ⟨fun t j he => ?_, fun j he _ p hp => ?_, fun t j he => ?_⟩
      · cases hr.symm.trans he
      · obtain rfl := Option.some.inj he
        rcases h.gone p i hp with hret | ⟨t, ht, hid⟩
        · exact hret
        · exact absurd hid (not_mem_of_getTaskByID h.good.inv hin.1.1 hf t ht)
      · cases hr.symm.trans he
  | some t =>
      rw [hf] at hs
      obtain ⟨ht, hid⟩ := mem_of_getTaskByID h.good.inv hin.1.1 hf
      obtain ⟨htidy, hsound, hprompt⟩ := tidy_waitPass h hin.1 hbusy ht hid hs
      have hr : reading s (.wait i timeout ts now) = some (t, i) := by rw [reading, hf]; rfl
      refine ⟨htidy, ?_⟩
      rw [exact_iff_prompt hr rfl ⟨ht, h.good.live t ht, hid⟩ hsound, hprompt]
      rfl

/-- The current task goes on. -/
theorem resume_exact {u : Ptr} {now : BitVec 32} (h : Tidy s) (hlt : s.inits.length < 2 ^ 31) (hrun : Running s.sched)
    (hs : s.resume u now = some s') : Tidy s' ∧ (Exact s (.resume u now) s' ↔ Spared s (.resume u now)) := by
  have hcurr := h.good.inv.curr_mem hrun.1
  rw [spared_resume hrun]
  unfold System.resume at hs
  cases hpc : s.pc s.sched.currTask with
  | running =>
      rw [hpc] at hs
      cases hs
  | searching =>
      rw [hpc] at hs
      refine ⟨tidy_search h hrun hs (by rw [hpc]; simp [Busy]) fun b hb hcl => ?_, iff_of_true ?_ trivial⟩
      · exact h.single b hb _ hcurr hcl (by rw [hpc]; trivial)
      · exact exact_of_none (by rw [reading, hpc]) (by rw [awaited, hpc])
  | found k =>
      rw [hpc] at hs
      refine ⟨tidy_claim h hlt hrun hpc hs, iff_of_true ?_ trivial⟩
      exact exact_of_none (by rw [reading, hpc]) (by rw [awaited, hpc])
  | waiting t i l =>
      rw [hpc] at hs
      obtain ⟨ht, hid, -⟩ := h.wait _ hcurr t i l hpc
      obtain ⟨htidy, hsound, hprompt⟩ := tidy_waitPass h hrun (by rw [hpc]; simp [Busy]) ht hid hs
      refine ⟨htidy, ?_⟩
      rw [exact_iff_prompt (by rw [reading, hpc]) (by rw [awaited, hpc]) ⟨ht, h.good.live t ht, hid⟩ hsound]
      exact hprompt
  | returned =>
      rw [hpc] at hs
      refine ⟨tidy_finish h hrun hpc hs, iff_of_true ?_ trivial⟩
      exact exact_of_none (by rw [reading, hpc]) (by rw [awaited, hpc])
  | looping =>
      rw [hpc] at hs
      have htidy : Tidy s' := tidy_switch_outside h hrun hs (.inr ⟨hpc, rfl⟩) ⟨id, nofun⟩
      refine ⟨htidy, iff_of_true ?_ trivial⟩
      exact exact_of_none (by rw [reading, hpc]) (by rw [awaited, hpc])

theorem step_exact {e : Call} (h : Tidy s) (hd : InDomain s e) (hs : s.step e = some s') :
    Tidy s' ∧ (Exact s e s' ↔ Spared s e) := by
  cases e with
  | task t =>
      obtain ⟨⟨hav, -⟩, rfl⟩ := (Option.ite_none_right_eq_some.1 hs).imp_right Option.some.inj
      exact ⟨tidy_yieldTask h hd.1 hav, iff_of_true (exact_of_none rfl rfl) trivial⟩
  | start =>
      obtain ⟨-, hs⟩ := Option.ite_none_left_eq_some.1 hs
      obtain ⟨c, hc, rfl⟩ := Option.map_eq_some_iff.1 hs
      obtain ⟨hcurr, rfl⟩ := (Option.ite_none_left_eq_some.1 hc).imp_right Option.some.inj
      exact ⟨tidy_start h hcurr _, iff_of_true (exact_of_none rfl rfl) trivial⟩
  | yield =>
      obtain ⟨hin, hs⟩ := Option.ite_none_right_eq_some.1 hs
      have htidy : Tidy s' := tidy_switch_outside h hin.1 hs (.inl ⟨hin.busy, by simp [Busy]⟩) ⟨id, nofun⟩
      exact ⟨htidy, iff_of_true (exact_of_none rfl rfl) trivial⟩
  | run =>
      obtain ⟨hin, hs⟩ := Option.ite_none_right_eq_some.1 hs
      refine ⟨tidy_search h hin.1 hs hin.busy fun b hb hcl => ?_,
        iff_of_true (exact_of_none rfl rfl) trivial⟩
      exact absurd hcl (hd.2 b hb)
  | wait i timeout ts now =>
      obtain ⟨hin, hs⟩ := Option.ite_none_right_eq_some.1 hs
      exact wait_exact h hin hs
  | ret =>
      obtain ⟨hin, hs⟩ := Option.ite_none_right_eq_some.1 hs
      exact ⟨tidy_handlerReturns h hin hs, iff_of_true (exact_of_none rfl rfl) trivial⟩
  | resume u now =>
      obtain ⟨hrun, hs⟩ := Option.ite_none_right_eq_some.1 hs
      exact resume_exact h hd.1 hrun hs

/-! ## Runs -/

theorem System.Boot.tidy (h : s.Boot) : Tidy s := by
  have hring : s.sched.ring = [] := ring_of_taskCnt h.sched.taskCnt
  have hnone : ∀ t, t ∉ s.sched.ring := fun t ht => List.not_mem_nil (hring ▸ ht)
  exact
    { good := h.good
      next := by rw [h.sched.nextTaskId, h.inits]; rfl
      issued := fun p j hj => by rw [h.inits] at hj; cases hj
      known := fun t ht => absurd ht (hnone t)
      inj := fun t ht => absurd ht (hnone t)
      gone := fun p j hj => by rw [h.inits] at hj; cases hj
      ret := fun t ht => absurd ht (hnone t)
      flag := fun t ht => absurd ht (hnone t)
      wait := fun w hw => absurd hw (hnone w)
      single := fun a ha => absurd ha (hnone a)
      free := fun a ha => absurd ha (hnone a) }

theorem waitPass_isSome (h : Good s.sched s.coroutines) (hrun : Running s.sched) (t : Ptr) (i : BitVec 32) (l : Wait)
    (now : BitVec 32) : ∃ s', s.waitPass t i l now = some s' := by
  unfold System.waitPass
  split
  · exact ⟨_, rfl⟩
  split
  · exact ⟨_, rfl⟩
  · exact h.switch_isSome hrun _

theorem spared_of_none {e : Call} (h : Tidy s) (hs : s.step e = none) : Spared s e := by
  cases e with
  | wait i timeout ts now =>
      intro hin
      cases hf : s.sched.getTaskByID i with
      | none => trivial
      | some t =>
          obtain ⟨s', hs'⟩ := waitPass_isSome h.good hin.1 t i ⟨timeout, ts⟩ now
          have hstep : s.step (.wait i timeout ts now) = some s' := by
            rw [System.step, if_pos hin, System.wait, hf]
            exact hs'
          cases hs.symm.trans hstep
  | resume u now =>
      intro hrun
      cases hpc : s.pc s.sched.currTask with
      | waiting t i l =>
          obtain ⟨s', hs'⟩ := waitPass_isSome h.good hrun t i l now
          have hstep : s.step (.resume u now) = some s' := by
            rw [System.step, if_pos hrun, System.resume, hpc]
            exact hs'
          cases hs.symm.trans hstep
      | _ => trivial
  | _ => trivial

theorem along_exact_iff {es : List Call} (h : Tidy s) (hd : Meets System.step InDomain s es) :
    Along System.step Exact s es ↔ Meets System.step Spared s es :=
  @along_iff_meets_within _ _ System.step Tidy Spared Exact InDomain (fun _ _ h _ hs => spared_of_none h hs)
    (fun _ _ _ h hd hs => ⟨(step_exact h hd hs).2, fun _ => (step_exact h hd hs).1⟩) s es h hd

/-- **`Yield_Wait` is safe and exact, over every run in the domain**, exactly if nobody waits for the task of
`Yield_Start` after its handler has returned, or else the time is up. -/
theorem exact_iff_spared {s₀ : System} (h₀ : s₀.Boot) {es : List Call} (hd : Meets System.step InDomain s₀ es) :
    Along System.step Exact s₀ es ↔ Meets System.step Spared s₀ es :=
  along_exact_iff h₀.tidy hd

/-- Two tasks wait for a coroutine, whose slot is then used again. -/
theorem exact_iff_spared_twoWaiters :
    Along System.step Exact System.cleared
      [.task 16, .start, .task 32, .run, .yield, .resume 48 0, .wait 3 0 0 0, .wait 3 0 0 0, .ret, .resume 0 0, .yield,
        .resume 0 0, .yield, .resume 0 0, .run, .yield, .resume 0 0] :=
  (exact_iff_spared cleared_boot (by decide +kernel)).2 (by decide +kernel)

/-- The handler of the task that `Yield_Start` runs returns, and another task waits for it. -/
theorem not_exact_firstTask :
    Meets System.step InDomain System.cleared [.task 16, .start, .task 32, .ret, .wait 1 0 0 0] ∧
      ¬ Along System.step Exact System.cleared [.task 16, .start, .task 32, .ret, .wait 1 0 0 0] := by
  have hd : Meets System.step InDomain System.cleared [.task 16, .start, .task 32, .ret, .wait 1 0 0 0] := by
    decide +kernel
  refine ⟨hd, ?_⟩
  rw [along_exact_iff cleared_boot.tidy hd]
  decide +kernel

end YieldStm32.Yield
