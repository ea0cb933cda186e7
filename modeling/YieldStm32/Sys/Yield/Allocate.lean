import YieldStm32.Sys.Heap.Exhausted
import YieldStm32.Sys.Yield.Tasks

/-!
# Memory for tasks (`sys/src/yield.c`)

`Yield_AllocateTask` on the heap of `sys/src/heap.c`. Its first `goto cleanup` jumps over the initializer of `t`, and
`Heap_Free(t)` is called on whatever the place of that variable holds: the parameter `garbage`.

* `Harmless` : a call that gets no memory frees nothing but its own, and changes no allocation, no link and no slot;
* `harmless_iff` : it does exactly where `garbage` is null or some block of the heap is free;
* `allocateTask_restores` : the heap is then as it was, word by word;
* `available_of_allocateTask` : the memory it gets is memory as `System.step` takes it for an event.
-/

namespace YieldStm32.Yield

open Heap Transition

/-- `sizeof(task_frame_t)`: the exception return code, 16 registers and the 33 words of the floating point unit. -/
abbrev taskFrameSize : BitVec 32 := 200

/-- `sizeof(task_t)`: eleven words, and one for the two enumerations. -/
abbrev taskSize : BitVec 32 := 48

/-- `SYS_CORO_STACK_SIZE` -/
abbrev coroStackSize : BitVec 32 := 256

/-- What a call of `Yield_AllocateTask` does: the descriptor it returns (null if there is no memory), the pointers that
`Heap_Malloc` returned to it and those it passed to `Heap_Free`, and the heap behind it, if the calls of `Heap_Free`
return. -/
structure Allocation where
  task : Nat
  given : List Nat
  freed : List Nat
  heap : Option Heap.State

/-- `cleanup:` -/
def cleanup (s : Heap.State) (given : List Nat) (stack t : Nat) : Allocation :=
  ⟨0, given, [stack, t], (s.free stack).bind fun s => s.free t⟩

/-- `Yield_AllocateTask` -/
def allocateTask (L : Layout) (s : Heap.State) (garbage stackSize : BitVec 32) : Option Allocation := do
  let (stack, s) ← s.malloc L (stackSize + taskFrameSize)
  if stack = 0 then some (cleanup s [stack] stack garbage.toNat)
  else do
    let (t, s) ← s.malloc L taskSize
    if t = 0 then some (cleanup s [stack, t] stack t)
    else some ⟨t, [stack, t], [], some s⟩

/-- The heap and the scheduler. -/
structure Kernel where
  heap : Heap.State
  sys : System

/-- A call that starts a task: `Yield_Task`, or `Yield_Run` when it has found slot `k`. -/
inductive Create where
  | task (stackSize : BitVec 32)
  | run (k : Fin coroMaxNum)

/-- What is freed was given by this call, or is null. -/
def Allocation.OwnFrees (a : Allocation) : Prop := ∀ p ∈ a.freed, p = 0 ∨ p ∈ a.given

namespace Kernel

/-- The descriptor there is already: that of the slot. The call asks for memory if there is none. -/
def descriptor (κ : Kernel) : Create → Ptr
  | .task _ => 0
  | .run k => κ.sys.coroutines k

/-- The stack size the call asks for. -/
def stackSize : Create → BitVec 32
  | .task n => n
  | .run _ => coroStackSize

/-- The descriptors among the pointers freed are no longer allocated. -/
def release (s : System) (ps : List Nat) : System :=
  { s with sched := ps.foldl (fun c p => c.deallocateTask (BitVec.ofNat 32 p)) s.sched }

/-- The call with the descriptor `t`, or without one. -/
def proceed (s : System) (t : Ptr) : Create → Option System
  | .task _ => some (s.yieldTask t)
  | .run k => s.claim k t

/-- What the `Yield_AllocateTask` of the call does. -/
def asked (L : Layout) (κ : Kernel) (garbage : BitVec 32) (e : Create) : Option Allocation :=
  if κ.descriptor e = 0 then allocateTask L κ.heap garbage (stackSize e) else none

/-- `Yield_Task`, and `Yield_Run` after its loop: the state behind the call, and what it returns. -/
def create (L : Layout) (κ : Kernel) (garbage : BitVec 32) (e : Create) : Option (Kernel × Ret) :=
  if κ.descriptor e = 0 then do
    let a ← allocateTask L κ.heap garbage (stackSize e)
    let h ← a.heap
    let t := BitVec.ofNat 32 a.task
    let s ← proceed (release κ.sys a.freed) t e
    some (⟨h, s⟩, if a.task = 0 then .efatal else .taskId (s.sched.task t).id)
  else do
    let s ← proceed κ.sys (κ.descriptor e) e
    some (⟨κ.heap, s⟩, .taskId (s.sched.task (κ.descriptor e)).id)

/-- **A call that gets no memory has no effect**: `Heap_Free` is called on null and on memory of this call only, and
where `EFATAL` is returned, the allocations, the ring and the slots are as before. -/
structure Harmless (L : Layout) (κ : Kernel) (garbage : BitVec 32) (e : Create) : Prop where
  freed : ∀ a, asked L κ garbage e = some a → a.OwnFrees
  kept : ∀ κ', create L κ garbage e = some (κ', .efatal) →
    κ'.heap.live = κ.heap.live ∧ κ'.sys.sched.ring = κ.sys.sched.ring ∧ κ'.sys.coroutines = κ.sys.coroutines

end Kernel

/-! ## What is allocated and freed -/

/-- The three ways through `Yield_AllocateTask`. -/
theorem allocateTask_cases {L : Layout} {s : Heap.State} {garbage n : BitVec 32} {a : Allocation}
    (h : allocateTask L s garbage n = some a) :
    (∃ s₁, s.malloc L (n + taskFrameSize) = some (0, s₁) ∧ a = cleanup s₁ [0] 0 garbage.toNat) ∨
      (∃ stack s₁ s₂, stack ≠ 0 ∧ s.malloc L (n + taskFrameSize) = some (stack, s₁) ∧
        s₁.malloc L taskSize = some (0, s₂) ∧ a = cleanup s₂ [stack, 0] stack 0) ∨
      a.task ≠ 0 ∧ a.freed = [] := by
  obtain ⟨⟨stack, s₁⟩, hstack, h⟩ := Option.bind_eq_some_iff.1 h
  dsimp only at h
  split at h
  · rename_i h0
    obtain rfl := h0
    exact .inl ⟨s₁, hstack, (Option.some.inj h).symm⟩
  · rename_i hne
    obtain ⟨⟨t, s₂⟩, ht, h⟩ := Option.bind_eq_some_iff.1 h
    dsimp only at h
    split at h
    · rename_i h0
      obtain rfl := h0
      exact .inr (.inl ⟨stack, s₁, s₂, hne, hstack, ht, (Option.some.inj h).symm⟩)
    · rename_i hne'
      obtain rfl := Option.some.inj h
      exact .inr (.inr ⟨hne', rfl⟩)

theorem malloc_some {L : Layout} {s s' : Heap.State} {n : BitVec 32} {p : Nat} (h : s.malloc L n = some (p, s')) :
    Heap.malloc L s.mem n.toNat = some (p, s'.mem) ∧
      s'.live = if p = 0 then s.live else (p, n.toNat) :: s.live := by
  obtain ⟨⟨q, m⟩, hm, h⟩ := Option.bind_eq_some_iff.1 h
  obtain ⟨rfl, rfl⟩ := Prod.mk.inj (Option.some.inj h)
  exact ⟨hm, rfl⟩

theorem malloc_null_live {L : Layout} {s s' : Heap.State} {n : BitVec 32} (h : s.malloc L n = some (0, s')) :
    s'.live = s.live := (malloc_some h).2

/-- Where nothing is free, a request fails and changes nothing. -/
theorem malloc_eq_null {L : Layout} {s : Heap.State} (hl : Listed L s.mem) (hfree : ¬ AnyFree (blocks L s.mem))
    (n : BitVec 32) : s.malloc L n = some (0, s) := by
  have hnull := ((malloc_null hl n.toNat).resolve_right fun h => hfree h.1).1
  rw [State.malloc, hnull]
  rfl

/-- Where something is free, it does not. -/
theorem malloc_ne_null {L : Layout} {s s' : Heap.State} {n : BitVec 32} {p : Nat} (hl : Listed L s.mem)
    (hfree : AnyFree (blocks L s.mem)) (h : s.malloc L n = some (p, s')) : p ≠ 0 := by
  rintro rfl
  rcases malloc_null hl n.toNat with ⟨-, hno⟩ | ⟨-, hno⟩
  · exact hno hfree
  · exact hno _ (malloc_some h).1

/-- The last allocation is freed again. -/
theorem free_live {s s' : Heap.State} {p n : Nat} {l : List (Nat × Nat)} (hp : p ≠ 0) (hs : s.live = (p, n) :: l)
    (h : s.free p = some s') : s'.live = l := by
  obtain ⟨m, -, h⟩ := Option.bind_eq_some_iff.1 h
  obtain rfl := Option.some.inj h
  dsimp only
  rw [if_neg hp, hs]
  simp

/-- Every allocation that fails frees its own memory only, and leaves the allocations as they were. -/
theorem cleanup_own {L : Layout} {s : Heap.State} {garbage n : BitVec 32} {a : Allocation}
    (h : allocateTask L s garbage n = some a)
    (hok : garbage = 0 ∨ Listed L s.mem ∧ AnyFree (blocks L s.mem)) :
    a.OwnFrees ∧ (a.task = 0 → ∀ s' ∈ a.heap, s'.live = s.live) := by
  rcases allocateTask_cases h with ⟨s₁, hstack, rfl⟩ | ⟨stack, s₁, s₂, hne, hstack, ht, rfl⟩ | ⟨hne, hfreed⟩
  · have hg : garbage = 0 := hok.resolve_right fun hf => malloc_ne_null hf.1 hf.2 hstack rfl
    subst hg
    refine ⟨fun p hp => ?_, fun _ s' hs' => ?_⟩
    · left
      simpa [cleanup] using hp
    · obtain rfl : s₁ = s' := Option.some.inj hs'
      exact malloc_null_live hstack
  · refine ⟨fun p hp => ?_, fun _ s' hs' => ?_⟩
    · right
      simpa [cleanup] using hp
    · obtain ⟨s₃, h₃, h₄⟩ := Option.bind_eq_some_iff.1 hs'
      obtain rfl : s₃ = s' := Option.some.inj h₄
      have hlive := (malloc_some hstack).2
      rw [if_neg hne, ← malloc_null_live ht] at hlive
      exact free_live hne hlive h₃
  · refine ⟨fun p hp => ?_, fun h0 => absurd h0 hne⟩
    rw [hfreed] at hp
    cases hp

namespace Kernel

theorem release_same (s : System) (ps : List Nat) :
    (release s ps).sched.ring = s.sched.ring ∧ (release s ps).coroutines = s.coroutines := by
  refine ⟨?_, rfl⟩
  show (ps.foldl (fun c p => c.deallocateTask (BitVec.ofNat 32 p)) s.sched).ring = s.sched.ring
  generalize s.sched = c
  induction ps generalizing c with
  | nil => rfl
  | cons p ps ih => exact ih (c.deallocateTask _)

/-- Without memory nothing is started. -/
theorem proceed_null {κ : Kernel} {s s' : System} {e : Create} (hd : κ.descriptor e = 0)
    (hco : s.coroutines = κ.sys.coroutines) (h : proceed s 0 e = some s') :
    s'.sched.ring = s.sched.ring ∧ s'.coroutines = s.coroutines := by
  cases e with
  | task n =>
      obtain rfl := Option.some.inj h
      exact ⟨rfl, rfl⟩
  | run k =>
      change κ.sys.coroutines k = 0 at hd
      rw [← hco] at hd
      rw [proceed, System.claim, if_pos hd, if_pos rfl] at h
      obtain rfl := Option.some.inj h
      exact ⟨rfl, rfl⟩

theorem harmless_of {L : Layout} {κ : Kernel} {garbage : BitVec 32} {e : Create} (hl : Listed L κ.heap.mem)
    (hok : κ.descriptor e = 0 → garbage = 0 ∨ AnyFree (blocks L κ.heap.mem)) : Harmless L κ garbage e where
  freed a ha := by
    obtain ⟨hd, ha⟩ := Option.ite_none_right_eq_some.1 ha
    exact (cleanup_own ha ((hok hd).imp_right fun hf => ⟨hl, hf⟩)).1
  kept κ' h := by
    unfold create at h
    split at h
    · rename_i hd
      obtain ⟨a, ha, h⟩ := Option.bind_eq_some_iff.1 h
      obtain ⟨s', hs', h⟩ := Option.bind_eq_some_iff.1 h
      obtain ⟨s, hs, h⟩ := Option.bind_eq_some_iff.1 h
      obtain ⟨rfl, hret⟩ := Prod.mk.inj (Option.some.inj h)
      have h0 : a.task = 0 := by
        by_contra hne
        rw [if_neg hne] at hret
        cases hret
      rw [h0] at hs
      obtain ⟨hring, hco⟩ := release_same κ.sys a.freed
      obtain ⟨hring', hco'⟩ := proceed_null hd hco hs
      exact ⟨(cleanup_own ha ((hok hd).imp_right fun hf => ⟨hl, hf⟩)).2 h0 s' hs', hring'.trans hring, hco'.trans hco⟩
    · obtain ⟨s, -, h⟩ := Option.bind_eq_some_iff.1 h
      cases (Prod.mk.inj (Option.some.inj h)).2

theorem Harmless.anyFree {L : Layout} {κ : Kernel} {garbage : BitVec 32} {e : Create} (h : Harmless L κ garbage e)
    (hl : Listed L κ.heap.mem) (hd : κ.descriptor e = 0) : garbage = 0 ∨ AnyFree (blocks L κ.heap.mem) := by
  by_contra hno
  rw [not_or] at hno
  have ha : asked L κ garbage e = some (cleanup κ.heap [0] 0 garbage.toNat) := by
    rw [asked, if_pos hd, allocateTask, malloc_eq_null hl hno.2]
    rfl
  have hown := h.freed _ ha garbage.toNat (by simp [cleanup])
  have h0 : garbage.toNat = 0 := by simpa [cleanup] using hown
  exact hno.1 (BitVec.eq_of_toNat_eq h0)

/-- **Starting a task without memory has no effect** exactly where the call asks for no memory, or `t` happens to hold
null where `Yield_AllocateTask` jumps over its initializer, or some block of the heap is free, so that it does not. -/
theorem harmless_iff {L : Layout} {κ : Kernel} (hl : Listed L κ.heap.mem) (garbage : BitVec 32) (e : Create) :
    Harmless L κ garbage e ↔ (κ.descriptor e = 0 → garbage = 0 ∨ AnyFree (blocks L κ.heap.mem)) :=
  ⟨fun h hd => h.anyFree hl hd, fun h => harmless_of hl h⟩

/-- The heap but for a block of 32 bytes is allocated: `Yield_Task` gets these for a stack, and nothing for the task. -/
theorem harmless_iff_lastBlock : ∃ s, run (Heap.step sram) (start sram fun _ => 0) [.malloc 36816] = some s ∧
    (create sram ⟨s, .cleared⟩ 0x20000010 (.task 0)).map Prod.snd = some .efatal ∧
      Harmless sram ⟨s, .cleared⟩ 0x20000010 (.task 0) := by
  have hsome : (run (Heap.step sram) (start sram fun _ => 0) [.malloc 36816]).isSome = true := by decide
  have hall : ∀ s ∈ run (Heap.step sram) (start sram fun _ => 0) [.malloc 36816], Listed sram s.mem ∧
      AnyFree (blocks sram s.mem) ∧
        (create sram ⟨s, .cleared⟩ 0x20000010 (.task 0)).map Prod.snd = some .efatal := by decide
  obtain ⟨s, hs⟩ := Option.isSome_iff_exists.1 hsome
  obtain ⟨hl, hfree, hret⟩ := hall s hs
  exact ⟨s, hs, hret, (harmless_iff hl _ _).2 fun _ => .inr hfree⟩

/-- The whole heap is one allocation, and `t` holds its address: `Yield_Task` frees it. -/
theorem not_harmless_exhausted : ∃ s, run (Heap.step sram) (start sram fun _ => 0) [.malloc 36848] = some s ∧
    s.live = [(0x20000010, 36848)] ∧
      (create sram ⟨s, .cleared⟩ 0x20000010 (.task 256)).map (fun r => (r.1.heap.live, r.2)) = some ([], .efatal) ∧
        ¬ Harmless sram ⟨s, .cleared⟩ 0x20000010 (.task 256) := by
  have hsome : (run (Heap.step sram) (start sram fun _ => 0) [.malloc 36848]).isSome = true := by decide
  have hall : ∀ s ∈ run (Heap.step sram) (start sram fun _ => 0) [.malloc 36848], Listed sram s.mem ∧
      ¬ AnyFree (blocks sram s.mem) ∧ s.live = [(0x20000010, 36848)] ∧
        (create sram ⟨s, .cleared⟩ 0x20000010 (.task 256)).map (fun r => (r.1.heap.live, r.2)) =
          some ([], .efatal) := by decide
  obtain ⟨s, hs⟩ := Option.isSome_iff_exists.1 hsome
  obtain ⟨hl, hfree, hlive, hret⟩ := hall s hs
  exact ⟨s, hs, hlive, hret, fun h => (h.anyFree hl rfl).elim (by decide) hfree⟩

end Kernel

/-! ## The heap behind a call without memory -/

/-- **The heap is as it was**, word by word, behind a `Yield_AllocateTask` that gets no memory: the call returns, and what
it took is back in the list. -/
theorem allocateTask_restores {L : Layout} {s : Heap.State} {bs : List Block} {garbage n : BitVec 32} {a : Allocation}
    (h : Intact L s.mem bs) (ht : blockHdr ≤ total (n + taskFrameSize).toNat)
    (htw : total (n + taskFrameSize).toNat + 2 * blockHdr < 2 ^ 32) (hok : garbage = 0 ∨ AnyFree bs)
    (ha : allocateTask L s garbage n = some a) (h0 : a.task = 0) : a.heap = some s := by
  rcases allocateTask_cases ha with ⟨s₁, hstack, rfl⟩ | ⟨stack, s₁, s₂, hne, hstack, htask, rfl⟩ | ⟨hne, -⟩
  · have hfree : ¬ AnyFree (blocks L s.mem) := fun hf => malloc_ne_null h.listed hf hstack rfl
    have hg : garbage = 0 := hok.resolve_right fun hf => hfree (h.blocks_eq.symm ▸ hf)
    subst hg
    obtain rfl := (Prod.mk.inj (Option.some.inj ((malloc_eq_null h.listed hfree _).symm.trans hstack))).2
    rfl
  · obtain ⟨hm, hlive⟩ := malloc_some hstack
    obtain ⟨hmem, hfree⟩ := free_of_malloc_null h ht htw hm hne (malloc_some htask).1
    rw [if_neg hne, ← malloc_null_live htask] at hlive
    have hs₂ : s₂.free stack = some s := by
      rw [State.free, hmem, hfree]
      show some _ = some s
      rw [if_neg hne, hlive]
      simp
    show (s₂.free stack).bind _ = some s
    rw [hs₂]
    rfl
  · exact absurd h0 hne

/-! ## The memory an event is given -/

/-- `Heap_Malloc` returns no memory that is allocated, and keeps the list. -/
theorem malloc_fresh {L : Layout} {s s' : Heap.State} {n : BitVec 32} {p : Nat} (h : Heap.Inv (fun _ _ => True) L s)
    (hm : MallocMeets (blocks L s.mem) n.toNat) (hmalloc : s.malloc L n = some (p, s')) :
    Heap.Inv (fun _ _ => True) L s' ∧ (p ≠ 0 → p ∉ s.live.map Prod.fst) := by
  obtain ⟨hmem, hlive⟩ := malloc_some hmalloc
  obtain ⟨s₁, hs₁, hinv⟩ := inv_malloc h hm fun _ _ _ _ _ _ _ => trivial
  obtain rfl : s₁ = s' := by
    have hstep : Heap.step L s (.malloc n) = some s' := by
      obtain ⟨⟨q, m⟩, hq, heq⟩ := Option.bind_eq_some_iff.1 hmalloc
      obtain ⟨rfl, rfl⟩ := Prod.mk.inj (Option.some.inj heq)
      show (Heap.malloc L s.mem n.toNat).bind _ = _
      rw [hq]
      rfl
    exact Option.some.inj (hs₁.symm.trans hstep)
  refine ⟨hinv, fun hp => ?_⟩
  obtain ⟨bs, -, hlives⟩ := hinv
  have hnodup := hlives.nodup
  rw [hlive, if_neg hp] at hnodup
  exact (List.nodup_cons.1 hnodup).1

theorem malloc_lt {L : Layout} {m m' : WordMem} {size p : Nat} (h : Heap.malloc L m size = some (p, m')) :
    p < 2 ^ 32 := by
  obtain ⟨best, -, h⟩ := Option.bind_eq_some_iff.1 h
  split at h
  · obtain ⟨rfl, -⟩ := Prod.mk.inj (Option.some.inj h)
    exact Nat.two_pow_pos 32
  · obtain ⟨m₁, -, h⟩ := Option.bind_eq_some_iff.1 h
    obtain ⟨m₂, -, h⟩ := Option.bind_eq_some_iff.1 h
    obtain ⟨rfl, -⟩ := Prod.mk.inj (Option.some.inj h)
    exact Nat.mod_lt _ (Nat.two_pow_pos 32)

namespace Kernel

/-- Every descriptor that is allocated is one of the heap's allocations. -/
def Backed (κ : Kernel) : Prop := ∀ p : Ptr, κ.sys.sched.live p = true → p.toNat ∈ κ.heap.live.map Prod.fst

/-- **What an event of the scheduler takes from its environment is what the heap gives**: the descriptor that
`Yield_AllocateTask` returns, null or not, is one that `System.step` accepts. -/
theorem available_of_allocateTask {L : Layout} {κ : Kernel} {garbage n : BitVec 32} {a : Allocation}
    (hb : κ.Backed) (h : Heap.Inv (fun _ _ => True) L κ.heap)
    (hm : MallocMeets (blocks L κ.heap.mem) (n + taskFrameSize).toNat)
    (hm' : ∀ stack s', κ.heap.malloc L (n + taskFrameSize) = some (stack, s') →
      MallocMeets (blocks L s'.mem) taskSize.toNat)
    (ha : allocateTask L κ.heap garbage n = some a) : κ.sys.Available (BitVec.ofNat 32 a.task) := by
  obtain ⟨⟨stack, s₁⟩, hstack, ha⟩ := Option.bind_eq_some_iff.1 ha
  dsimp only at ha
  split at ha
  · obtain rfl := Option.some.inj ha
    exact .inl rfl
  rename_i hne
  obtain ⟨⟨t, s₂⟩, ht, ha⟩ := Option.bind_eq_some_iff.1 ha
  dsimp only at ha
  split at ha
  · obtain rfl := Option.some.inj ha
    exact .inl rfl
  rename_i ht0
  obtain rfl := Option.some.inj ha
  right
  have hfresh := (malloc_fresh (malloc_fresh h hm hstack).1 (hm' stack s₁ hstack) ht).2 ht0
  rw [(malloc_some hstack).2, if_neg hne] at hfresh
  show κ.sys.sched.live (BitVec.ofNat 32 t) = false
  rw [← Bool.not_eq_true]
  intro hlive
  have hmem := hb _ hlive
  rw [BitVec.toNat_ofNat, Nat.mod_eq_of_lt (malloc_lt (malloc_some ht).1)] at hmem
  exact hfresh (List.mem_cons_of_mem _ hmem)

end Kernel

end YieldStm32.Yield
