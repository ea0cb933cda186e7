import Mathlib.Data.Nat.ModEq
import Mathlib.Logic.Function.Basic
import YieldStm32.Lib.Run

/-!
# Semaphores (`sys/src/sem.c`)

A semaphore is one byte (`enum sem` under short enums) that holds the owner's task id: stores cut the id to eight bits,
comparisons are made as `int`s. Tasks switch only at `Yield()`, so an event is one pass of a locking loop, up to its
`Yield()` or its return.

Ghost state: `owner`, whose id was last stored in each semaphore; `granted`, the semaphores a task was told it has and has
not released; `before`, what a task owned when it called `Sem_LockMultiple`.

* `Takes` : the test under which a loop takes a semaphore;
* `Careful` : the semaphores a pass takes are not owned by a task whose id, cut to a byte, is zero or the caller's; and a
  pass that ends blocked does not take any the caller owns;
* `exclusive_of_careful` : mutual exclusion, over every such run;
* `allOrNothing_of_careful` : `Sem_LockMultiple` takes everything or nothing, over every such run.
-/

namespace YieldStm32.Sem

open Transition

/-- A task id as `Yield_InitializeTask` hands it out: a positive `int`. -/
structure TaskId where
  id : Nat
  pos : 0 < id
  lt : id < 2 ^ 31
deriving DecidableEq

/-- The id as a `sem_t` holds it. -/
def TaskId.stored (t : TaskId) : BitVec 8 := BitVec.ofNat 8 t.id

/-- `timeout` and `ts` of a call. -/
structure Wait where
  timeout : Int
  ts : BitVec 32

/-- `timeout && dtime(time(0), ts) > timeout` -/
def Wait.Expired (w : Wait) (now : BitVec 32) : Prop := w.timeout ≠ 0 ∧ (now - w.ts).toInt > w.timeout

/-- `!timeout || dtime(time(0), ts) < timeout` -/
def Wait.Runs (w : Wait) (now : BitVec 32) : Prop := w.timeout = 0 ∨ (now - w.ts).toInt < w.timeout

instance (w : Wait) (now : BitVec 32) : Decidable (w.Expired now) := inferInstanceAs (Decidable (_ ∧ _))
instance (w : Wait) (now : BitVec 32) : Decidable (w.Runs now) := inferInstanceAs (Decidable (_ ∨ _))

inductive Err where
  | eok
  | etimeout
deriving DecidableEq, Repr

/-- Where a task is: outside of the locking calls, or at the `Yield()` of one. -/
inductive Pc (σ : Type*) where
  | idle
  | lock (sem : σ) (w : Wait)
  | lockMultiple (semList : List σ) (w : Wait) (before : σ → Bool)

structure State (σ : Type*) where
  mem : σ → BitVec 8
  pc : TaskId → Pc σ
  returned : TaskId → Option Err
  owner : σ → Option TaskId
  granted : TaskId → σ → Bool

inductive Event (σ : Type*) where
  | lock (t : TaskId) (sem : σ) (w : Wait) (now : BitVec 32)
  | lockMultiple (t : TaskId) (semList : List σ) (w : Wait) (now : BitVec 32)
  | resume (t : TaskId) (now : BitVec 32)
  | release (t : TaskId) (sem : σ)
  | releaseMultiple (t : TaskId) (semList : List σ)

variable {σ : Type*}

/-- The task that makes the call, or goes on with it. -/
def Event.task : Event σ → TaskId
  | .lock t _ _ _ => t
  | .lockMultiple t _ _ _ => t
  | .resume t _ => t
  | .release t _ => t
  | .releaseMultiple t _ => t

/-- `*sem == SEM_RELEASED || *sem == task_id`, compared as `int`s. -/
def Takes (mem : σ → BitVec 8) (t : TaskId) (x : σ) : Prop := mem x = 0 ∨ (mem x).toNat = t.id

instance (mem : σ → BitVec 8) (t : TaskId) (x : σ) : Decidable (Takes mem t x) := inferInstanceAs (Decidable (_ ∨ _))

section Code

variable [DecidableEq σ]

/-- The same value written to every element of a list. -/
def writeAll {β : Type*} (m : σ → β) (xs : List σ) (v : β) : σ → β := fun y => if y ∈ xs then v else m y

/-- The semaphores the first loop of `Sem_LockMultiple` comes to lock. -/
def lockLoop (t : TaskId) : (σ → BitVec 8) → List σ → List σ
  | _, [] => []
  | mem, x :: xs => if Takes mem t x then x :: lockLoop t (Function.update mem x t.stored) xs else []

/-- A pass of `Sem_Lock`. -/
def lockPass (s : State σ) (t : TaskId) (x : σ) (w : Wait) (now : BitVec 32) : State σ :=
  if Takes s.mem t x then
    { mem := Function.update s.mem x t.stored
      pc := Function.update s.pc t .idle
      returned := Function.update s.returned t (some .eok)
      owner := Function.update s.owner x (some t)
      granted := Function.update s.granted t (Function.update (s.granted t) x true) }
  else if w.Expired now then
    { s with pc := Function.update s.pc t .idle, returned := Function.update s.returned t (some .etimeout) }
  else
    { s with pc := Function.update s.pc t (.lock x w), returned := Function.update s.returned t none }

/-- A pass of `Sem_LockMultiple`. -/
def lockMultiplePass (s : State σ) (t : TaskId) (xs : List σ) (w : Wait) (before : σ → Bool) (now : BitVec 32) :
    State σ :=
  if w.Runs now then
    let locked := lockLoop t s.mem xs
    if locked = xs then
      { mem := writeAll s.mem xs t.stored
        pc := Function.update s.pc t .idle
        returned := Function.update s.returned t (some .eok)
        owner := writeAll s.owner xs (some t)
        granted := Function.update s.granted t (writeAll (s.granted t) xs true) }
    else
      -- some were locked: they are released again, by their place in the list
      { s with
        mem := writeAll s.mem locked 0
        pc := Function.update s.pc t (.lockMultiple xs w before)
        returned := Function.update s.returned t none
        owner := writeAll s.owner locked none }
  else
    { s with pc := Function.update s.pc t .idle, returned := Function.update s.returned t (some .etimeout) }

/-- `Sem_Release`, `Sem_ReleaseMultiple` -/
def releaseAll (s : State σ) (t : TaskId) (xs : List σ) : State σ :=
  { s with
    mem := writeAll s.mem xs 0
    owner := writeAll s.owner xs none
    granted := Function.update s.granted t (writeAll (s.granted t) xs false) }

/-- What a task owns. -/
def State.owned (s : State σ) (t : TaskId) : σ → Bool := fun x => decide (s.owner x = some t)

/-- A task makes one call at a time, and releases only what it was granted. -/
def step (s : State σ) : Event σ → Option (State σ)
  | .lock t x w now =>
      match s.pc t with
      | .idle => some (lockPass s t x w now)
      | _ => none
  | .lockMultiple t xs w now =>
      match s.pc t with
      | .idle => some (lockMultiplePass s t xs w (s.owned t) now)
      | _ => none
  | .resume t now =>
      match s.pc t with
      | .idle => none
      | .lock x w => some (lockPass s t x w now)
      | .lockMultiple xs w before => some (lockMultiplePass s t xs w before now)
  | .release t x =>
      match s.pc t with
      | .idle => if s.granted t x then some (releaseAll s t [x]) else none
      | _ => none
  | .releaseMultiple t xs =>
      match s.pc t with
      | .idle => if ∀ x ∈ xs, s.granted t x then some (releaseAll s t xs) else none
      | _ => none

end Code

/-- Tasks that own semaphores, and are outside of the locking calls. -/
def startWith (owner : σ → Option TaskId) : State σ where
  mem x := (owner x).elim 0 TaskId.stored
  pc _ := .idle
  returned _ := none
  owner := owner
  granted t x := decide (owner x = some t)

/-! ## Properties and condition -/

/-- No semaphore is granted to two tasks. -/
def Exclusive (s : State σ) : Prop := ∀ t u x, s.granted t x = true → s.granted u x = true → t = u

/-- The call of `Sem_LockMultiple` an event is a pass of: its task, its list, and what the task owned before. -/
def multipleCall (s : State σ) : Event σ → Option (TaskId × List σ × (σ → Bool))
  | .lockMultiple t xs _ _ => some (t, xs, s.owned t)
  | .resume t _ =>
      match s.pc t with
      | .lockMultiple xs _ before => some (t, xs, before)
      | _ => none
  | _ => none

/-- After a pass of `Sem_LockMultiple` the caller owns the whole list, if it returned `EOK`, and else exactly what it
owned before the call; what other tasks own is as it was. -/
def Settled (t : TaskId) (xs : List σ) (before : σ → Bool) (s s' : State σ) : Prop :=
  (s'.returned t = some .eok → ∀ x ∈ xs, s'.owner x = some t) ∧
    (s'.returned t ≠ some .eok → ∀ x, s'.owner x = some t ↔ before x = true) ∧
    ∀ u x, u ≠ t → s.owner x = some u → s'.owner x = some u ∧ s'.mem x = s.mem x

/-- So is every pass of every call. -/
def AllOrNothing (s : State σ) (e : Event σ) (s' : State σ) : Prop :=
  ∀ t xs before, multipleCall s e = some (t, xs, before) → Settled t xs before s s'

/-- To `t`, a semaphore with `u`'s id looks free or its own. -/
def Clash (t u : TaskId) : Prop := u.id % 256 = 0 ∨ u.id % 256 = t.id

instance (t u : TaskId) : Decidable (Clash t u) := inferInstanceAs (Decidable (_ ∨ _))

/-- No other owner's id is mistaken. -/
def Clear (s : State σ) (t : TaskId) (x : σ) : Prop := ∀ u, s.owner x = some u → u ≠ t → ¬ Clash t u

instance (s : State σ) (t : TaskId) (x : σ) : Decidable (Clear s t x) :=
  match h : s.owner x with
  | none => isTrue fun u hu => by rw [h] at hu; cases hu
  | some u => decidable_of_iff (u ≠ t → ¬ Clash t u)
      ⟨fun hc v hv => by rw [h] at hv; cases hv; exact hc, fun hc => hc u h⟩

/-- A pass of `Sem_LockMultiple` mistakes no owner's id, and gives back only what it took. -/
def ClearAll [DecidableEq σ] (s : State σ) (t : TaskId) (xs : List σ) (w : Wait) (now : BitVec 32) : Prop :=
  w.Runs now → (∀ x ∈ lockLoop t s.mem xs, Clear s t x) ∧
    (lockLoop t s.mem xs ≠ xs → ∀ x ∈ lockLoop t s.mem xs, s.owner x ≠ some t)

instance [DecidableEq σ] (s : State σ) (t : TaskId) (xs : List σ) (w : Wait) (now : BitVec 32) :
    Decidable (ClearAll s t xs w now) := inferInstanceAs (Decidable (_ → _ ∧ _))

/-- The condition of the pass a task goes on with. -/
def ClearPc [DecidableEq σ] (s : State σ) (t : TaskId) (now : BitVec 32) : Pc σ → Prop
  | .idle => True
  | .lock x _ => Clear s t x
  | .lockMultiple xs w _ => ClearAll s t xs w now

instance [DecidableEq σ] (s : State σ) (t : TaskId) (now : BitVec 32) : ∀ pc, Decidable (ClearPc s t now pc)
  | .idle => isTrue trivial
  | .lock x _ => inferInstanceAs (Decidable (Clear s t x))
  | .lockMultiple xs w _ => inferInstanceAs (Decidable (ClearAll s t xs w now))

/-- The condition of an event. -/
def Careful [DecidableEq σ] (s : State σ) : Event σ → Prop
  | .lock t x _ _ => Clear s t x
  | .lockMultiple t xs w now => ClearAll s t xs w now
  | .resume t now => ClearPc s t now (s.pc t)
  | .release _ _ => True
  | .releaseMultiple _ _ => True

instance [DecidableEq σ] (s : State σ) : ∀ e, Decidable (Careful s e)
  | .lock t x _ _ => inferInstanceAs (Decidable (Clear s t x))
  | .lockMultiple t xs w now => inferInstanceAs (Decidable (ClearAll s t xs w now))
  | .resume t now => inferInstanceAs (Decidable (ClearPc s t now (s.pc t)))
  | .release _ _ => isTrue trivial
  | .releaseMultiple _ _ => isTrue trivial

/-! ## The invariant -/

/-- The invariant: memory holds the owner's id; what was granted is owned; and a task inside `Sem_LockMultiple` owns what
it owned before. -/
structure Inv (s : State σ) : Prop where
  mem : ∀ x, s.mem x = (s.owner x).elim 0 TaskId.stored
  granted : ∀ t x, s.granted t x = true → s.owner x = some t
  before : ∀ t xs w before, s.pc t = .lockMultiple xs w before → ∀ x, s.owner x = some t ↔ before x = true

theorem Inv.exclusive {s : State σ} (h : Inv s) : Exclusive s := by
  intro t u x ht hu
  have htu := (h.granted t x ht).symm.trans (h.granted u x hu)
  exact Option.some.inj htu

theorem startWith_inv (owner : σ → Option TaskId) : Inv (startWith owner) := by
  refine ⟨fun x => rfl, fun t x h => of_decide_eq_true h, fun t xs w before h => ?_⟩
  cases h

/-- What a pass by `t` leaves alone. -/
structure Frame (t : TaskId) (s s' : State σ) : Prop where
  owner : ∀ u x, u ≠ t → (s'.owner x = some u ↔ s.owner x = some u)
  pc : ∀ u, u ≠ t → s'.pc u = s.pc u
  granted : ∀ u, u ≠ t → s'.granted u = s.granted u

/-- The invariant after a pass of `t`: its own part has to be shown. -/
theorem Inv.frame {t : TaskId} {s s' : State σ} (h : Inv s) (hf : Frame t s s')
    (hmem : ∀ x, s'.mem x = (s'.owner x).elim 0 TaskId.stored)
    (hgranted : ∀ x, s'.granted t x = true → s'.owner x = some t)
    (hbefore : ∀ xs w before, s'.pc t = .lockMultiple xs w before → ∀ x, s'.owner x = some t ↔ before x = true) :
    Inv s' := by
  refine ⟨hmem, fun u x hu => ?_, fun u xs w before hu x => ?_⟩
  · by_cases hut : u = t
    · rw [hut] at hu ⊢
      exact hgranted x hu
    · rw [hf.granted u hut] at hu
      exact (hf.owner u x hut).2 (h.granted u x hu)
  · by_cases hut : u = t
    · rw [hut] at hu ⊢
      exact hbefore xs w before hu x
    · rw [hf.pc u hut] at hu
      rw [hf.owner u x hut]
      exact h.before u xs w before hu x

/-- A semaphore that a pass takes is free or the caller's own. -/
theorem Inv.owner_of_takes {s : State σ} (h : Inv s) {t : TaskId} {x : σ} (hc : Clear s t x) (ht : Takes s.mem t x) :
    s.owner x = none ∨ s.owner x = some t := by
  cases ho : s.owner x with
  | none => exact Or.inl rfl
  | some u =>
      right
      by_cases hut : u = t
      · rw [hut]
      · have hmem : s.mem x = u.stored := by rw [h.mem, ho]; rfl
        have hclash : Clash t u := by
          rcases ht with ht | ht
          · left
            rw [hmem] at ht
            have := congrArg BitVec.toNat ht
            simpa [TaskId.stored] using this
          · right
            rw [hmem] at ht
            simpa [TaskId.stored] using ht
        exact absurd hclash (hc u ho hut)

/-- A pass that only moves its task. -/
theorem Inv.wait {s : State σ} {t : TaskId} (h : Inv s) (pc : Pc σ) (ret : Option Err)
    (hpc : ∀ xs w before, pc = .lockMultiple xs w before → ∀ x, s.owner x = some t ↔ before x = true) :
    Inv { s with pc := Function.update s.pc t pc, returned := Function.update s.returned t ret } := by
  refine h.frame (t := t) ⟨fun _ _ _ => Iff.rfl, fun u hu => Function.update_of_ne hu .., fun _ _ => rfl⟩ h.mem
    (fun x hx => h.granted t x hx) fun xs w before hb => ?_
  dsimp only at hb
  rw [Function.update_self] at hb
  exact hpc xs w before hb

/-- Locked semaphores that another task owns: there are none. -/
theorem not_mem_of_owner {s : State σ} {t : TaskId} {x : σ} {xs : List σ}
    (hfree : ∀ x ∈ xs, s.owner x = none ∨ s.owner x = some t) {u : TaskId} (hut : u ≠ t)
    (ho : s.owner x = some u) : x ∉ xs := by
  intro hx
  rcases hfree x hx with h | h
  · rw [h] at ho
    cases ho
  · rw [h] at ho
    exact hut (Option.some.inj ho).symm

/-! ## Passes -/

section Passes

variable [DecidableEq σ]

/-- The first loop takes a semaphore for what it was before the loop. -/
theorem takes_of_mem_lockLoop {t : TaskId} {mem : σ → BitVec 8} {xs : List σ} {x : σ} (h : x ∈ lockLoop t mem xs) :
    Takes mem t x := by
  induction xs generalizing mem with
  | nil => cases h
  | cons y ys ih =>
      rw [lockLoop] at h
      split at h
      · rename_i hy
        rcases List.mem_cons.1 h with rfl | h
        · exact hy
        · by_cases hxy : x = y
          · rwa [hxy]
          · have hx := ih h
            unfold Takes at hx ⊢
            rwa [Function.update_of_ne hxy] at hx
      · cases h

@[simp] theorem writeAll_apply {β : Type*} (m : σ → β) (xs : List σ) (v : β) (y : σ) :
    writeAll m xs v y = if y ∈ xs then v else m y := rfl

variable {s s' : State σ} {t : TaskId} {x : σ} {xs : List σ} {w : Wait} {now : BitVec 32} {before : σ → Bool}

/-- Memory follows the owners, where both are written alike. -/
theorem Inv.mem_writeAll (h : Inv s) (xs : List σ) (o : Option TaskId) (y : σ) :
    writeAll s.mem xs (o.elim 0 TaskId.stored) y = (writeAll s.owner xs o y).elim 0 TaskId.stored := by
  rw [writeAll_apply, writeAll_apply]
  split
  · rfl
  · exact h.mem y

/-- Writes to semaphores that are free or the caller's own leave the others' alone. -/
theorem owner_writeAll (hfree : ∀ x ∈ xs, s.owner x = none ∨ s.owner x = some t) {o : Option TaskId}
    (ho : o = none ∨ o = some t) (u : TaskId) (y : σ) (hut : u ≠ t) :
    writeAll s.owner xs o y = some u ↔ s.owner y = some u := by
  have hne : ∀ p : Option TaskId, p = none ∨ p = some t → p ≠ some u := by
    rintro p (rfl | rfl) hp
    · cases hp
    · exact hut (Option.some.inj hp).symm
  rw [writeAll_apply]
  split
  · rename_i hy
    exact ⟨fun h => absurd h (hne o ho), fun h => absurd h (hne _ (hfree y hy))⟩
  · exact Iff.rfl

theorem Inv.lockPass (h : Inv s) (hc : Clear s t x) : Inv (lockPass s t x w now) := by
  unfold Sem.lockPass
  split
  · rename_i ht
    have hfree : ∀ y ∈ [x], s.owner y = none ∨ s.owner y = some t := by
      intro y hy
      rw [List.mem_singleton.1 hy]
      exact h.owner_of_takes hc ht
    have hupd : ∀ {β : Type} (m : σ → β) (v : β), Function.update m x v = writeAll m [x] v := by
      intro β m v
      funext y
      rw [writeAll_apply, Function.update_apply]
      simp
    refine h.frame (t := t) ⟨fun u y hu => ?_, fun u hu => Function.update_of_ne hu ..,
      fun u hu => Function.update_of_ne hu ..⟩ (fun y => ?_) (fun y hy => ?_) fun xs w before hb => ?_
    · dsimp only
      rw [hupd]
      exact owner_writeAll hfree (Or.inr rfl) u y hu
    · dsimp only
      rw [hupd, hupd]
      exact h.mem_writeAll [x] (some t) y
    · dsimp only at hy ⊢
      rw [Function.update_self] at hy
      by_cases hyx : y = x
      · rw [hyx, Function.update_self]
      · rw [Function.update_of_ne hyx] at hy ⊢
        exact h.granted t y hy
    · dsimp only at hb
      rw [Function.update_self] at hb
      cases hb
  · split
    · exact h.wait .idle _ fun _ _ _ hb => by cases hb
    · exact h.wait (.lock x w) _ fun _ _ _ hb => by cases hb

/-- What such writes leave as it is. -/
theorem untouched (hfree : ∀ x ∈ xs, s.owner x = none ∨ s.owner x = some t) (o : Option TaskId) (v : BitVec 8)
    (u : TaskId) (y : σ) (hut : u ≠ t) (ho : s.owner y = some u) :
    writeAll s.owner xs o y = some u ∧ writeAll s.mem xs v y = s.mem y := by
  have hy : y ∉ xs := not_mem_of_owner hfree hut ho
  rw [writeAll_apply, writeAll_apply, if_neg hy, if_neg hy]
  exact ⟨ho, rfl⟩

/-- A pass that locks the whole list. -/
theorem Inv.lockAll (h : Inv s) (hruns : w.Runs now) (hall : lockLoop t s.mem xs = xs)
    (hfree : ∀ x ∈ xs, s.owner x = none ∨ s.owner x = some t) :
    Inv (lockMultiplePass s t xs w before now) ∧ Settled t xs before s (lockMultiplePass s t xs w before now) := by
  unfold lockMultiplePass
  rw [if_pos hruns]
  dsimp only
  rw [if_pos hall]
  refine ⟨h.frame (t := t) ⟨fun u y hu => owner_writeAll hfree (Or.inr rfl) u y hu,
    fun u hu => Function.update_of_ne hu .., fun u hu => Function.update_of_ne hu ..⟩
    (fun y => h.mem_writeAll xs (some t) y) (fun y hy => ?_) fun xs w before hb => ?_, fun _ x hx => if_pos hx, ?_,
    untouched hfree (some t) t.stored⟩
  · dsimp only at hy ⊢
    rw [Function.update_self, writeAll_apply] at hy
    rw [writeAll_apply]
    split at hy
    · rw [if_pos ‹_›]
    · rw [if_neg ‹_›]
      exact h.granted t y hy
  · dsimp only at hb
    rw [Function.update_self] at hb
    cases hb
  · intro hret
    dsimp only at hret
    rw [Function.update_self] at hret
    exact absurd rfl hret

/-- A blocked pass: what it locked is free again, and none of it was the caller's. -/
theorem Inv.rollBack (h : Inv s) (hruns : w.Runs now) (hsome : lockLoop t s.mem xs ≠ xs)
    (hfree : ∀ x ∈ lockLoop t s.mem xs, s.owner x = none ∨ s.owner x = some t)
    (hback : ∀ x ∈ lockLoop t s.mem xs, s.owner x ≠ some t) (hbefore : ∀ x, s.owner x = some t ↔ before x = true) :
    Inv (lockMultiplePass s t xs w before now) ∧ Settled t xs before s (lockMultiplePass s t xs w before now) := by
  unfold lockMultiplePass
  rw [if_pos hruns]
  dsimp only
  rw [if_neg hsome]
  have hkept : ∀ y, writeAll s.owner (lockLoop t s.mem xs) none y = some t ↔ s.owner y = some t := by
    intro y
    rw [writeAll_apply]
    split
    · rename_i hy
      exact ⟨fun hn => (by cases hn), fun ho => absurd ho (hback y hy)⟩
    · exact Iff.rfl
  refine ⟨h.frame (t := t) ⟨fun u y hu => owner_writeAll hfree (Or.inl rfl) u y hu,
    fun u hu => Function.update_of_ne hu .., fun _ _ => rfl⟩
    (fun y => h.mem_writeAll _ none y) (fun y hy => (hkept y).2 (h.granted t y hy)) fun xs w b hb y => ?_,
    fun hret => ?_, fun _ y => ?_, untouched hfree none 0⟩
  · dsimp only at hb
    rw [Function.update_self] at hb
    obtain ⟨-, -, rfl⟩ := Pc.lockMultiple.inj hb
    exact (hkept y).trans (hbefore y)
  · dsimp only at hret
    rw [Function.update_self] at hret
    cases hret
  · exact (hkept y).trans (hbefore y)

/-- A pass of a call whose time is up. -/
theorem Inv.giveUp (h : Inv s) (hruns : ¬ w.Runs now) (hbefore : ∀ x, s.owner x = some t ↔ before x = true) :
    Inv (lockMultiplePass s t xs w before now) ∧ Settled t xs before s (lockMultiplePass s t xs w before now) := by
  unfold lockMultiplePass
  rw [if_neg hruns]
  refine ⟨h.wait .idle _ fun _ _ _ hb => (by cases hb), fun hret => ?_, fun _ => hbefore, fun u x _ ho => ⟨ho, rfl⟩⟩
  dsimp only at hret
  rw [Function.update_self] at hret
  cases hret

theorem Inv.lockMultiplePass (h : Inv s) (hc : ClearAll s t xs w now)
    (hbefore : ∀ x, s.owner x = some t ↔ before x = true) :
    Inv (lockMultiplePass s t xs w before now) ∧
      Settled t xs before s (Sem.lockMultiplePass s t xs w before now) := by
  by_cases hruns : w.Runs now
  · obtain ⟨hclear, hback⟩ := hc hruns
    have hfree : ∀ x ∈ lockLoop t s.mem xs, s.owner x = none ∨ s.owner x = some t := fun x hx =>
      h.owner_of_takes (hclear x hx) (takes_of_mem_lockLoop hx)
    by_cases hall : lockLoop t s.mem xs = xs
    · rw [hall] at hfree
      exact h.lockAll hruns hall hfree
    · exact h.rollBack hruns hall hfree (hback hall) hbefore
  · exact h.giveUp hruns hbefore

theorem Inv.releaseAll (h : Inv s) (hi : s.pc t = .idle) (hg : ∀ x ∈ xs, s.granted t x = true) :
    Inv (releaseAll s t xs) := by
  refine h.frame (t := t) ⟨fun u y hu => ?_, fun _ _ => rfl, fun u hu => Function.update_of_ne hu ..⟩
    (fun y => h.mem_writeAll xs none y) (fun y hy => ?_) fun xs w before hb => ?_
  · exact owner_writeAll (fun x hx => Or.inr (h.granted t x (hg x hx))) (Or.inl rfl) u y hu
  · unfold Sem.releaseAll at hy ⊢
    dsimp only at hy ⊢
    rw [Function.update_self, writeAll_apply] at hy
    rw [writeAll_apply]
    split at hy
    · cases hy
    · rw [if_neg ‹_›]
      exact h.granted t y hy
  · have hb' : s.pc t = .lockMultiple xs w before := hb
    rw [hi] at hb'
    cases hb'

/-! ## Steps -/

theorem granted_lockPass {u : TaskId} (hu : u ≠ t) : (lockPass s t x w now).granted u = s.granted u := by
  rw [lockPass]
  split
  · exact Function.update_of_ne hu ..
  · split <;> rfl

theorem granted_lockMultiplePass {u : TaskId} (hu : u ≠ t) :
    (lockMultiplePass s t xs w before now).granted u = s.granted u := by
  rw [lockMultiplePass]
  split
  · dsimp only
    split
    · exact Function.update_of_ne hu ..
    · rfl
  · rfl

/-- Every careful step keeps the invariant, and a pass of `Sem_LockMultiple` takes everything or nothing. -/
theorem Inv.step {e : Event σ} (h : Inv s) (hc : Careful s e) (hs : step s e = some s') :
    Inv s' ∧ AllOrNothing s e s' := by
  cases e with
  | lock t x w now =>
      simp only [Sem.step] at hs
      split at hs
      · obtain rfl := Option.some.inj hs
        exact ⟨h.lockPass hc, fun _ _ _ hcall => by cases hcall⟩
      · cases hs
  | lockMultiple t xs w now =>
      simp only [Sem.step] at hs
      split at hs
      · obtain rfl := Option.some.inj hs
        have howned : ∀ x, s.owner x = some t ↔ s.owned t x = true := fun x => by simp [State.owned]
        obtain ⟨hinv, hset⟩ := h.lockMultiplePass hc howned
        refine ⟨hinv, fun _ _ _ hcall => ?_⟩
        cases hcall
        exact hset
      · cases hs
  | resume t now =>
      simp only [Sem.step] at hs
      simp only [Careful] at hc
      split at hs
      · cases hs
      · rename_i x w hpc
        rw [hpc] at hc
        obtain rfl := Option.some.inj hs
        refine ⟨h.lockPass hc, fun _ _ _ hcall => ?_⟩
        simp [multipleCall, hpc] at hcall
      · rename_i xs w before hpc
        rw [hpc] at hc
        obtain rfl := Option.some.inj hs
        obtain ⟨hinv, hset⟩ := h.lockMultiplePass hc (h.before t xs w before hpc)
        refine ⟨hinv, fun _ _ _ hcall => ?_⟩
        simp only [multipleCall, hpc] at hcall
        cases hcall
        exact hset
  | release t x =>
      simp only [Sem.step] at hs
      split at hs
      · rename_i hpc
        obtain ⟨hg, hs⟩ := Option.ite_none_right_eq_some.1 hs
        obtain rfl := Option.some.inj hs
        exact ⟨h.releaseAll hpc (by simpa using hg), fun _ _ _ hcall => by cases hcall⟩
      · cases hs
  | releaseMultiple t xs =>
      simp only [Sem.step] at hs
      split at hs
      · rename_i hpc
        obtain ⟨hg, hs⟩ := Option.ite_none_right_eq_some.1 hs
        obtain rfl := Option.some.inj hs
        exact ⟨h.releaseAll hpc hg, fun _ _ _ hcall => by cases hcall⟩
      · cases hs

/-- What a task was granted, only its own events change. -/
theorem granted_step {e : Event σ} {u : TaskId} (hs : step s e = some s') (hu : u ≠ e.task) :
    s'.granted u = s.granted u := by
  cases e with
  | lock t x w now =>
      simp only [step] at hs
      split at hs
      · obtain rfl := Option.some.inj hs
        exact granted_lockPass hu
      · cases hs
  | lockMultiple t xs w now =>
      simp only [step] at hs
      split at hs
      · obtain rfl := Option.some.inj hs
        exact granted_lockMultiplePass hu
      · cases hs
  | resume t now =>
      simp only [step] at hs
      split at hs
      · cases hs
      · obtain rfl := Option.some.inj hs
        exact granted_lockPass hu
      · obtain rfl := Option.some.inj hs
        exact granted_lockMultiplePass hu
  | release t x =>
      simp only [step] at hs
      split at hs
      · obtain ⟨-, hs⟩ := Option.ite_none_right_eq_some.1 hs
        obtain rfl := Option.some.inj hs
        exact Function.update_of_ne hu ..
      · cases hs
  | releaseMultiple t xs =>
      simp only [step] at hs
      split at hs
      · obtain ⟨-, hs⟩ := Option.ite_none_right_eq_some.1 hs
        obtain rfl := Option.some.inj hs
        exact Function.update_of_ne hu ..
      · cases hs

end Passes

/-! ## Runs -/

section Runs

variable [DecidableEq σ]

/-- **Mutual exclusion**: in every careful run from free semaphores no semaphore is granted to two tasks. -/
theorem exclusive_of_careful (es : List (Event σ)) (h : Meets step Careful (startWith fun _ : σ => none) es) :
    Along step (fun _ _ s' => Exclusive s') (startWith fun _ : σ => none) es := by
  refine along_of_meets (I := Inv) (G := Careful) (fun s e s' hi hc hs => ?_) (startWith_inv _) h
  have hi' := (hi.step hc hs).1
  exact ⟨hi', hi'.exclusive⟩

/-- A semaphore that a task was granted stays its own, whatever the others do: none of them ever gets it. -/
theorem exclusive_of_granted {s s' : State σ} {t : TaskId} {x : σ} {es : List (Event σ)} (hi : Inv s)
    (hg : s.granted t x = true) (hothers : ∀ e ∈ es, t ≠ e.task) (hm : Meets step Careful s es)
    (hr : run step s es = some s') {u : TaskId} (hu : s'.granted u x = true) : u = t := by
  induction es generalizing s with
  | nil =>
      obtain rfl := Option.some.inj hr
      exact hi.exclusive u t x hu hg
  | cons e es ih =>
      obtain ⟨s1, hs, hr⟩ := Option.bind_eq_some_iff.1 hr
      have hg1 : s1.granted t x = true := by
        rw [granted_step hs (hothers e List.mem_cons_self)]
        exact hg
      exact ih (hi.step hm.1 hs).1 hg1 (fun e he => hothers e (List.mem_cons_of_mem _ he)) (hm.cons hs) hr

theorem one_lt_ids : 1 < 2 ^ 31 := by decide

theorem two_lt_ids : 2 < 2 ^ 31 := by decide

/-- Two tasks take turns; the second is kept waiting by the first. -/
def takingTurns : List (Event Bool) :=
  [.lock ⟨1, Nat.one_pos, one_lt_ids⟩ true ⟨0, 0⟩ 0, .lockMultiple ⟨2, Nat.two_pos, two_lt_ids⟩ [false, true] ⟨0, 0⟩ 0,
    .release ⟨1, Nat.one_pos, one_lt_ids⟩ true, .resume ⟨2, Nat.two_pos, two_lt_ids⟩ 5]

theorem exclusive_of_careful_takingTurns :
    Meets step Careful (startWith fun _ : Bool => none) takingTurns ∧
      Along step (fun _ _ s' => Exclusive s') (startWith fun _ : Bool => none) takingTurns := by
  have h : Meets step Careful (startWith fun _ : Bool => none) takingTurns := by decide
  exact ⟨h, exclusive_of_careful takingTurns h⟩

/-- Task 256 locks a semaphore, and so does task 1: the byte of id 256 is that of a free semaphore. -/
theorem not_exclusive_256 :
    ¬ Along step (fun _ _ s' => Exclusive s') (startWith fun _ : Unit => none)
      [.lock ⟨256, by decide, by decide⟩ () ⟨0, 0⟩ 0, .lock ⟨1, by decide, by decide⟩ () ⟨0, 0⟩ 0] := by
  intro h
  have hlast := ((h _ rfl).2 _ rfl).1
  have hsame := hlast ⟨256, by decide, by decide⟩ ⟨1, by decide, by decide⟩ () (by decide) (by decide)
  exact absurd hsame (by decide)

/-- **All or nothing**: in every careful run, whoever owns what at its start, every pass of `Sem_LockMultiple` ends with
the whole list or with what the caller owned before, and modifies nothing another task owns. -/
theorem allOrNothing_of_careful (owner : σ → Option TaskId) (es : List (Event σ))
    (h : Meets step Careful (startWith owner) es) : Along step AllOrNothing (startWith owner) es :=
  along_of_meets (fun _ _ _ hi hc hs => hi.step hc hs) (startWith_inv owner) h

theorem allOrNothing_of_careful_takingTurns :
    Meets step Careful (startWith fun _ : Bool => none) takingTurns ∧
      Along step AllOrNothing (startWith fun _ : Bool => none) takingTurns := by
  have h : Meets step Careful (startWith fun _ : Bool => none) takingTurns := by decide
  exact ⟨h, allOrNothing_of_careful _ takingTurns h⟩

/-- Task 1 owns the first semaphore of its list and is blocked at the second: at its `Yield()` it owns neither. -/
theorem not_allOrNothing_owned :
    ¬ Along step AllOrNothing
      (startWith fun x : Bool => some (if x then ⟨2, by decide, by decide⟩ else ⟨1, by decide, by decide⟩))
      [.lockMultiple ⟨1, by decide, by decide⟩ [false, true] ⟨0, 0⟩ 0] := by
  intro h
  have hset := (h _ rfl).1 _ _ _ rfl
  exact absurd ((hset.2.1 (by decide) false).2 (by decide)) (by decide)

end Runs

end YieldStm32.Sem
