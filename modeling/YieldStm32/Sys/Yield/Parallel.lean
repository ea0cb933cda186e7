import YieldStm32.Sys.Yield.Wait

/-!
# Running coroutines in parallel (`Yield_Parallel`)

What `Yield_Run` does for each coroutine of the list is a parameter: the id of the coroutine it started, or nothing.

* `parallel` : the function, with the writes it makes through `task_ids` while it is null;
* `Lists` : what `Yield_WaitAll` and `Yield_CancelAll` need of an array;
* `Prepared` : no call fails, or the array holds already what is not written to it;
* `reports_iff` : the coroutines started are reported exactly there.
-/

namespace YieldStm32.Yield

/-- `task_ids`, and two ghosts: what was written to a null pointer, and the coroutines started. -/
structure Parallel where
  array : Option (Nat → BitVec 32)
  wild : List (Nat × BitVec 32)
  started : List (BitVec 32)

namespace Parallel

/-- `task_ids[i] = id` -/
def store (p : Parallel) (i : Nat) (id : BitVec 32) : Parallel :=
  match p.array with
  | some m => { p with array := some (Function.update m i id) }
  | none => { p with wild := (i, id) :: p.wild }

/-- What `Yield_Run` returns when it started a coroutine, and `EFATAL` when it did not. -/
def runResult : Option (BitVec 32) → BitVec 32
  | some id => id
  | none => -1

/-- `Yield_Run` -/
def yieldRun (p : Parallel) (r : Option (BitVec 32)) : Parallel := { p with started := p.started ++ r.toList }

/-- The loop of `Yield_Parallel` when `n` coroutines are running, and what it returns. -/
def loop : Nat → List (Option (BitVec 32)) → Parallel → Int × Parallel
  | n, [], p => (n, p.store n 0)
  | n, r :: rs, p =>
      let ec := runResult r
      let p := p.yieldRun r
      if ec.toInt < 0 then (ec.toInt, p)
      else loop (n + 1) rs (if p.array.isSome then p.store n ec else p)

/-- `Yield_Parallel` -/
def parallel (rs : List (Option (BitVec 32))) (array : Option (Nat → BitVec 32)) : Int × Parallel :=
  loop 0 rs ⟨array, [], []⟩

/-- From the word `n` on there are these ids, and a 0 behind them. -/
def Lists (m : Nat → BitVec 32) : Nat → List (BitVec 32) → Prop
  | n, [] => m n = 0
  | n, id :: ids => m n = id ∧ id ≠ 0 ∧ Lists m (n + 1) ids

/-- An array lists the coroutines started, and nothing is written to a null pointer. -/
def Reports (p : Parallel) : Prop := (∀ m ∈ p.array, Lists m 0 p.started) ∧ p.wild = []

/-- The call returns an error. -/
def Fails (r : Option (BitVec 32)) : Prop := (runResult r).toInt < 0

instance (r : Option (BitVec 32)) : Decidable (Fails r) := inferInstanceAs (Decidable (_ < _))

/-- No id is 0, and where a call fails the rest of the array, from that word on, is as if it had been written. -/
def Prepared (m : Nat → BitVec 32) : Nat → List (Option (BitVec 32)) → Prop
  | _, [] => True
  | n, r :: rs => if Fails r then Lists m n r.toList else runResult r ≠ 0 ∧ Prepared m (n + 1) rs

/-! ## The coroutines started -/

/-- The coroutines that are started before a call returns an error. -/
def begun : List (Option (BitVec 32)) → List (BitVec 32)
  | [] => []
  | r :: rs => r.toList ++ if Fails r then [] else begun rs

@[simp] theorem store_started (p : Parallel) (i : Nat) (id : BitVec 32) : (p.store i id).started = p.started := by
  unfold store
  split <;> rfl

theorem store_of_some {p : Parallel} {m : Nat → BitVec 32} (h : p.array = some m) (i : Nat) (id : BitVec 32) :
    p.store i id = { p with array := some (Function.update m i id) } := by
  rw [store, h]

theorem store_of_none {p : Parallel} (h : p.array = none) (i : Nat) (id : BitVec 32) :
    p.store i id = { p with wild := (i, id) :: p.wild } := by
  rw [store, h]

theorem loop_of_fails {r : Option (BitVec 32)} (hr : Fails r) (n : Nat) (rs : List (Option (BitVec 32)))
    (p : Parallel) : loop n (r :: rs) p = ((runResult r).toInt, p.yieldRun r) := if_pos hr

theorem loop_of_not_fails {r : Option (BitVec 32)} (hr : ¬ Fails r) (n : Nat) (rs : List (Option (BitVec 32)))
    (p : Parallel) :
    loop n (r :: rs) p =
      loop (n + 1) rs (if p.array.isSome then (p.yieldRun r).store n (runResult r) else p.yieldRun r) := if_neg hr

theorem loop_started (n : Nat) (rs : List (Option (BitVec 32))) (p : Parallel) :
    (loop n rs p).2.started = p.started ++ begun rs := by
  induction rs generalizing n p with
  | nil => rw [loop, store_started, begun, List.append_nil]
  | cons r rs ih =>
      rw [begun]
      by_cases hr : Fails r
      · rw [loop_of_fails hr, if_pos hr, List.append_nil]
        rfl
      · rw [loop_of_not_fails hr, if_neg hr, ih, ← List.append_assoc]
        congr 1
        split
        · exact store_started ..
        · rfl

theorem eq_some_of_not_fails {r : Option (BitVec 32)} (h : ¬ Fails r) : r = some (runResult r) := by
  cases r with
  | some id => rfl
  | none => exact absurd (by decide) h

/-! ## An array -/

theorem lists_congr {m m' : Nat → BitVec 32} {n : Nat} (h : ∀ i, n ≤ i → m i = m' i) (ids : List (BitVec 32)) :
    Lists m n ids ↔ Lists m' n ids := by
  induction ids generalizing n with
  | nil => rw [Lists, Lists, h n (Nat.le_refl n)]
  | cons id ids ih => rw [Lists, Lists, h n (Nat.le_refl n), ih fun i hi => h i (Nat.le_of_succ_le hi)]

theorem prepared_congr {m m' : Nat → BitVec 32} {n : Nat} (h : ∀ i, n ≤ i → m i = m' i)
    (rs : List (Option (BitVec 32))) : Prepared m n rs ↔ Prepared m' n rs := by
  induction rs generalizing n with
  | nil => exact Iff.rfl
  | cons r rs ih => rw [Prepared, Prepared, lists_congr h, ih fun i hi => h i (Nat.le_of_succ_le hi)]

/-- What is below `n` stays, and from there on the array lists the coroutines if and only if it was prepared. -/
theorem loop_array {n : Nat} {rs : List (Option (BitVec 32))} {p : Parallel} {m : Nat → BitVec 32}
    (h : p.array = some m) :
    ∃ m', (loop n rs p).2.array = some m' ∧ (loop n rs p).2.wild = p.wild ∧ (∀ i < n, m' i = m i) ∧
      (Lists m' n (begun rs) ↔ Prepared m n rs) := by
  induction rs generalizing n p m with
  | nil =>
      rw [loop, store_of_some h]
      refine ⟨_, rfl, rfl, fun i hi => Function.update_of_ne (Nat.ne_of_lt hi) .., ?_⟩
      exact iff_of_true (Function.update_self ..) True.intro
  | cons r rs ih =>
      rw [begun, Prepared]
      by_cases hr : Fails r
      · rw [loop_of_fails hr, if_pos hr, if_pos hr, List.append_nil]
        exact ⟨m, h, rfl, fun i _ => rfl, Iff.rfl⟩
      · have hstore : (p.yieldRun r).store n (runResult r) =
            { p.yieldRun r with array := some (Function.update m n (runResult r)) } := @store_of_some (p.yieldRun r) m h ..
        rw [loop_of_not_fails hr, if_neg hr, if_neg hr, h, Option.isSome_some, if_pos rfl, hstore]
        obtain ⟨m', harray, hwild, hbelow, hiff⟩ := @ih (n + 1)
          { p.yieldRun r with array := some (Function.update m n (runResult r)) } _ rfl
        have hn : m' n = runResult r := (hbelow n (Nat.lt_succ_self n)).trans (Function.update_self ..)
        refine ⟨m', harray, hwild, fun i hi => ?_, ?_⟩
        · exact (hbelow i (Nat.lt_succ_of_lt hi)).trans (Function.update_of_ne (Nat.ne_of_lt hi) ..)
        · have hlist : r.toList ++ begun rs = runResult r :: begun rs := by
            conv_lhs => rw [eq_some_of_not_fails hr]
            rfl
          have hbehind : ∀ i, n + 1 ≤ i → Function.update m n (runResult r) i = m i := fun i hi =>
            Function.update_of_ne (Nat.ne_of_gt hi) ..
          rw [hlist, Lists, hiff, prepared_congr hbehind]
          exact ⟨fun h => h.2, fun h => ⟨hn, h⟩⟩

/-! ## No array -/

/-- A null pointer is written to unless a call fails. -/
theorem loop_wild {n : Nat} {rs : List (Option (BitVec 32))} {p : Parallel} (h : p.array = none) :
    (loop n rs p).2.array = none ∧ ((loop n rs p).2.wild = p.wild ↔ ∃ r ∈ rs, Fails r) := by
  induction rs generalizing n p with
  | nil =>
      rw [loop, store_of_none h]
      refine ⟨h, iff_of_false (fun heq => ?_) ?_⟩
      · exact List.cons_ne_self _ _ heq
      · rintro ⟨r, hr, -⟩
        exact List.not_mem_nil hr
  | cons r rs ih =>
      rw [List.exists_mem_cons_iff]
      by_cases hr : Fails r
      · rw [loop_of_fails hr]
        exact ⟨h, iff_of_true rfl (Or.inl hr)⟩
      · rw [loop_of_not_fails hr, h, Option.isSome_none, if_neg Bool.false_ne_true, or_iff_right hr]
        exact @ih (n + 1) (p.yieldRun r) h

/-- **`Yield_Parallel` reports what it started** if and only if, with an array, no call fails or the array holds already
what is not written, and, without one, a call fails. -/
theorem reports_iff (rs : List (Option (BitVec 32))) (array : Option (Nat → BitVec 32)) :
    (parallel rs array).2.Reports ↔ (∀ m ∈ array, Prepared m 0 rs) ∧ (array = none → ∃ r ∈ rs, Fails r) := by
  have hstarted : (parallel rs array).2.started = begun rs := loop_started 0 rs _
  rw [Reports, hstarted]
  cases array with
  | some m =>
      obtain ⟨m', harray, hwild, -, hiff⟩ := @loop_array 0 rs ⟨some m, [], []⟩ m rfl
      rw [parallel, harray, hwild]
      simp only [Option.mem_def, Option.some.injEq, forall_eq', hiff, and_true, reduceCtorEq, false_imp_iff]
  | none =>
      obtain ⟨harray, hiff⟩ := @loop_wild 0 rs ⟨none, [], []⟩ rfl
      rw [parallel, harray, hiff]
      simp only [Option.mem_def, reduceCtorEq, false_imp_iff, implies_true, true_and, true_imp_iff]

/-- The second call fails and there is no 0 behind the first id; and a null pointer is written to. -/
theorem not_reports :
    ¬ (parallel [some 1, none] (some fun _ => 7)).2.Reports ∧ ¬ (parallel [some 1] none).2.Reports := by
  constructor
  · rintro ⟨h, -⟩
    have hend : (7 : BitVec 32) = 0 := (h _ rfl).2.2
    exact absurd hend (by decide)
  · rintro ⟨-, h⟩
    exact absurd h (by decide)

/-! ## The scheduler's `Yield_Run` -/

/-- What a caller of `Yield_Run` gets once it has a slot. -/
theorem claim_ret {s s' : System} {k : Fin coroMaxNum} {t : Ptr} (hrun : s.sched.currTask ≠ 0)
    (hs : s.claim k t = some s') :
    s'.ret s.sched.currTask = some .efatal ∨ s'.ret s.sched.currTask = some (.taskId s.sched.nextTaskId) := by
  have hlaunch : ∀ q : System, q.sched.currTask = s.sched.currTask → q.sched.nextTaskId = s.sched.nextTaskId →
      (q.launch k).ret s.sched.currTask = some (.taskId s.sched.nextTaskId) := by
    intro q hcurr hnext
    have hc : (q.sched.initializeTask (q.coroutines k) true).currTask = s.sched.currTask := by
      rw [Sched.initializeTask_currTask (hcurr ▸ hrun), hcurr]
    show Function.update _ (q.sched.initializeTask (q.coroutines k) true).currTask _ s.sched.currTask = _
    rw [hc, Function.update_self]
    show some (Ret.taskId ((q.sched.initializeTask (q.coroutines k) true).task (q.coroutines k)).id) = _
    rw [Sched.initializeTask_self, hnext]
  unfold System.claim at hs
  split at hs
  · split at hs
    · cases hs
      exact Or.inl (Function.update_self ..)
    · split at hs
      · cases hs
        exact Or.inr (hlaunch _ rfl rfl)
      · cases hs
  · cases hs
    exact Or.inr (hlaunch s rfl rfl)

/-- While there are fewer than 2^31 tasks, that is an error or a positive id. -/
theorem not_fails_of_tidy {s : System} (h : Tidy s) (hlen : s.inits.length + 1 < 2 ^ 31) :
    ¬ Fails (some s.sched.nextTaskId) ∧ runResult (some s.sched.nextTaskId) ≠ 0 := by
  have hid : (BitVec.ofNat 32 (s.inits.length + 1)).toNat = s.inits.length + 1 := by
    rw [BitVec.toNat_ofNat, Nat.mod_eq_of_lt (Nat.lt_trans hlen (by decide))]
  unfold Fails runResult
  dsimp only
  rw [h.next]
  constructor
  · rw [BitVec.toInt_eq_toNat_of_lt (by omega), hid]
    omega
  · intro h0
    rw [h0] at hid
    cases hid

end Parallel

end YieldStm32.Yield
