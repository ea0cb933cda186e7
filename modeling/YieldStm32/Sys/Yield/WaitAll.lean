import YieldStm32.Sys.Yield.Tasks

/-!
# Waiting for several tasks (`Yield_WaitAll`)

The calls of `Yield_Wait` are made one after the other, each with what is left of the time. Time goes on between any two
readings of the clock, so each reading is an event of its own.

* `WaitAll.step` : one reading, and what the call does up to the next one;
* `KeepsLimit` : the time a wait was given is neither 0 nor more than there was, and with the whole of it the wait is over;
* `InTime` : a wait does not begin when exactly the time is over, nor with two readings of which the second is later;
* `keepsLimit_iff` : over every run.
-/

namespace YieldStm32.Yield

open Transition

/-- What the call looks at: the clock, and whether there is a descriptor with the id, or whether its handler has returned. -/
structure Glance where
  now : BitVec 32
  seen : Bool
deriving DecidableEq

/-- A pass of the loop of `Yield_Wait`: what it returns, or nothing if it yields. -/
def Wait.pass (w : Wait) (g : Glance) : Option Ret :=
  if g.seen then some .eok else if w.Expired g.now then some .etimeout else none

/-- It is the pass of the scheduler's model. -/
theorem System.waitPass_eq (s : System) (t : Ptr) (id : BitVec 32) (w : Wait) (now : BitVec 32) :
    s.waitPass t id w now =
      (w.pass ⟨now, (s.sched.task t).handlerDone⟩).elim (s.switch (.waiting t id w)) fun r => some (s.answer r) := by
  unfold waitPass Wait.pass
  dsimp only
  split
  · rfl
  · split <;> rfl

/-- Where the call is. -/
inductive AllPc where
  /-- at the head of its loop -/
  | next
  /-- at the call of `Yield_Wait`, with the time it was given and the reading that is computed from -/
  | entering (id : BitVec 32) (timeout : Int) (read : BitVec 32)
  | polling (id : BitVec 32) (w : Wait)
  | returned (r : Ret)
deriving DecidableEq

/-- A call of `Yield_WaitAll`, with the ids it has not come to. -/
structure WaitAll where
  ids : List (BitVec 32)
  timeout : BitVec 32
  ts : BitVec 32
  pc : AllPc
deriving DecidableEq

namespace WaitAll

/-- `time_t ts = time(0)` -/
def start (ids : List (BitVec 32)) (timeout ts : BitVec 32) : WaitAll := ⟨ids, timeout, ts, .next⟩

/-- `dtime_now(ts)` -/
def elapsed (c : WaitAll) (now : BitVec 32) : Int := (now - c.ts).toInt

/-- `timeout ? timeout - dtime_now(ts): 0` -/
def remaining (c : WaitAll) (now : BitVec 32) : Int := if c.timeout = 0 then 0 else (c.timeout - (now - c.ts)).toInt

def step (c : WaitAll) (g : Glance) : Option WaitAll :=
  match c.pc with
  | .next =>
      match c.ids with
      | [] => some { c with pc := .returned .eok }
      | id :: ids => some { c with ids := ids, pc := .entering id (c.remaining g.now) g.now }
  | .entering id timeout _ => some { c with pc := if g.seen then .polling id ⟨timeout, g.now⟩ else .next }
  | .polling _ w =>
      match w.pass g with
      | none => some c
      | some .eok => some { c with pc := .next }
      | some r => some { c with pc := .returned r }
  | .returned _ => none

/-- What was given to `Yield_Wait` is not 0, nor more than `timeout`; and whatever the clock shows, a wait does not go on
when more than `timeout` has elapsed in total. -/
def KeepsLimit (c : WaitAll) : Prop :=
  match c.pc with
  | .next => True
  | .entering _ timeout _ => timeout ≠ 0 ∧ timeout ≤ c.timeout.toInt
  | .polling _ w =>
      (w.timeout ≠ 0 ∧ w.timeout ≤ c.timeout.toInt) ∧ ∀ now, c.timeout.toInt < c.elapsed now → w.Expired now
  | .returned r => r = .eok ∨ r = .etimeout

/-- The time that is left is computed when it is not exactly over, and time has not gone back (or so far that the
difference overflows); and `Yield_Wait` reads the clock before it goes on from there. -/
def InTime (c : WaitAll) (g : Glance) : Prop :=
  match c.pc with
  | .next =>
      c.ids ≠ [] → c.elapsed g.now ≠ c.timeout.toInt ∧ (0 ≤ c.elapsed g.now ∨ 2 ^ 31 ≤ c.timeout.toInt - c.elapsed g.now)
  | .entering _ _ read =>
      g.seen = true → c.timeout.toInt < 2 ^ 31 - 1 → (g.now - c.ts).toNat ≤ (read - c.ts).toNat
  | .polling .. | .returned _ => True

instance (c : WaitAll) (g : Glance) : Decidable (c.InTime g) :=
  match h : c.pc with
  | .next =>
      decidable_of_iff (c.ids ≠ [] → c.elapsed g.now ≠ c.timeout.toInt ∧
        (0 ≤ c.elapsed g.now ∨ 2 ^ 31 ≤ c.timeout.toInt - c.elapsed g.now)) (by rw [InTime, h])
  | .entering _ _ read =>
      decidable_of_iff (g.seen = true → c.timeout.toInt < 2 ^ 31 - 1 → (g.now - c.ts).toNat ≤ (read - c.ts).toNat)
        (by rw [InTime, h])
  | .polling .. | .returned _ => isTrue (by rw [InTime, h]; exact True.intro)

/-- How many readings there are at most, if no wait goes on. -/
def rank (c : WaitAll) : Nat :=
  match c.pc with
  | .next => 3 * c.ids.length + 1
  | .entering .. => 3 * c.ids.length + 3
  | .polling .. => 3 * c.ids.length + 2
  | .returned _ => 0

/-- It returns at one of these readings, and with `EOK` or `ETIMEOUT`. -/
def Returns (c : WaitAll) (gs : List Glance) : Prop :=
  ∃ gs' c' r, gs' <+: gs ∧ run step c gs' = some c' ∧ c'.pc = .returned r ∧ (r = .eok ∨ r = .etimeout)

/-! ## The time that is left -/

theorem toInt_sub_iff {T E : BitVec 32} (h : 0 < T.toInt) :
    (T - E).toInt ≠ 0 ∧ (T - E).toInt ≤ T.toInt ↔
      E.toInt ≠ T.toInt ∧ (0 ≤ E.toInt ∨ 2 ^ 31 ≤ T.toInt - E.toInt) := by
  have hT := BitVec.toInt_lt (x := T)
  have hE := BitVec.toInt_lt (x := E)
  have hE' := BitVec.le_toInt (x := E)
  rw [BitVec.toInt_sub, Int.bmod_def]
  omega

/-- A wait that began `S` after the call, with what was left `E` after it, is over in time whatever the clock shows. -/
theorem forall_lt_iff {T E S : BitVec 32} (hpos : 0 < T.toInt) (hle : (T - E).toInt ≤ T.toInt) :
    (∀ x : BitVec 32, T.toInt < (x + S).toInt → (T - E).toInt < x.toInt) ↔
      (T.toInt < 2 ^ 31 - 1 → S.toNat ≤ E.toNat) := by
  have hT := T.isLt
  have hE := E.isLt
  have hS := S.isLt
  simp only [BitVec.toInt_eq_toNat_cond, BitVec.toNat_sub, BitVec.toNat_add] at *
  constructor
  · intro h hmax
    by_contra hlt
    by_cases hnear : S.toNat ≤ T.toNat + 2 ^ 31 + 1
    · -- the time that is one more than `T` in total
      have hx := h (T + 1 - S)
      simp only [BitVec.toNat_sub, BitVec.toNat_add] at hx
      have hone : (1 : BitVec 32).toNat = 1 := rfl
      rw [hone] at hx
      omega
    · -- the time that is furthest back
      have hx := h (BitVec.ofNat 32 (2 ^ 31))
      rw [show (BitVec.ofNat 32 (2 ^ 31)).toNat = 2 ^ 31 from rfl] at hx
      omega
  · intro h x hx
    have hlt := x.isLt
    omega

section

variable {c c' : WaitAll} {g : Glance}

theorem remaining_eq (h : 0 < c.timeout.toInt) (now : BitVec 32) :
    c.remaining now = (c.timeout - (now - c.ts)).toInt := by
  rw [remaining, if_neg]
  intro h0
  rw [h0] at h
  exact absurd h (by decide)

/-- What a wait was given is what was left. -/
structure Consistent (c : WaitAll) : Prop where
  pos : 0 < c.timeout.toInt
  given : ∀ id timeout read, c.pc = .entering id timeout read → timeout = c.remaining read
  keeps : c.KeepsLimit

theorem consistent_start (ids : List (BitVec 32)) {timeout : BitVec 32} (ts : BitVec 32) (h : 0 < timeout.toInt) :
    Consistent (start ids timeout ts) := ⟨h, fun _ _ _ hpc => AllPc.noConfusion hpc, True.intro⟩

/-- The limit of a wait that is entered. -/
theorem keepsLimit_next {id : BitVec 32} {ids : List (BitVec 32)} (hpos : 0 < c.timeout.toInt) (now : BitVec 32) :
    KeepsLimit { c with ids := ids, pc := .entering id (c.remaining now) now } ↔
      c.elapsed now ≠ c.timeout.toInt ∧ (0 ≤ c.elapsed now ∨ 2 ^ 31 ≤ c.timeout.toInt - c.elapsed now) := by
  show c.remaining now ≠ 0 ∧ c.remaining now ≤ c.timeout.toInt ↔ _
  rw [remaining_eq hpos]
  exact toInt_sub_iff hpos

/-- The limit of a wait that goes on. -/
theorem keepsLimit_polling {id read now : BitVec 32} (hpos : 0 < c.timeout.toInt)
    (hlimit : c.remaining read ≠ 0 ∧ c.remaining read ≤ c.timeout.toInt) :
    KeepsLimit { c with pc := .polling id ⟨c.remaining read, now⟩ } ↔
      (c.timeout.toInt < 2 ^ 31 - 1 → (now - c.ts).toNat ≤ (read - c.ts).toNat) := by
  have hrem := remaining_eq hpos read
  rw [hrem] at hlimit
  rw [← forall_lt_iff hpos hlimit.2]
  show (c.remaining read ≠ 0 ∧ c.remaining read ≤ c.timeout.toInt) ∧
    (∀ t, c.timeout.toInt < (t - c.ts).toInt → c.remaining read ≠ 0 ∧ (t - now).toInt > c.remaining read) ↔ _
  rw [hrem]
  constructor
  · rintro ⟨-, h⟩ x hx
    have hsum : x + now - c.ts = x + (now - c.ts) := by bv_omega
    have hdiff : x + now - now = x := by bv_omega
    have hend := (h (x + now) (by rwa [hsum])).2
    rwa [hdiff] at hend
  · intro h
    refine ⟨hlimit, fun t ht => ⟨hlimit.1, h (t - now) ?_⟩⟩
    have hsum : t - now + (now - c.ts) = t - c.ts := by bv_omega
    rwa [hsum]

/-- What a reading leads to. -/
theorem step_cases (hs : c.step g = some c') :
    (c.pc = .next ∧ c.ids = [] ∧ c' = { c with pc := .returned .eok }) ∨
    (∃ id ids, c.pc = .next ∧ c.ids = id :: ids ∧
      c' = { c with ids := ids, pc := .entering id (c.remaining g.now) g.now }) ∨
    (∃ id timeout read, c.pc = .entering id timeout read ∧
      c' = { c with pc := if g.seen then .polling id ⟨timeout, g.now⟩ else .next }) ∨
    ∃ id w, c.pc = .polling id w ∧ (c' = c ∧ w.pass g = none ∨ c' = { c with pc := .next } ∨
      c' = { c with pc := .returned .etimeout }) := by
  unfold step at hs
  split at hs
  · rename_i hpc
    split at hs
    · exact .inl ⟨hpc, ‹_›, (Option.some.inj hs).symm⟩
    · exact .inr (.inl ⟨_, _, hpc, ‹_›, (Option.some.inj hs).symm⟩)
  · exact .inr (.inr (.inl ⟨_, _, _, ‹_›, (Option.some.inj hs).symm⟩))
  · rename_i id w hpc
    refine .inr (.inr (.inr ⟨id, w, hpc, ?_⟩))
    split at hs
    · exact .inl ⟨(Option.some.inj hs).symm, ‹_›⟩
    · exact .inr (.inl (Option.some.inj hs).symm)
    · rename_i r hne hpass
      have hr : r = .etimeout := by
        unfold Wait.pass at hpass
        split at hpass
        · exact absurd (Option.some.inj hpass).symm hne
        · split at hpass <;> cases hpass
          rfl
      exact .inr (.inr (by rw [← Option.some.inj hs, hr]))
  · cases hs

theorem step_timeout (hs : c.step g = some c') : c'.timeout = c.timeout ∧ c'.ts = c.ts := by
  obtain ⟨-, -, rfl⟩ | ⟨_, _, -, -, rfl⟩ | ⟨_, _, _, -, rfl⟩ | ⟨_, _, -, ⟨rfl, -⟩ | rfl | rfl⟩ := step_cases hs <;>
    exact ⟨rfl, rfl⟩

/-- **One reading**: the limit is kept if and only if it is in time. -/
theorem step_keepsLimit (h : Consistent c) (hs : c.step g = some c') : c'.KeepsLimit ↔ c.InTime g := by
  have hkeeps := h.keeps
  rw [InTime]
  rw [KeepsLimit] at hkeeps
  obtain ⟨hpc, hids, rfl⟩ | ⟨id, ids, hpc, hids, rfl⟩ | ⟨id, timeout, read, hpc, rfl⟩ |
    ⟨id, w, hpc, ⟨rfl, -⟩ | rfl | rfl⟩ := step_cases hs
  · rw [hpc, hids]
    exact iff_of_true (Or.inl rfl) fun hne => absurd rfl hne
  · rw [hpc, hids]
    exact (keepsLimit_next h.pos g.now).trans ⟨fun hin _ => hin, fun hin => hin (List.cons_ne_nil _ _)⟩
  · obtain rfl := h.given id timeout read hpc
    rw [hpc] at hkeeps
    rw [hpc]
    cases hseen : g.seen with
    | true => exact (keepsLimit_polling h.pos hkeeps).trans ⟨fun hin _ => hin, fun hin => hin rfl⟩
    | false => exact iff_of_true True.intro fun hseen => Bool.noConfusion hseen
  · rw [hpc]
    exact iff_of_true h.keeps True.intro
  · rw [hpc]
    exact iff_of_true True.intro True.intro
  · rw [hpc]
    exact iff_of_true (Or.inr rfl) True.intro

theorem step_consistent (h : Consistent c) (hs : c.step g = some c') (hin : c.InTime g) : Consistent c' := by
  have hkeeps := (step_keepsLimit h hs).2 hin
  obtain ⟨-, -, rfl⟩ | ⟨id, ids, -, -, rfl⟩ | ⟨id, timeout, read, -, rfl⟩ | ⟨id, w, -, ⟨rfl, -⟩ | rfl | rfl⟩ :=
    step_cases hs
  · exact ⟨h.pos, fun _ _ _ hpc => AllPc.noConfusion hpc, hkeeps⟩
  · refine ⟨h.pos, fun _ _ _ hpc => ?_, hkeeps⟩
    cases hpc
    rfl
  · refine ⟨h.pos, fun _ _ _ hpc => ?_, hkeeps⟩
    dsimp only at hpc
    split at hpc <;> cases hpc
  · exact h
  · exact ⟨h.pos, fun _ _ _ hpc => AllPc.noConfusion hpc, hkeeps⟩
  · exact ⟨h.pos, fun _ _ _ hpc => AllPc.noConfusion hpc, hkeeps⟩

/-! ## When the time is over -/

/-- With more than `timeout` elapsed, no wait goes on. -/
theorem rank_lt (h : Consistent c) (hover : c.timeout.toInt < c.elapsed g.now) (hs : c.step g = some c') :
    c'.rank < c.rank := by
  have hkeeps := h.keeps
  rw [KeepsLimit] at hkeeps
  unfold rank
  obtain ⟨hpc, hids, rfl⟩ | ⟨id, ids, hpc, hids, rfl⟩ | ⟨id, timeout, read, hpc, rfl⟩ |
    ⟨id, w, hpc, ⟨rfl, hpass⟩ | rfl | rfl⟩ := step_cases hs
  · rw [hpc]
    exact Nat.succ_pos _
  · rw [hpc, hids, List.length_cons]
    dsimp only
    omega
  · rw [hpc]
    cases g.seen with
    | true => exact Nat.lt_succ_self _
    | false => exact Nat.lt_add_of_pos_right (Nat.succ_pos 1)
  · rw [hpc] at hkeeps
    rw [Wait.pass, if_pos (hkeeps.2 g.now hover)] at hpass
    split at hpass <;> cases hpass
  · rw [hpc]
    exact Nat.lt_succ_self _
  · rw [hpc]
    exact Nat.succ_pos _

theorem step_isSome (hpc : ∀ r, c.pc ≠ .returned r) : ∃ c', c.step g = some c' := by
  unfold step
  split
  · split <;> exact ⟨_, rfl⟩
  · exact ⟨_, rfl⟩
  · split <;> exact ⟨_, rfl⟩
  · exact absurd ‹_› (hpc _)

/-- **The time is over**: as many readings as there are left, and the call has returned. -/
theorem returns_of_elapsed {gs : List Glance} (h : Consistent c) (hin : Meets step InTime c gs)
    (hover : ∀ g ∈ gs, c.timeout.toInt < c.elapsed g.now) (hlen : c.rank ≤ gs.length) : c.Returns gs := by
  induction gs generalizing c with
  | nil =>
      cases hpc : c.pc with
      | returned r =>
          have hkeeps := h.keeps
          rw [KeepsLimit, hpc] at hkeeps
          exact ⟨[], c, r, List.prefix_refl _, rfl, hpc, hkeeps⟩
      | _ =>
          rw [rank, hpc] at hlen
          exact absurd hlen (Nat.not_succ_le_zero _)
  | cons g gs ih =>
      by_cases hret : ∃ r, c.pc = .returned r
      · obtain ⟨r, hpc⟩ := hret
        have hkeeps := h.keeps
        rw [KeepsLimit, hpc] at hkeeps
        exact ⟨[], c, r, List.nil_prefix, rfl, hpc, hkeeps⟩
      · obtain ⟨c', hs⟩ := @step_isSome c g fun r hpc => hret ⟨r, hpc⟩
        have hc' := step_consistent h hs hin.1
        have hlt := rank_lt h (hover g List.mem_cons_self) hs
        obtain ⟨ht, hts⟩ := step_timeout hs
        have hover' : ∀ g ∈ gs, c'.timeout.toInt < c'.elapsed g.now := by
          intro g' hg'
          rw [ht, elapsed, hts]
          exact hover g' (List.mem_cons_of_mem g hg')
        rw [List.length_cons] at hlen
        obtain ⟨gs', c'', r, hpre, hrun, hpc, hr⟩ := ih hc' (hin.cons hs) hover' (by omega)
        exact ⟨g :: gs', c'', r, (List.cons_prefix_cons).2 ⟨rfl, hpre⟩, (run_cons gs' hs).trans hrun, hpc, hr⟩

end

/-- **The time limit of `Yield_WaitAll`**: in every state of a run each wait keeps the limit, and from every one the call
returns once the time is over, if and only if each wait begins in time. -/
theorem keepsLimit_iff (ids : List (BitVec 32)) (timeout ts : BitVec 32) (gs : List Glance) (h : 0 < timeout.toInt) :
    (Along step (fun _ _ c => c.KeepsLimit) (start ids timeout ts) gs ∧
        ∀ gs₁ gs₂ c, gs = gs₁ ++ gs₂ → run step (start ids timeout ts) gs₁ = some c →
          (∀ g ∈ gs₂, timeout.toInt < (g.now - ts).toInt) → c.rank ≤ gs₂.length → c.Returns gs₂) ↔
      Meets step InTime (start ids timeout ts) gs := by
  have hc := consistent_start ids ts h
  have hiff : Along step (fun _ _ c => c.KeepsLimit) (start ids timeout ts) gs ↔
      Meets step InTime (start ids timeout ts) gs := by
    refine along_iff_meets (fun c g _ hs => ?_) (fun c g c' hi hs => ?_) hc
    · -- nothing is read after the return
      cases hpc : c.pc with
      | returned r =>
          rw [InTime, hpc]
          exact True.intro
      | _ =>
          obtain ⟨c', hs'⟩ := @step_isSome c g fun r hr => by cases hpc.symm.trans hr
          rw [hs] at hs'
          cases hs'
    · exact ⟨step_keepsLimit hi hs, step_consistent hi hs⟩
  refine ⟨fun hk => hiff.1 hk.1, fun hin => ⟨hiff.2 hin, ?_⟩⟩
  rintro gs₁ gs₂ c rfl hrun hover hlen
  obtain ⟨hin₁, hin₂⟩ := (meets_append hrun).1 hin
  have hsame : c.timeout = timeout ∧ c.ts = ts := by
    refine @run_keeps _ _ step (fun c => c.timeout = timeout ∧ c.ts = ts) (fun c g c' hi hs => ?_) _ _ _ ⟨rfl, rfl⟩ hrun
    obtain ⟨ht, hts⟩ := step_timeout hs
    exact ⟨ht.trans hi.1, hts.trans hi.2⟩
  have hc' := keeps_of_meets (fun c g c' hi hg hs => step_consistent hi hs hg) hc hin₁ hrun
  refine returns_of_elapsed hc' hin₂ (fun g hg => ?_) hlen
  rw [elapsed, hsame.1, hsame.2]
  exact hover g hg

/-- Two tasks, of which the first is done after 9 ms and the second after 11. -/
def early : List Glance :=
  [⟨0, false⟩, ⟨0, true⟩, ⟨4, false⟩, ⟨9, true⟩, ⟨9, false⟩, ⟨9, true⟩, ⟨11, false⟩]

theorem keepsLimit_early :
    Along step (fun _ _ c => c.KeepsLimit) (start [5, 6] 10 0) early ∧
      ∀ gs₁ gs₂ c, early = gs₁ ++ gs₂ → run step (start [5, 6] 10 0) gs₁ = some c →
        (∀ g ∈ gs₂, (10 : BitVec 32).toInt < (g.now - 0).toInt) → c.rank ≤ gs₂.length → c.Returns gs₂ :=
  (keepsLimit_iff [5, 6] 10 0 early (by decide)).2 (by decide)

/-- The first task is done when exactly 10 ms have elapsed. -/
theorem not_keepsLimit_exact :
    ¬ Along step (fun _ _ c => c.KeepsLimit) (start [5, 6] 10 0)
      ([⟨0, false⟩, ⟨0, true⟩, ⟨10, true⟩] ++ [⟨10, false⟩]) := by
  intro h
  have hrun : run step (start [5, 6] 10 0) [⟨0, false⟩, ⟨0, true⟩, ⟨10, true⟩] = some (start [6] 10 0) := by decide
  have hstep : step (start [6] 10 0) ⟨10, false⟩ = some ⟨[], 10, 0, .entering 6 0 10⟩ := by decide
  exact (Along.last h hrun hstep).1 rfl

/-- A wait that was given 0 goes on until the task is done. -/
theorem run_zero {c : WaitAll} {id t : BitVec 32} {gs : List Glance} (hpc : c.pc = .polling id ⟨0, t⟩)
    (h : ∀ g ∈ gs, g.seen = false) : run step c gs = some c := by
  induction gs with
  | nil => rfl
  | cons g gs ih =>
      have hpass : (Wait.mk 0 t).pass g = none := by
        rw [Wait.pass, h g List.mem_cons_self, if_neg Bool.false_ne_true]
        exact if_neg fun hexp => hexp.1 rfl
      have hs : c.step g = some c := by
        unfold step
        rw [hpc]
        dsimp only
        rw [hpass]
      rw [run_cons gs hs]
      exact ih fun g hg => h g (List.mem_cons_of_mem _ hg)

end WaitAll

end YieldStm32.Yield
