import YieldStm32.Net.WebSocket.Pings

/-!
# Time-outs (`WebSocket_Recv`, `UHTTPSrvWS_Recv`)

A call with a time-out, on a connection on which nothing comes in. Each wait for a header takes an interval off the time
that is left, and 0 stands for no time-out.

* `Silent`, `Idle` : such a connection, and a call that has to wait for a header;
* `waits` : the waits for headers of a run;
* `body_idle` : a pass ends the call, or takes an interval off;
* `Elapsed` : the time left after a number of waits, `elapsed_run`;
* `endsInTime_iff` : a call ends in time unless its time-out is a multiple of the interval.
-/

namespace YieldStm32

namespace WebSocket.Reception

open Transition

/-! ## Waits -/

/-- Nothing arrives, so that a header read times out, and each ping can be sent. -/
def Silent : Event → Prop
  | .other _ => True
  | .pass env arrived _ => Gone env ∧ arrived = []

/-- The call goes on, and the next that it needs is a header. -/
structure Idle (c : Call) : Prop where
  ret : c.ret = none
  header : c.ws.rxSize = c.ws.rxOffs
  incoming : c.t.incoming = []

/-- The pass gets the lock, and reads a header. -/
def Waits (c : Call) : Event → Prop
  | .other _ => False
  | .pass .. => Sem.Takes c.sem.mem c.task () ∧ c.ws.rxSize = c.ws.rxOffs

instance (c : Call) : ∀ e, Decidable (Waits c e)
  | .other _ => inferInstanceAs (Decidable False)
  | .pass .. => inferInstanceAs (Decidable (_ ∧ _))

/-- The waits for headers of a run. -/
def waits (http : Bool) (size : Nat) (c : Call) (es : List Event) : Nat :=
  (trace (step http size) (fun c e _ => if Waits c e then [()] else []) c es).length

/-- A number of intervals, not less than a time. -/
def intervals (timeout : Int) : Int := (timeout + 999) / 1000

/-- With this time-out a call on a silent connection always has time left until it returns, and returns an error after as
many waits as there are intervals; and if no other task takes the lock, it does return. -/
structure EndsInTime (http : Bool) (size : Nat) (timeout : Int) : Prop where
  bounded : ∀ c es c', Idle c → c.timeout = timeout → (∀ e ∈ es, Silent e) → run (step http size) c es = some c' →
    c'.timeout ≠ 0 ∧ waits http size c es ≤ intervals timeout ∧
      (waits http size c es = intervals timeout → ∃ ec, c'.ret = some (.error ec))
  returns : ∀ c env now, Idle c → c.timeout = timeout → Sem.Takes c.sem.mem c.task () → c.task.id < 256 → Gone env →
    ∃ n : Nat, n ≤ intervals timeout ∧ ∃ c' ec,
      run (step http size) c (List.replicate n (.pass env [] now)) = some c' ∧ c'.ret = some (.error ec)

/-! ## One pass -/

variable {http : Bool} {size : Nat} {c c' : Call}

/-- What a call is left with by a pass that pings. -/
structure Pinged (c c' : Call) : Prop where
  idle : Idle c'
  timeout : c'.timeout = if c.timeout ≠ 0 then c.timeout - 1000 else c.timeout
  sem : c'.sem = c.sem
  task : c'.task = c.task

/-- A pass ends the call when less than an interval is left, and pings otherwise. -/
theorem body_idle (http : Bool) (size : Nat) {env : Env} (henv : Gone env) (hc : Idle c) :
    if c.timeout ≠ 0 ∧ c.timeout < 1000 then
      (c.body http size env).ret = some (.error env.fail) ∧ (c.body http size env).timeout = c.timeout
    else Pinged c (c.body http size env) := by
  have hfail : ¬ (http = true ∧ env.fail = enoconnect) := fun h => henv.fail h.2
  obtain ⟨k, ws', t', hsend, hsize, hoffs, hin⟩ :=
    sendHeader_gone henv c.ws { c.t with recvs := c.t.recvs + 1 } opcodePing 0
  rw [Call.body, nextHeader, if_pos hc.header, recvHeader_gone env c.ws hc.incoming]
  dsimp only
  by_cases hshort : c.timeout ≠ 0 ∧ c.timeout < 1000
  · have hto : (if c.timeout ≠ 0 then min c.timeout 1000 else 1000) < 1000 := by
      rw [if_pos hshort.1]
      omega
    rw [if_pos hshort, if_pos (Or.inr (Or.inl hto))]
    exact ⟨rfl, rfl⟩
  · have hto : ¬ (if c.timeout ≠ 0 then min c.timeout 1000 else 1000) < 1000 := by
      split <;> omega
    have hgoesOn : ¬ ((http = true ∧ env.fail = enoconnect) ∨
        (if c.timeout ≠ 0 then min c.timeout 1000 else 1000) < 1000 ∨ 0 > c.pongCnt + 3) := by
      rintro (h | h | h)
      · exact hfail h
      · exact hto h
      · exact Nat.not_lt_zero _ h
    rw [if_neg hshort, if_neg hgoesOn, hsend]
    exact ⟨⟨hc.ret, by rw [hsize, hoffs, hc.header], by rw [hin, hc.incoming]⟩, rfl, rfl, rfl⟩

/-! ## Runs -/

/-- After `n` waits: the call goes on, and an interval has been taken off for each; or it has ended, and the last wait was
for what was left. -/
def Elapsed (timeout : Int) (n : Nat) (c : Call) : Prop :=
  (Idle c ∧ c.timeout = timeout - 1000 * n ∧ 1000 * n < timeout) ∨
    ((∃ ec, c.ret = some (.error ec)) ∧ c.timeout ≠ 0 ∧ 1000 * n - 1000 < timeout ∧ timeout < 1000 * n)

theorem Idle.lock (hc : Idle c) (now : BitVec 32) : Idle (c.lock now) := ⟨hc.ret, hc.header, hc.incoming⟩

/-- A pass of a silent connection, when the lock is free or not. -/
theorem step_silent {env : Env} {now : BitVec 32} (hc : Idle c) :
    step http size c (.pass env [] now) =
      some (if Sem.Takes c.sem.mem c.task () then (c.lock now).body http size env else c.lock now) := by
  have harrive : c.arrive [] = c := by simp [Call.arrive]
  simp only [step, hc.ret, harrive]

theorem elapsed_step {timeout : Int} (hmod : timeout % 1000 ≠ 0) {n : Nat} {e : Event} (hc : Elapsed timeout n c)
    (he : Silent e) (hs : step http size c e = some c') :
    Elapsed timeout (n + if Waits c e then 1 else 0) c' := by
  cases e with
  | other e =>
      obtain ⟨hret, sem, rfl⟩ := step_other hs
      rcases hc with ⟨hidle, htime⟩ | ⟨⟨ec, hec⟩, -⟩
      · exact Or.inl ⟨⟨hidle.ret, hidle.header, hidle.incoming⟩, htime⟩
      · rw [hec] at hret
        cases hret
  | pass env arrived now =>
      obtain ⟨henv, rfl⟩ := he
      obtain ⟨hret, -⟩ := step_pass hs
      rcases hc with ⟨hidle, htime, hlt⟩ | ⟨⟨ec, hec⟩, -⟩
      case inr =>
        rw [hec] at hret
        cases hret
      rw [step_silent hidle] at hs
      by_cases htakes : Sem.Takes c.sem.mem c.task ()
      case neg =>
        rw [if_neg htakes] at hs
        obtain rfl := Option.some.inj hs
        rw [if_neg (fun h => htakes h.1)]
        exact Or.inl ⟨hidle.lock now, htime, hlt⟩
      rw [if_pos htakes] at hs
      obtain rfl := Option.some.inj hs
      have hwaits : Waits c (.pass env [] now) := ⟨htakes, hidle.header⟩
      have hbody := body_idle http size henv (hidle.lock now)
      have hsame : (c.lock now).timeout = c.timeout := rfl
      rw [if_pos hwaits]
      by_cases hshort : (c.lock now).timeout ≠ 0 ∧ (c.lock now).timeout < 1000
      · rw [if_pos hshort] at hbody
        refine Or.inr ⟨⟨env.fail, hbody.1⟩, ?_, ?_, ?_⟩
        · rw [hbody.2]
          exact hshort.1
        · omega
        · omega
      · rw [if_neg hshort] at hbody
        have hmore : 1000 ≤ timeout - 1000 * n := by omega
        refine Or.inl ⟨hbody.idle, ?_, by omega⟩
        rw [hbody.timeout, if_pos (by omega)]
        omega

theorem elapsed_run {timeout : Int} (hmod : timeout % 1000 ≠ 0) {n : Nat} {es : List Event} (hc : Elapsed timeout n c)
    (hes : ∀ e ∈ es, Silent e) (hr : run (step http size) c es = some c') :
    Elapsed timeout (n + waits http size c es) c' := by
  induction es generalizing c n with
  | nil =>
      obtain rfl := Option.some.inj hr
      exact hc
  | cons e es ih =>
      obtain ⟨c1, hs, hr⟩ := Option.bind_eq_some_iff.1 hr
      have h1 := elapsed_step hmod hc (hes e (by simp)) hs
      have := ih h1 (fun e he => hes e (List.mem_cons_of_mem _ he)) hr
      rw [waits, trace_cons es hs, List.length_append, ← Nat.add_assoc]
      by_cases hw : Waits c e
      · simpa [hw, waits] using this
      · simpa [hw, waits] using this

theorem elapsed_enter {timeout : Int} (hpos : 0 < timeout) (hc : Idle c) (ht : c.timeout = timeout) :
    Elapsed timeout 0 c := Or.inl ⟨hc, by simp [ht], by simpa using hpos⟩

/-- A pass of a call that can have the lock pings, and it still can. -/
theorem pass_pinged {env : Env} (henv : Gone env) (now : BitVec 32) (hc : Idle c)
    (htakes : Sem.Takes c.sem.mem c.task ()) (hid : c.task.id < 256) (hmore : 1000 ≤ c.timeout) :
    ∃ c', step http size c (.pass env [] now) = some c' ∧ Idle c' ∧ c'.timeout = c.timeout - 1000 ∧
      Sem.Takes c'.sem.mem c'.task () ∧ c'.task.id < 256 := by
  have hbody := body_idle http size henv (hc.lock now)
  rw [if_neg (fun h => absurd h.2 (by show ¬ c.timeout < 1000; omega))] at hbody
  refine ⟨_, by rw [step_silent hc, if_pos htakes], hbody.idle, ?_, ?_, ?_⟩
  · rw [hbody.timeout, if_pos (by show c.timeout ≠ 0; omega)]
    rfl
  · right
    rw [hbody.sem, hbody.task]
    simp [Call.lock, Sem.lockPass, if_pos htakes, Sem.TaskId.stored, Nat.mod_eq_of_lt hid]
  · rw [hbody.task]
    exact hid

/-- As long as there are whole intervals, each pass takes one off. -/
theorem run_pinged {env : Env} (henv : Gone env) (now : BitVec 32) (n : Nat) (hc : Idle c)
    (htakes : Sem.Takes c.sem.mem c.task ()) (hid : c.task.id < 256) (hmore : 1000 * n ≤ c.timeout) :
    ∃ c', run (step http size) c (List.replicate n (.pass env [] now)) = some c' ∧ Idle c' ∧
      c'.timeout = c.timeout - 1000 * n ∧ Sem.Takes c'.sem.mem c'.task () ∧ c'.task.id < 256 := by
  induction n generalizing c with
  | zero => exact ⟨c, rfl, hc, by simp, htakes, hid⟩
  | succ n ih =>
      push_cast at hmore
      obtain ⟨c1, hs, hc1, htime1, htakes1, hid1⟩ := @pass_pinged http size _ env henv now hc htakes hid (by omega)
      obtain ⟨c', hr, hc', htime, hrest⟩ := ih hc1 htakes1 hid1 (by omega)
      refine ⟨c', (run_cons _ hs).trans hr, hc', ?_, hrest⟩
      rw [htime, htime1]
      push_cast
      omega

/-! ## The condition -/

theorem endsInTime_of_mod {timeout : Int} (hpos : 0 < timeout) (hmod : timeout % 1000 ≠ 0) :
    EndsInTime http size timeout where
  bounded c es c' hc ht hes hr := by
    have h := elapsed_run hmod (elapsed_enter hpos hc ht) hes hr
    rw [Nat.zero_add] at h
    rw [intervals]
    rcases h with ⟨-, htime, hlt⟩ | ⟨hec, hne, hlo, hhi⟩
    · exact ⟨by omega, by omega, fun heq => by omega⟩
    · exact ⟨hne, by omega, fun _ => hec⟩
  returns c env now hc ht htakes hid henv := by
    obtain ⟨n, hn⟩ := Int.eq_ofNat_of_zero_le (show 0 ≤ timeout / 1000 by omega)
    obtain ⟨c1, hr, hc1, htime, htakes1, -⟩ := @run_pinged http size _ env henv now n hc htakes hid (by omega)
    have hbody := body_idle http size henv (hc1.lock now)
    rw [if_pos (by show c1.timeout ≠ 0 ∧ c1.timeout < 1000; omega)] at hbody
    refine ⟨n + 1, by rw [intervals]; push_cast; omega, _, env.fail, ?_, hbody.1⟩
    rw [List.replicate_succ', run_append _ hr, run_cons _ (step_silent hc1), if_pos htakes1]
    rfl

/-- A multiple of the interval runs out as 0. -/
theorem not_endsInTime_of_mod {timeout : Int} (hpos : 0 < timeout) (hmod : timeout % 1000 = 0) :
    ¬ EndsInTime http size timeout := by
  intro h
  have hgone : Gone quiet := ⟨by decide, fun _ => rfl⟩
  have hidle : Idle (.enter firstTask (Sem.startWith fun _ => none) timeout opened { incoming := [] }) := ⟨rfl, rfl, rfl⟩
  obtain ⟨n, hn⟩ := Int.eq_ofNat_of_zero_le (show 0 ≤ timeout / 1000 by omega)
  have htime : (Call.enter firstTask (Sem.startWith fun _ => none) timeout opened { incoming := [] }).timeout = timeout := rfl
  have htakes : Sem.Takes (Sem.startWith fun _ : Unit => none).mem firstTask () := by decide
  have hid : firstTask.id < 256 := by decide
  obtain ⟨c1, hr, -, htime1, -⟩ := @run_pinged http size _ quiet hgone 0 n hidle htakes hid (by rw [htime]; omega)
  have hsilent : ∀ e ∈ List.replicate n (Event.pass quiet [] 0), Silent e := by
    intro e he
    rw [List.eq_of_mem_replicate he]
    exact ⟨hgone, rfl⟩
  exact (h.bounded _ _ c1 hidle rfl hsilent hr).1 (by rw [htime1, htime]; omega)

/-- Then the call goes on for ever. -/
theorem run_forever {env : Env} (henv : Gone env) (now : BitVec 32) (hc : Idle c) (hnonneg : 0 ≤ c.timeout)
    (hmod : c.timeout % 1000 = 0) (htakes : Sem.Takes c.sem.mem c.task ()) (hid : c.task.id < 256) (n : Nat) :
    ∃ c', run (step http size) c (List.replicate ((c.timeout / 1000).toNat + n) (.pass env [] now)) = some c' ∧
      c'.ret = none := by
  have hcount : ((c.timeout / 1000).toNat : Int) = c.timeout / 1000 := Int.toNat_of_nonneg (by omega)
  obtain ⟨c1, hr, hc1, htime, htakes1, hid1⟩ :=
    @run_pinged http size c env henv now (c.timeout / 1000).toNat hc htakes hid (by omega)
  have hwaiting : Waiting c1 := ⟨hc1.ret, by omega, hc1.header, hc1.incoming, htakes1, hid1⟩
  obtain ⟨c', hr', hc', -⟩ := run_gone http size henv now hwaiting n
  refine ⟨c', ?_, hc'.ret⟩
  rw [List.replicate_add, run_append _ hr, hr']

/-- **Time-outs**: a call ends in time if and only if its time-out is no multiple of the interval. -/
theorem endsInTime_iff (http : Bool) (size : Nat) {timeout : Int} (hpos : 0 < timeout) :
    EndsInTime http size timeout ↔ timeout % 1000 ≠ 0 :=
  ⟨fun h hmod => not_endsInTime_of_mod hpos hmod h, endsInTime_of_mod hpos⟩

/-- A second and a half. -/
theorem endsInTime_short : EndsInTime false 8 1500 ∧ EndsInTime true 8 1500 :=
  ⟨(endsInTime_iff false 8 (by decide)).2 (by decide), (endsInTime_iff true 8 (by decide)).2 (by decide)⟩

/-- Three seconds, for which the test waits. -/
theorem not_endsInTime_test : ¬ EndsInTime false 8 3000 ∧ ¬ EndsInTime true 8 3000 :=
  ⟨not_endsInTime_of_mod (by decide) (by decide), not_endsInTime_of_mod (by decide) (by decide)⟩

end WebSocket.Reception

end YieldStm32
