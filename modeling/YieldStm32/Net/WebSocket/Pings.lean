import YieldStm32.Net.WebSocket.Locks

/-!
# Keep-alive (`WebSocket_Recv`, `UHTTPSrvWS_Recv`)

How many pings a call sends. `ping_cnt` is never counted up, so the test `ping_cnt > pong_cnt + 3` never ends a call.

* `givesUp_iff` : when the pings sent are at most four more than the pongs received;
* `givesUp_of_timeout` : a time-out that is short, and no multiple of the interval, has the same effect;
* `run_gone` : without a time-out, a call to a peer that is gone sends pings for ever.
-/

namespace YieldStm32

namespace WebSocket.Reception

open Transition

/-! ## Counting -/

/-- Pings lead by four at most, in every state a run comes to. -/
def GivesUp (http : Bool) (size : Nat) (c : Call) (es : List Event) : Prop :=
  Along (step http size) (fun _ _ c' => c'.pings ≤ c'.pongCnt + 4) c es

/-- With four pings unanswered a pass that gets the lock does not send another. -/
def Bides (http : Bool) (c : Call) : Event → Prop
  | .other _ => True
  | .pass env arrived _ =>
      c.ret = none → Sem.Takes c.sem.mem c.task () → c.pings = c.pongCnt + 4 → ¬ (c.arrive arrived).Pings http env

variable {http : Bool} {size : Nat} {c c' : Call} {e : Event}

/-- An event counts a ping, and takes its time off, or leaves both. -/
theorem counts_step (hs : step http size c e = some c') :
    (Call.Counted c c' ∧ Bides http c e) ∨
      c'.pings = c.pings + 1 ∧ c'.pongCnt = c.pongCnt ∧ (Bides http c e ↔ c.pings ≠ c.pongCnt + 4) ∧
        (c.timeout = 0 ∧ c'.timeout = 0 ∨ 1000 ≤ c.timeout ∧ c'.timeout = c.timeout - 1000) := by
  cases e with
  | other e =>
      obtain ⟨-, sem, rfl⟩ := step_other hs
      exact Or.inl ⟨⟨rfl, Nat.le_refl _, rfl⟩, True.intro⟩
  | pass env arrived now =>
      obtain ⟨hret, hc'⟩ := step_pass hs
      by_cases ht : Sem.Takes c.sem.mem c.task ()
      case neg =>
        rw [if_neg ht] at hc'
        subst hc'
        exact Or.inl ⟨⟨rfl, Nat.le_refl _, rfl⟩, fun _ h => absurd h ht⟩
      rw [if_pos ht] at hc'
      rw [hc']
      cases Call.body_cases http size env ((c.arrive arrived).lock now) with
      | pinged hp _ hping hpong htimeout =>
          exact Or.inr ⟨hping, hpong, ⟨fun h hc => h hret ht hc hp, fun h _ _ hc => absurd hc h⟩, htimeout⟩
      | returned hp _ _ _ hcount => exact Or.inl ⟨⟨hcount.pings, hcount.pongCnt, hcount.timeout⟩, fun _ _ _ => hp⟩
      | dropped hp _ _ _ hcount => exact Or.inl ⟨⟨hcount.pings, hcount.pongCnt, hcount.timeout⟩, fun _ _ _ => hp⟩
      | goesOn hp _ _ hcount => exact Or.inl ⟨⟨hcount.pings, hcount.pongCnt, hcount.timeout⟩, fun _ _ _ => hp⟩

/-- **Keep-alive**: the pings a call sends lead its pongs by four at most if and only if no pass that begins with four
unanswered needs a header, does not get it, and has the time left and the connection to send a ping. -/
theorem givesUp_iff (http : Bool) (size : Nat) (task : Sem.TaskId) (sem : Sem.State Unit) (timeout : Int) (ws : Conn)
    (t : Sock) (es : List Event) :
    GivesUp http size (Call.enter task sem timeout ws t) es ↔
      Meets (step http size) (Bides http) (Call.enter task sem timeout ws t) es := by
  refine along_iff_meets (I := fun c => c.pings ≤ c.pongCnt + 4) (fun c e _ hnone => ?_) (fun c e c' hi hs => ?_)
    (Nat.zero_le _)
  · cases e with
    | other e => exact True.intro
    | pass env arrived now =>
        intro hret
        simp [step, hret] at hnone
  · rcases counts_step hs with ⟨hcount, hb⟩ | ⟨hping, hpong, hb, -⟩
    · have hle : c'.pings ≤ c'.pongCnt + 4 := by
        rw [hcount.pings]
        exact hi.trans (Nat.add_le_add_right hcount.pongCnt 4)
      exact ⟨⟨fun _ => hb, fun _ => hle⟩, fun _ => hle⟩
    · rw [hb, hping, hpong]
      constructor <;> omega

/-! ## Time-outs that end a call -/

/-- **Time-outs**: where the time-out is less than five intervals, and no multiple of the interval, the pings sent lead the
pongs received by four at most, whatever arrives. -/
theorem givesUp_of_timeout (task : Sem.TaskId) (sem : Sem.State Unit) {timeout : Int} (ws : Conn) (t : Sock)
    (es : List Event) (hlt : timeout < 5000) (hmod : timeout % 1000 ≠ 0) :
    GivesUp http size (Call.enter task sem timeout ws t) es := by
  -- each ping takes its second off the time-out, which never comes to zero
  refine along_of_meets (G := fun _ _ => True) (I := fun c => c.timeout = timeout - 1000 * c.pings ∧ c.pings ≤ 4)
    (fun c e c' hi _ hs => ?_) ⟨by simp [Call.enter], Nat.zero_le _⟩ (Meets.of_forall (fun _ _ => True.intro) _ _)
  obtain ⟨htimeout, hle⟩ := hi
  rcases counts_step hs with ⟨hcount, -⟩ | ⟨hping, -, -, ⟨h0, -⟩ | ⟨hmore, hless⟩⟩
  · rw [hcount.timeout, hcount.pings]
    exact ⟨⟨htimeout, hle⟩, by omega⟩
  · omega
  · rw [hping, hless]
    push_cast
    omega

/-! ## A peer that is gone -/

/-- A peer that sends nothing, on a connection that takes what is sent. -/
structure Gone (env : Env) : Prop where
  fail : env.fail ≠ enoconnect
  refuse : ∀ i, env.refuse i = none

/-- A call without time-out, between two frames, that can have the lock. -/
structure Waiting (c : Call) : Prop where
  ret : c.ret = none
  timeout : c.timeout = 0
  header : c.ws.rxSize = c.ws.rxOffs
  incoming : c.t.incoming = []
  takes : Sem.Takes c.sem.mem c.task ()
  -- the id fits the semaphore, which its task would else not know for its own
  id : c.task.id < 256

theorem sendHeader_gone {env : Env} (henv : Gone env) (ws : Conn) (t : Sock) (hdr n : Nat) :
    ∃ k ws' t', sendHeader env ws t hdr n = (.ok k, ws', t') ∧ ws'.rxSize = ws.rxSize ∧ ws'.rxOffs = ws.rxOffs ∧
      t'.incoming = t.incoming := by
  cases hrole : ws.role with
  | server =>
      simp only [sendHeader, hrole, Sock.send, henv.refuse]
      exact ⟨_, _, _, rfl, rfl, rfl, rfl⟩
  | client =>
      simp only [sendHeader, hrole, Sock.send, henv.refuse]
      exact ⟨_, _, _, rfl, rfl, rfl, rfl⟩

theorem recvHeader_gone (env : Env) (ws : Conn) {t : Sock} (hin : t.incoming = []) :
    recvHeader env ws t = (.error env.fail, ws, { t with recvs := t.recvs + 1 }) := by
  simp [recvHeader, Sock.recv, hin]

/-- A pass of such a call sends a ping, and waits again. -/
theorem Waiting.pass (http : Bool) (size : Nat) {env : Env} (henv : Gone env) (hc : Waiting c) (now : BitVec 32) :
    ∃ c', step http size c (.pass env [] now) = some c' ∧ Waiting c' ∧ c'.pings = c.pings + 1 ∧
      c'.pongCnt = c.pongCnt := by
  obtain ⟨k, ws', t', hsend, hsize, hoffs, hin⟩ :=
    sendHeader_gone henv c.ws { c.t with recvs := c.t.recvs + 1 } opcodePing 0
  have hnext : nextHeader http env c.timeout c.pongCnt c.ws c.t = (.again, ws', t') := by
    rw [nextHeader, if_pos hc.header, recvHeader_gone env c.ws hc.incoming]
    dsimp only
    rw [hc.timeout, if_neg (by simp [henv.fail]), hsend]
  have harrive : c.arrive [] = c := by
    simp [Call.arrive]
  refine ⟨_, by simp only [step, hc.ret, if_pos hc.takes]; rfl, ?_⟩
  have hbody : ((c.arrive []).lock now).body http size env =
      { c.lock now with
        ws := ws'
        t := t'
        timeout := if c.timeout ≠ 0 then c.timeout - 1000 else c.timeout
        pings := c.pings + 1 } := by
    rw [harrive, Call.body]
    rw [show nextHeader http env (c.lock now).timeout (c.lock now).pongCnt (c.lock now).ws (c.lock now).t =
      (.again, ws', t') from hnext]
    rfl
  rw [hbody]
  refine ⟨⟨hc.ret, ?_, by rw [hsize, hoffs, hc.header], by rw [hin, hc.incoming], ?_, hc.id⟩, rfl, rfl⟩
  · dsimp only
    rw [hc.timeout, if_neg (by decide)]
  · right
    simp [Call.lock, Sem.lockPass, if_pos hc.takes, Sem.TaskId.stored, Nat.mod_eq_of_lt hc.id]

/-- **A peer that is gone**: a call without time-out goes on sending pings, one a pass, and never returns. -/
theorem run_gone (http : Bool) (size : Nat) {env : Env} (henv : Gone env) (now : BitVec 32) (hc : Waiting c) (n : Nat) :
    ∃ c', run (step http size) c (List.replicate n (.pass env [] now)) = some c' ∧ Waiting c' ∧
      c'.pings = c.pings + n ∧ c'.pongCnt = c.pongCnt := by
  induction n generalizing c with
  | zero => exact ⟨c, rfl, hc, rfl, rfl⟩
  | succ n ih =>
      obtain ⟨c1, hs, hc1, hpings1, hpongs1⟩ := hc.pass http size henv now
      obtain ⟨c', hr, hc', hpings, hpongs⟩ := ih hc1
      refine ⟨c', (run_cons _ hs).trans hr, hc', ?_, hpongs.trans hpongs1⟩
      rw [hpings, hpings1]
      omega

/-- So its fifth ping is one too many. -/
theorem not_givesUp_of_gone {env : Env} (henv : Gone env) (now : BitVec 32) (hc : Waiting c) (h0 : c.pongCnt ≤ c.pings) :
    ¬ GivesUp http size c (List.replicate 4 (.pass env [] now) ++ [.pass env [] now]) := by
  intro h
  obtain ⟨c4, hr, hc4, hpings4, hpongs4⟩ := run_gone http size henv now hc 4
  obtain ⟨c5, hs, -, hpings5, hpongs5⟩ := hc4.pass http size henv now
  have hle : c5.pings ≤ c5.pongCnt + 4 := h.last hr hs
  omega

/-- Nothing comes in for five intervals. -/
theorem not_givesUp_gone :
    ¬ GivesUp false 8 (.enter firstTask (Sem.startWith fun _ => none) 0 opened { incoming := [] })
        (List.replicate 4 (.pass quiet [] 0) ++ [.pass quiet [] 0]) ∧
      ¬ GivesUp true 8 (.enter firstTask (Sem.startWith fun _ => none) 0 opened { incoming := [] })
        (List.replicate 4 (.pass quiet [] 0) ++ [.pass quiet [] 0]) := by
  have hgone : Gone quiet := ⟨by decide, fun _ => rfl⟩
  have hwait : Waiting (.enter firstTask (Sem.startWith fun _ => none) 0 opened { incoming := [] }) :=
    ⟨rfl, rfl, rfl, rfl, by decide, by decide⟩
  exact ⟨not_givesUp_of_gone hgone 0 hwait (Nat.le_refl _), not_givesUp_of_gone hgone 0 hwait (Nat.le_refl _)⟩

end WebSocket.Reception

end YieldStm32
