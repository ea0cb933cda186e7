import YieldStm32.Net.WebSocket.Frame
import YieldStm32.Sys.Sem

/-!
# The receive lock (`WebSocket_Recv`, `UHTTPSrvWS_Recv`)

One call of either function, pass by pass from its label `again`, among the other tasks that lock `rx_sem`. Bytes arrive
before each pass, and each has receives and sends of its own.

* `Call`, `step` : a call, with its `ping_cnt` as it should be, and one of its passes or another task's;
* `recvLoop_body` : the passes of a call are those of `recvLoop`;
* `body_cases` : all that a pass can do;
* `givesBack_iff` : when a call that returns has given the lock back.

`Sem_Lock` lets the task that has the lock take it again, so a pass that goes back to `again` need not release it.
-/

namespace YieldStm32

namespace WebSocket.Reception

open Transition

/-! ## Passes -/

/-- A call of `task`, `rx_sem` and what is under it. `pings` counts what the code does not. -/
structure Call where
  task : Sem.TaskId
  sem : Sem.State Unit
  timeout : Int
  ws : Conn
  t : Sock
  pings : Nat := 0
  pongCnt : Nat := 0
  ret : Option (Except Int (DataType × List UInt8)) := none

namespace Call

variable (http : Bool) (size : Nat) (env : Env) (c : Call)

/-- The task was told that it has the lock, and has not released it. -/
def Holds : Prop := c.sem.granted c.task () = true

instance : Decidable c.Holds := inferInstanceAs (Decidable (_ = _))

/-- `Sem_Lock(&ws->rx_sem, 0)`, until it returns or yields -/
def lock (now : BitVec 32) : Call := { c with sem := Sem.lockPass c.sem c.task () ⟨0, now⟩ now }

/-- `Sem_Release(&ws->rx_sem)` -/
def release : Call := { c with sem := Sem.releaseAll c.sem c.task [()] }

def arrive (bytes : List UInt8) : Call := { c with t := { c.t with incoming := c.t.incoming ++ bytes } }

/-- From the label `end` on. -/
def finish : Except Int (DataType × List UInt8) → Call
  | .error ec => { c with ret := some (.error ec), ws := { c.ws with isOpen := false } }
  | .ok out => { c with ret := some (.ok out) }

/-- The `switch`. -/
def dispatch : Call :=
  if c.ws.rxOpcode = opcodeText ∨ c.ws.rxOpcode = opcodeBin then
    match recvPayload env c.ws (min size c.ws.left) c.t with
    | (.error ec, t) => { c with t := t }.release.finish (.error ec)
    | (.ok out, t) =>
        { c with t := t, ws := { c.ws with rxOffs := c.ws.rxOffs + out.length } }.release.finish
          (.ok (if c.ws.rxOpcode = opcodeText then .text else .bin, out))
  else if c.ws.rxOpcode = opcodePong then
    match recvPayload env c.ws c.ws.rxSize c.t with
    | (.error ec, t) => { c with t := t, ws := { c.ws with rxSize := 0, rxOffs := 0 } }.finish (.error ec)
    | (.ok _, t) => { c with t := t, ws := { c.ws with rxSize := 0, rxOffs := 0 }, pongCnt := c.pongCnt + 1 }
  else if c.ws.rxOpcode = opcodePing ∨ c.ws.rxOpcode = opcodeClose then
    match recvPayload env c.ws (min 125 c.ws.rxSize) c.t with
    | (.error ec, t) => { c with t := t }.release.finish (.error ec)
    | (.ok pld, t) =>
        match answer env c.ws pld t with
        | (.error ec, ws, t) => { c with ws := ws, t := t }.release.finish (.error ec)
        | (.ok _, ws, t) => { c with ws := ws, t := t }.release
  else c.finish (.error efatal)

/-- A pass, once the lock is taken. -/
def body : Call :=
  match nextHeader http env c.timeout c.pongCnt c.ws c.t with
  | (.stop ec, ws, t) => { c with ws := ws, t := t }.finish (.error ec)
  | (.again, ws, t) =>
      { c with
        ws := ws
        t := t
        timeout := if c.timeout ≠ 0 then c.timeout - 1000 else c.timeout
        pings := c.pings + 1 }
  | (.ready, ws, t) => { c with ws := ws, t := t }.dispatch size env

end Call

/-- What another task does with the lock; or a pass, and the bytes that have arrived by then. -/
inductive Event where
  | other (e : Sem.Event Unit)
  | pass (env : Env) (arrived : List UInt8) (now : BitVec 32)

/-- A call goes on until it has returned; a pass that does not get the lock ends at the `Yield()` of `Sem_Lock`. -/
def step (http : Bool) (size : Nat) (c : Call) : Event → Option Call
  | .other e =>
    if c.ret = none ∧ e.task ≠ c.task then (Sem.step c.sem e).map fun sem => { c with sem := sem } else none
  | .pass env arrived now =>
    match c.ret with
    | some _ => none
    | none =>
      let c' := (c.arrive arrived).lock now
      some (if Sem.Takes c.sem.mem c.task () then c'.body http size env else c')

/-- A call that begins. -/
def Call.enter (task : Sem.TaskId) (sem : Sem.State Unit) (timeout : Int) (ws : Conn) (t : Sock) : Call :=
  { task, sem, timeout, ws, t }

/-- The passes of a call are those of the loop. -/
theorem recvLoop_body (http : Bool) (size fuel : Nat) (env : Env) {c : Call} (hret : c.ret = none) :
    recvLoop http env size (fuel + 1) c.timeout c.pongCnt c.ws c.t =
      let c' := c.body http size env
      match c'.ret with
      | some r => some (r, c'.ws, c'.t)
      | none => recvLoop http env size fuel c'.timeout c'.pongCnt c'.ws c'.t := by
  rw [recvLoop, Call.body]
  rcases nextHeader http env c.timeout c.pongCnt c.ws c.t with ⟨_ | _ | ec, ws, t⟩
  case again => simp only [hret]
  case stop => rfl
  -- the branches of the `switch`, and in each what its calls return
  simp only [Call.dispatch]
  by_cases hdata : ws.rxOpcode = opcodeText ∨ ws.rxOpcode = opcodeBin
  · simp only [if_pos hdata]
    rcases recvPayload env ws (min size ws.left) t with ⟨_ | _, t1⟩ <;> rfl
  simp only [if_neg hdata]
  by_cases hpong : ws.rxOpcode = opcodePong
  · simp only [if_pos hpong]
    rcases recvPayload env ws ws.rxSize t with ⟨_ | _, t1⟩
    · rfl
    · simp only [hret]
  simp only [if_neg hpong]
  by_cases hctl : ws.rxOpcode = opcodePing ∨ ws.rxOpcode = opcodeClose
  · simp only [if_pos hctl]
    rcases recvPayload env ws (min 125 ws.rxSize) t with ⟨_ | pld, t1⟩
    · rfl
    · dsimp only
      rcases answer env ws pld t1 with ⟨_ | _, ws1, t2⟩
      · rfl
      · simp only [Call.release, hret]
  · simp only [if_neg hctl]
    rfl

/-! ## What a pass does -/

namespace Call

variable (http : Bool) (size : Nat) (env : Env) (c : Call)

/-- A frame of an opcode there is a case for; a pong's payload has to be received. -/
def Served (ws : Conn) (t : Sock) : Prop :=
  if ws.rxOpcode = opcodePong then (recvPayload env ws ws.rxSize t).1.isOk = true
  else ws.rxOpcode ∈ [opcodeText, opcodeBin, opcodePing, opcodeClose]

/-- With what a pass comes to the `switch`, if the header it needs is received. -/
def taken : Option (Conn × Sock) :=
  if c.ws.rxSize = c.ws.rxOffs then
    match recvHeader env c.ws c.t with
    | (.ok hdr, ws, t) => some ({ ws with rxOpcode := hdr &&& hdrOpcode, rxOffs := 0 }, t)
    | (.error _, _, _) => none
  else some (c.ws, c.t)

/-- A ping goes out instead: no header is received, by a time-out that is not about to run out, and the ping is sent. -/
def Pings : Prop :=
  c.ws.rxSize = c.ws.rxOffs ∧
    match recvHeader env c.ws c.t with
    | (.ok _, _, _) => False
    | (.error ec, ws, t) =>
        ¬ (http = true ∧ ec = enoconnect) ∧ (c.timeout = 0 ∨ 1000 ≤ c.timeout) ∧
          (sendHeader env ws t opcodePing 0).1.isOk = true

/-- A header is received, of a frame that is served; or a ping goes out. -/
def Clears : Prop := (∃ ws t, c.taken env = some (ws, t) ∧ Served env ws t) ∨ c.Pings http env

variable {http size env c}

theorem not_holds_release (c : Call) : ¬ c.release.Holds := by
  simp [Holds, release, Sem.releaseAll, Sem.writeAll]

theorem holds_lock {now : BitVec 32} (ht : Sem.Takes c.sem.mem c.task ()) : (c.lock now).Holds := by
  simp [Holds, lock, Sem.lockPass, if_pos ht]

/-- The counters and the time-out after a pass without a ping. -/
structure Counted (c c' : Call) : Prop where
  pings : c'.pings = c.pings
  pongCnt : c.pongCnt ≤ c'.pongCnt
  timeout : c'.timeout = c.timeout

/-- What can become of a call in a pass. -/
inductive Passed (http : Bool) (env : Env) (c c' : Call) : Prop where
  | pinged (hpings : c.Pings http env) (hret : c'.ret = c.ret) (hping : c'.pings = c.pings + 1)
      (hpong : c'.pongCnt = c.pongCnt)
      (htimeout : c.timeout = 0 ∧ c'.timeout = 0 ∨ 1000 ≤ c.timeout ∧ c'.timeout = c.timeout - 1000)
  | returned (hnot : ¬ c.Pings http env) (hclears : c.Clears http env) (hret : c'.ret.isSome = true)
      (hholds : ¬ c'.Holds) (hcount : Counted c c')
  | dropped (hnot : ¬ c.Pings http env) (hclears : ¬ c.Clears http env) (hret : c'.ret.isSome = true)
      (hholds : c'.Holds ↔ c.Holds) (hcount : Counted c c')
  | goesOn (hnot : ¬ c.Pings http env) (hclears : c.Clears http env) (hret : c'.ret = c.ret) (hcount : Counted c c')

theorem not_pings_of_taken {ws : Conn} {t : Sock} (h : c.taken env = some (ws, t)) : ¬ c.Pings http env := by
  rintro ⟨hneed, hping⟩
  rw [taken, if_pos hneed] at h
  rcases hr : recvHeader env c.ws c.t with ⟨ec | hdr, ws1, t1⟩
  · rw [hr] at h
    cases h
  · rw [hr] at hping
    exact hping

theorem Pings.timeout (h : c.Pings http env) : c.timeout = 0 ∨ 1000 ≤ c.timeout := by
  obtain ⟨-, h⟩ := h
  rcases hr : recvHeader env c.ws c.t with ⟨ec | hdr, ws, t⟩
  · rw [hr] at h
    exact h.2.1
  · rw [hr] at h
    exact h.elim

theorem clears_iff_of_taken {ws : Conn} {t : Sock} (h : c.taken env = some (ws, t)) :
    c.Clears http env ↔ Served env ws t := by
  simp [Clears, h, not_pings_of_taken h]

theorem clears_iff_of_not_taken (h : c.taken env = none) : c.Clears http env ↔ c.Pings http env := by
  simp [Clears, h]

/-- A header, a ping in its place, or neither. -/
theorem nextHeader_cases (http : Bool) (env : Env) (c : Call) :
    (∃ ws t, nextHeader http env c.timeout c.pongCnt c.ws c.t = (.ready, ws, t) ∧ c.taken env = some (ws, t)) ∨
    (∃ ws t, nextHeader http env c.timeout c.pongCnt c.ws c.t = (.again, ws, t) ∧ c.Pings http env) ∨
    (∃ ec ws t, nextHeader http env c.timeout c.pongCnt c.ws c.t = (.stop ec, ws, t) ∧ c.taken env = none ∧
      ¬ c.Pings http env) := by
  by_cases hneed : c.ws.rxSize = c.ws.rxOffs
  case neg => exact Or.inl ⟨c.ws, c.t, by rw [nextHeader, if_neg hneed], by rw [taken, if_neg hneed]⟩
  rw [nextHeader, if_pos hneed, taken, if_pos hneed]
  simp only [Pings]
  rcases recvHeader env c.ws c.t with ⟨ec | hdr, ws, t⟩
  case ok => exact Or.inl ⟨_, _, rfl, rfl⟩
  right
  have hto : (if c.timeout ≠ 0 then min c.timeout 1000 else 1000) < 1000 ↔ ¬ (c.timeout = 0 ∨ 1000 ≤ c.timeout) := by
    split <;> omega
  by_cases hgive : (http = true ∧ ec = enoconnect) ∨ (if c.timeout ≠ 0 then min c.timeout 1000 else 1000) < 1000 ∨
      0 > c.pongCnt + 3
  · right
    refine ⟨ec, ws, t, if_pos hgive, rfl, ?_⟩
    rintro ⟨-, hhttp, hmore, -⟩
    rcases hgive with h | h | h
    · exact hhttp h
    · exact hto.1 h hmore
    · exact Nat.not_lt_zero _ h
  · simp only [if_neg hgive]
    obtain ⟨hhttp, hshort, -⟩ := not_or.1 hgive |>.imp id not_or.1
    have hmore := not_not.1 (mt hto.2 hshort)
    rcases sendHeader env ws t opcodePing 0 with ⟨ec1 | n, ws1, t1⟩
    · right
      exact ⟨ec1, ws1, t1, rfl, True.intro, fun h => Bool.false_ne_true h.2.2.2⟩
    · left
      exact ⟨ws1, t1, rfl, hneed, hhttp, hmore, rfl⟩

/-- The `switch`: every case but that of the pongs gives the lock back, and the default does nothing. -/
theorem passed_dispatch {ws : Conn} {t : Sock} (h : c.taken env = some (ws, t)) :
    Passed http env c ({ c with ws := ws, t := t }.dispatch size env) := by
  have hnot : ¬ c.Pings http env := not_pings_of_taken h
  have hclears : c.Clears http env ↔ Served env ws t := clears_iff_of_taken h
  rw [Served] at hclears
  rw [dispatch]
  dsimp only
  by_cases hdata : ws.rxOpcode = opcodeText ∨ ws.rxOpcode = opcodeBin
  · have hserved : c.Clears http env := by
      rw [hclears]
      rcases hdata with h | h <;> simp [h, opcodeText, opcodeBin, opcodePong]
    rw [if_pos hdata]
    rcases recvPayload env ws (min size ws.left) t with ⟨ec | out, t1⟩
    · exact .returned hnot hserved rfl (fun hh => not_holds_release _ hh) ⟨rfl, Nat.le_refl _, rfl⟩
    · exact .returned hnot hserved rfl (fun hh => not_holds_release _ hh) ⟨rfl, Nat.le_refl _, rfl⟩
  rw [if_neg hdata]
  by_cases hpong : ws.rxOpcode = opcodePong
  · rw [if_pos hpong] at hclears ⊢
    rcases hr : recvPayload env ws ws.rxSize t with ⟨ec | out, t1⟩
    · have hlost : ¬ c.Clears http env := by
        rw [hclears, hr]
        exact Bool.false_ne_true
      exact .dropped hnot hlost rfl Iff.rfl ⟨rfl, Nat.le_refl _, rfl⟩
    · have hserved : c.Clears http env := by
        rw [hclears, hr]
        rfl
      exact .goesOn hnot hserved rfl ⟨rfl, Nat.le_succ _, rfl⟩
  rw [if_neg hpong] at hclears ⊢
  by_cases hctl : ws.rxOpcode = opcodePing ∨ ws.rxOpcode = opcodeClose
  · have hserved : c.Clears http env := by
      rw [hclears]
      rcases hctl with h | h <;> simp [h]
    rw [if_pos hctl]
    rcases recvPayload env ws (min 125 ws.rxSize) t with ⟨ec | pld, t1⟩
    · exact .returned hnot hserved rfl (fun hh => not_holds_release _ hh) ⟨rfl, Nat.le_refl _, rfl⟩
    · dsimp only
      rcases answer env ws pld t1 with ⟨ec | n, ws1, t2⟩
      · exact .returned hnot hserved rfl (fun hh => not_holds_release _ hh) ⟨rfl, Nat.le_refl _, rfl⟩
      · exact .goesOn hnot hserved rfl ⟨rfl, Nat.le_refl _, rfl⟩
  · have hlost : ¬ c.Clears http env := by
      rw [hclears]
      simp only [List.mem_cons, List.not_mem_nil, or_false]
      rintro (h | h | h | h)
      · exact hdata (Or.inl h)
      · exact hdata (Or.inr h)
      · exact hctl (Or.inl h)
      · exact hctl (Or.inr h)
    rw [if_neg hctl]
    exact .dropped hnot hlost rfl Iff.rfl ⟨rfl, Nat.le_refl _, rfl⟩

theorem body_cases (http : Bool) (size : Nat) (env : Env) (c : Call) : Passed http env c (c.body http size env) := by
  rw [body]
  rcases nextHeader_cases http env c with ⟨ws, t, hn, ht⟩ | ⟨ws, t, hn, hp⟩ | ⟨ec, ws, t, hn, ht, hp⟩
  · rw [hn]
    exact passed_dispatch ht
  · rw [hn]
    refine .pinged hp rfl rfl rfl ?_
    dsimp only
    rcases hp.timeout with h0 | hle
    · exact Or.inl ⟨h0, by rw [if_neg (not_not.2 h0), h0]⟩
    · exact Or.inr ⟨hle, if_pos (by omega)⟩
  · rw [hn]
    exact .dropped hp (mt (clears_iff_of_not_taken ht).1 hp) rfl Iff.rfl ⟨rfl, Nat.le_refl _, rfl⟩

end Call

/-! ## Giving the lock back -/

/-- Where the call has returned, its task no longer has the lock, in every state a run comes to. -/
def GivesBack (http : Bool) (size : Nat) (c : Call) (es : List Event) : Prop :=
  Along (step http size) (fun _ _ c' => c'.ret.isSome = true → ¬ c'.Holds) c es

/-- A pass that gets the lock receives the header it needs, of a frame that is served, or sends a ping. -/
def Heeds (http : Bool) (c : Call) : Event → Prop
  | .other _ => True
  | .pass env arrived _ => c.ret = none → Sem.Takes c.sem.mem c.task () → (c.arrive arrived).Clears http env

theorem step_pass {http : Bool} {size : Nat} {c c' : Call} {env : Env} {arrived : List UInt8} {now : BitVec 32}
    (hs : step http size c (.pass env arrived now) = some c') :
    c.ret = none ∧ c' = if Sem.Takes c.sem.mem c.task () then ((c.arrive arrived).lock now).body http size env
      else (c.arrive arrived).lock now := by
  cases hret : c.ret with
  | some r =>
      simp only [step, hret] at hs
      cases hs
  | none =>
      simp only [step, hret] at hs
      exact ⟨rfl, (Option.some.inj hs).symm⟩

theorem step_other {http : Bool} {size : Nat} {c c' : Call} {e : Sem.Event Unit}
    (hs : step http size c (.other e) = some c') : c.ret = none ∧ ∃ sem, c' = { c with sem := sem } := by
  rw [step] at hs
  obtain ⟨⟨hret, -⟩, hs⟩ := Option.ite_none_right_eq_some.1 hs
  obtain ⟨sem, -, rfl⟩ := Option.map_eq_some_iff.1 hs
  exact ⟨hret, sem, rfl⟩

/-- A pass returns with the lock exactly where it neither serves a frame nor pings. -/
theorem givesBack_step {http : Bool} {size : Nat} {c c' : Call} {e : Event} (hs : step http size c e = some c') :
    (c'.ret.isSome = true → ¬ c'.Holds) ↔ Heeds http c e := by
  cases e with
  | other e =>
      obtain ⟨hret, sem, rfl⟩ := step_other hs
      simp [Heeds, hret]
  | pass env arrived now =>
      obtain ⟨hret, hc'⟩ := step_pass hs
      by_cases ht : Sem.Takes c.sem.mem c.task ()
      case neg =>
        rw [if_neg ht] at hc'
        subst hc'
        simp [Heeds, ht, Call.lock, Call.arrive, hret]
      rw [if_pos ht] at hc'
      have hheeds : Heeds http c (.pass env arrived now) ↔ ((c.arrive arrived).lock now).Clears http env :=
        ⟨fun h => h hret ht, fun h _ _ => h⟩
      have hheld : ((c.arrive arrived).lock now).Holds := Call.holds_lock (c := c.arrive arrived) ht
      have hopen : ((c.arrive arrived).lock now).ret.isSome = false := by
        simp [Call.lock, Call.arrive, hret]
      rw [hheeds, hc']
      cases Call.body_cases http size env ((c.arrive arrived).lock now) with
      | pinged hp hr _ _ _ =>
          rw [hr, hopen]
          exact ⟨fun _ => Or.inr hp, fun _ h => absurd h Bool.false_ne_true⟩
      | returned _ hcl _ hh _ => exact ⟨fun _ => hcl, fun _ _ => hh⟩
      | dropped _ hcl hr hh _ => exact ⟨fun h => absurd (hh.2 hheld) (h hr), fun h => absurd h hcl⟩
      | goesOn _ hcl hr _ =>
          rw [hr, hopen]
          exact ⟨fun _ => hcl, fun _ h => absurd h Bool.false_ne_true⟩

/-- **The lock**: a call that returns has given it back if and only if each of its passes received the header it needed, of
a frame that is served, or sent a ping. -/
theorem givesBack_iff (http : Bool) (size : Nat) (task : Sem.TaskId) (sem : Sem.State Unit) (timeout : Int) (ws : Conn)
    (t : Sock) (es : List Event) :
    GivesBack http size (Call.enter task sem timeout ws t) es ↔
      Meets (step http size) (Heeds http) (Call.enter task sem timeout ws t) es := by
  refine along_iff_meets (I := fun _ => True) (fun c e _ hnone => ?_)
    (fun c e c' _ hs => ⟨givesBack_step hs, fun _ => True.intro⟩) True.intro
  cases e with
  | other e => exact True.intro
  | pass env arrived now =>
      intro hret
      simp [step, hret] at hnone

/-- A socket on which nothing comes in, and everything can be sent. -/
def quiet : Env where
  splits _ := 0
  fail := -5
  refuse _ := none
  junk _ _ := 0
  clock _ := 0

def opened : Conn where
  isOpen := true
  rxSize := 0
  rxOffs := 0
  rxOpcode := 0
  mask _ := 0
  role := .server

def firstTask : Sem.TaskId := ⟨1, Nat.one_pos, Sem.one_lt_ids⟩

/-- A time-out of half a second: no header comes in, and either function returns with the lock. -/
theorem not_givesBack_timeOut :
    ¬ GivesBack false 8 (.enter firstTask (Sem.startWith fun _ => none) 500 opened { incoming := [] })
        [.pass quiet [] 0] ∧
      ¬ GivesBack true 8 (.enter firstTask (Sem.startWith fun _ => none) 500 opened { incoming := [] })
        [.pass quiet [] 0] :=
  ⟨fun h => (h _ rfl).1 (by decide) (by decide), fun h => (h _ rfl).1 (by decide) (by decide)⟩

end WebSocket.Reception

end YieldStm32
