import YieldStm32.Net.Tcp.Node

/-!
# The connection state machine

`Links` ties the links to the state and is kept by every step. The rest of the state machine fails in two places, which
`Orderly` names: `TCPIPTcpSock_Close` reopens a closed socket whose local link was left open, and a listening socket is
moved by RST and FIN.

* `links_step` : the invariant;
* `stateMachine_iff` : the state machine is kept along a run exactly when every step is orderly.
-/

namespace YieldStm32.Tcp

open Counter Transition

/-- The links belong to the state. -/
structure Links (s : Sock) : Prop where
  established : s.state = .established → s.locLink = .opened ∧ s.remLink = .opened
  early : s.state = .listen ∨ s.state = .connect ∨ s.state = .establishing → s.locLink = .closed

theorem links_closed {s : Sock} (h : s.state = .closed) : Links s := by
  constructor <;> simp [h]

theorem links_closing {s : Sock} (h : s.state = .closing) : Links s := by
  constructor <;> simp [h]

theorem Links.synchronize {s : Sock} (h : Links s) (now rnd : U32) (f : Segment) : Links (s.synchronize now rnd f) := by
  by_cases hs : s.state = .listen
  · constructor <;> simp [hs, h.early]
  · constructor <;> simp [hs]

theorem Links.takeAck {s : Sock} (h : Links s) (f : Segment) : Links (s.takeAck f) := by
  have hest : Links s.establish := by
    unfold Sock.establish
    split
    · constructor <;> simp
    · exact h
  have hlast : Links s.establish.lastAck := by
    unfold Sock.lastAck
    split
    · rename_i hl
      constructor
      · dsimp only
        split
        · simp
        · intro hs
          rw [(hest.established hs).1] at hl
          cases hl
      · simp
    · exact hest
  exact ⟨by simpa [Sock.takeAck] using hlast.established, by simpa [Sock.takeAck] using hlast.early⟩

theorem Links.accept {s : Sock} (h : Links s) (now : U32) (f : Segment) : Links (s.accept now f) := by
  by_cases hf : f.flags.fin = true
  · exact links_closing (by simp [hf])
  · exact ⟨by simpa [hf] using h.established, by simpa [hf] using h.early⟩

theorem Links.processIncoming {s : Sock} (h : Links s) (now rnd : U32) (f : Segment) :
    Links (processIncoming now rnd f s).2 := by
  have ho := processIncoming_outcome now rnd f s
  generalize Tcp.processIncoming now rnd f s = out at ho
  cases ho with
  | unmatched | refused | badAck => exact h
  | reset => exact links_closed rfl
  | resetOk => exact (links_closed (s := { s with state := .closed }) rfl).accept now f
  | syn => exact (h.synchronize now rnd f).accept now f
  | synBadAck => exact h.synchronize now rnd f
  | synAck => exact ((h.synchronize now rnd f).takeAck f).accept now f
  | ack => exact (h.takeAck f).accept now f
  | plain => exact h.accept now f

theorem Links.call {s s' : Sock} (h : Links s) {e : Event} (hc : CallCase s e s') : Links s' := by
  cases hc with
  | same => exact h
  | shut => exact links_closed rfl
  | listen | connect => constructor <;> simp [Sock.renew]
  | recv => exact ⟨h.established, h.early⟩
  | send => exact ⟨h.established, h.early⟩
  | close hl hf hs =>
      rcases hs with rfl | rfl
      · exact links_closing rfl
      · exact links_closed rfl

theorem Links.frameSent {s : Sock} (h : Links s) (now : U32) (fr : Frame) : Links (s.frameSent now fr) := by
  by_cases hc : s.remLink = .closing ∧ s.locLink = .closed
  · exact links_closed (by simp [hc])
  · have hstate : (s.frameSent now fr).state = s.state := by simp [hc]
    constructor
    · rw [hstate]
      intro hs
      simp [h.established hs]
    · rw [hstate]
      simpa using h.early

/-- **Links follow the state** in every step. -/
theorem links_step {n n' : Node} {e : Event} (h : Links n.sock) (hs : step n e = some n') : Links n'.sock := by
  cases step_cases hs with
  | incoming => exact h.processIncoming _ _ _
  | quiet ho hq =>
      rcases startOutput_none hq with rfl | rfl
      · exact h
      · exact links_closed rfl
  | pick ho hp =>
      rw [(startOutput_some hp).1]
      exact h
  | build => exact ⟨by simpa using h.established, by simpa using h.early⟩
  | sent => exact h.frameSent _ _
  | noFrame | notSent => exact h
  | call hg => exact h.call (call_cases n.sock hg)

/-- The flags picked while the local link is closing carry FIN, and no others do. -/
theorem outFlags_fin {s : Sock} (h : Links s) {fl : Flags} (hf : s.outFlags = some fl) :
    fl.fin = true ↔ s.locLink = .closing := by
  unfold Sock.outFlags at hf
  cases hs : s.state with
  | free | closed | listen => simp [hs] at hf
  | connect =>
      have hl := h.early (Or.inr (Or.inl hs))
      simp only [hs, Option.some.injEq] at hf
      simp [← hf, hl]
  | establishing =>
      have hl := h.early (Or.inr (Or.inr hs))
      simp only [hs, Option.some.injEq] at hf
      simp [← hf, hl, Flags.synAck]
  | established =>
      have hl := (h.established hs).1
      simp only [hs, Option.some.injEq] at hf
      simp [← hf, hl]
  | closing =>
      simp only [hs, Option.some.injEq] at hf
      simp [← hf]

/-! ## Accepted acknowledgements -/

/-- A socket with a connection stays out of the states of a new one. -/
theorem accept_state_ne (now : U32) (f : Segment) {s : Sock} (h : s.state ≠ .listen ∧ s.state ≠ .connect) :
    (s.accept now f).state ≠ .listen ∧ (s.accept now f).state ≠ .connect := by
  rw [(accept_links now f s).1]
  split
  · simp
  · exact h

theorem takeAck_state_ne (f : Segment) {s : Sock} (h : s.state ≠ .listen ∧ s.state ≠ .connect) :
    (s.takeAck f).state ≠ .listen ∧ (s.takeAck f).state ≠ .connect := by
  rcases takeAck_state f s with h' | h' | h' <;> rw [h']
  · exact h
  · simp
  · simp

/-- An accepted acknowledgement leaves no closing link, and opens the links only where it establishes. -/
theorem takeAck_locLink (f : Segment) (s : Sock) :
    (s.takeAck f).locLink ≠ .closing ∧
      ((s.takeAck f).locLink = .opened → s.locLink = .opened ∨ s.state = .establishing ∧ s.txFlags = .synAck) := by
  simp only [Sock.takeAck, acknowledge_keeps, receive_keeps]
  unfold Sock.lastAck
  split
  · simp
  · refine ⟨‹_›, fun ho => ?_⟩
    unfold Sock.establish at ho
    split at ho
    · exact Or.inr ‹_›
    · exact Or.inl ho

theorem takeAck_closed (f : Segment) {s : Sock} (ho : s.locLink ≠ .opened)
    (he : ¬ (s.state = .establishing ∧ s.txFlags = .synAck)) : (s.takeAck f).locLink = .closed := by
  obtain ⟨hnot, hopen⟩ := takeAck_locLink f s
  cases hl : (s.takeAck f).locLink with
  | closed => rfl
  | opened => exact ((hopen hl).elim ho he).elim
  | closing => exact absurd hl hnot

theorem establishing_of_takeAck {f : Segment} {s : Sock} (h : (s.takeAck f).state = .establishing) :
    s.state = .establishing := by
  rcases takeAck_state f s with hs | hs | hs <;> rw [hs] at h
  · exact h
  · cases h
  · cases h

theorem takeAck_established (f : Segment) {s : Sock} (h : s.state = .establishing ∧ s.txFlags = .synAck) :
    (s.takeAck f).state = .established := by
  simp [Sock.takeAck, Sock.establish, Sock.lastAck, h]

/-- Synchronization is sent by a socket that connects or establishes. -/
theorem outFlags_syn {s : Sock} {fl : Flags} (hf : s.outFlags = some fl) (hsyn : fl.syn = true) :
    s.state = .establishing ∨ s.state = .connect := by
  unfold Sock.outFlags at hf
  cases hs : s.state with
  | free | closed | listen => simp [hs] at hf
  | connect => exact Or.inr rfl
  | establishing => exact Or.inl rfl
  | established | closing =>
      simp only [hs, Option.some.injEq] at hf
      simp [← hf] at hsyn

/-! ## Closed and listening sockets -/

/-- What a step must keep: a closed socket is left only by Listen and Connect, a segment moves a listening one only to
ESTABLISHING and only with SYN, and both links of an established one are open. -/
structure StateMachine (n : Node) (e : Event) (n' : Node) : Prop where
  closed : n.sock.state = .closed → n'.sock.state ≠ .closed →
    (∃ port, e = .listen port) ∨ ∃ now rnd ip port, e = .connect now rnd ip port
  listen : ∀ now rnd f, e = .incoming now rnd f → n.sock.state = .listen → n'.sock.state ≠ .listen →
    n'.sock.state = .establishing ∧ f.flags.syn = true
  established : n'.sock.state = .established → n'.sock.locLink = .opened ∧ n'.sock.remLink = .opened

/-- A segment to a listening socket resets nothing, and finalizes nothing unless rejected for its acknowledgement. -/
def Segment.Orderly (rnd : U32) (f : Segment) (s : Sock) : Prop :=
  f.flags.rst = false ∧
    if f.flags.syn then
      (f.flags.ack = true → f.ack - rnd ≤ s.txSeqEnd - rnd → f.flags.fin = false ∧ s.txFlags ≠ .synAck) ∧
        (f.flags.ack = false → f.flags.fin = false)
    else f.flags.ack = true ∨ f.flags.fin = false

/-- The step is none of those that break the state machine. -/
def Orderly (n : Node) : Event → Prop
  | .incoming _ rnd f => n.out = .idle → n.sock.state = .listen → n.sock.Matches f → f.Orderly rnd n.sock
  | .close _ expired | .closeFlush _ expired =>
    n.sock.state = .closed → n.sock.locLink = .opened → expired = true
  | _ => True

/-- The state of a listening socket after a segment that carries SYN and an acknowledgement in the window. -/
theorem synAck_state {s : Sock} (h : Links s) (hs : s.state = .listen) (now rnd : U32) (f : Segment) :
    (((s.synchronize now rnd f).takeAck f).accept now f).state =
      if f.flags.fin then .closing else if s.txFlags = .synAck then .established else .establishing := by
  have hlast : (s.synchronize now rnd f).establish.lastAck = (s.synchronize now rnd f).establish := by
    apply if_neg
    unfold Sock.establish
    split
    · simp
    · simp [hs, h.early]
  have hest : (s.synchronize now rnd f).establish.state =
      if s.txFlags = .synAck then .established else .establishing := by
    unfold Sock.establish
    by_cases htx : s.txFlags = .synAck <;> simp [hs, htx]
  rw [(accept_links now f _).1]
  simp only [Sock.takeAck, acknowledge_keeps, receive_keeps, hlast, hest]

/-- A segment moves a listening socket as it should exactly when it is orderly. -/
theorem listen_iff {s : Sock} (h : Links s) (hs : s.state = .listen) (now rnd : U32) (f : Segment) :
    ((processIncoming now rnd f s).2.state ≠ .listen →
      (processIncoming now rnd f s).2.state = .establishing ∧ f.flags.syn = true) ↔
      (s.Matches f → f.Orderly rnd s) := by
  have ho := processIncoming_outcome now rnd f s
  generalize processIncoming now rnd f s = out at ho
  cases ho with
  | unmatched hm => simp [hm, hs]
  | reset hm hr ha => simp [hm, hr, Segment.Orderly]
  | resetOk hm hr hs' ha =>
      simp only [accept_links]
      cases hfin : f.flags.fin <;> simp [hm, hr, Segment.Orderly]
  | refused hm hr hs' ht => exact absurd (Or.inl hs) ht
  | syn hm hr hs' ht ha =>
      simp only [accept_links, synchronize_sets]
      cases hfin : f.flags.fin <;> simp [hm, hr, hs', ha, hs, hfin, Segment.Orderly]
  | synBadAck hm hr hs' ht ha hw => simp [hm, hr, hs', ha, hs, hw, Segment.Orderly]
  | synAck hm hr hs' ht ha hw =>
      rw [synAck_state h hs]
      cases hfin : f.flags.fin <;> by_cases htx : s.txFlags = .synAck <;>
        simp [hm, hr, hs', ha, hw, hfin, htx, Segment.Orderly]
  | badAck hm hr hs' ha hw => simp [hs, hm, hr, hs', ha, Segment.Orderly]
  | ack hm hr hs' ha ht hw => exact absurd hs ht
  | plain hm hr hs' ha =>
      simp only [accept_links]
      cases hfin : f.flags.fin <;> simp [hm, hr, hs', ha, hs, hfin, Segment.Orderly]

/-- A closed socket takes no segment. -/
theorem processIncoming_closed {s : Sock} (h : s.state = .closed) (now rnd : U32) (f : Segment) :
    (processIncoming now rnd f s).2 = s := by
  rw [processIncoming, if_pos fun hm => hm.2.1 h]

theorem closeFlush_closed_iff {s : Sock} (hs : s.state = .closed) (now : U32) (expired : Bool) :
    (s.closeFlush now expired).state = .closed ↔ (s.locLink = .opened → expired = true) := by
  have hflush : ¬ (s.state = .established ∧ s.txq.getUsed ≠ 0) := by simp [hs]
  rw [Sock.closeFlush, if_neg hflush]
  by_cases hl : s.locLink = .opened
  · rw [if_pos hl]
    cases expired <;> simp [hl, Sock.closeWait]
  · rw [if_neg hl]
    simp [hl, hs, Sock.closeWait]

/-- A call keeps a closed socket closed unless it is Listen, Connect or a Close that is not orderly. -/
theorem call_closed_iff {n : Node} (hs : n.sock.state = .closed) {e : Event} {g : Sock → Sock} (hg : e.call = some g) :
    ((g n.sock).state ≠ .closed → (∃ port, e = .listen port) ∨ ∃ now rnd ip port, e = .connect now rnd ip port) ↔
      Orderly n e := by
  cases e <;> cases hg
  case listen port => exact iff_of_true (fun _ => Or.inl ⟨port, rfl⟩) trivial
  case connect now rnd ip port => exact iff_of_true (fun _ => Or.inr ⟨now, rnd, ip, port, rfl⟩) trivial
  case close now expired =>
    have heq : n.sock.close now expired = n.sock.closeFlush now expired := if_neg (by simp [hs])
    simpa [Orderly, hs, heq] using closeFlush_closed_iff hs now expired
  case closeFlush now expired => simpa [Orderly, hs] using closeFlush_closed_iff hs now expired
  case listenPoll expired => simp [Orderly, Sock.listenPoll, hs]
  case connectPoll expired =>
    refine iff_of_true (fun h => absurd ?_ h) trivial
    unfold Sock.connectPoll
    split
    · rfl
    · exact hs
  case recv size => simp [Orderly, Sock.recv, hs]
  case send data => simp [Orderly, Sock.send, hs]
  case closeWait expired => simp [Orderly, Sock.closeWait, hs]
  case reset => simp [Orderly, Sock.reset, hs]

/-- A step of the output task. -/
theorem stateMachine_of_closed {n n' : Node} {e : Event}
    (hest : n'.sock.state = .established → n'.sock.locLink = .opened ∧ n'.sock.remLink = .opened)
    (hc : n.sock.state = .closed → n'.sock.state = .closed) (he : ∀ now rnd f, e ≠ .incoming now rnd f) :
    StateMachine n e n' :=
  ⟨fun h h' => absurd (hc h) h', fun now rnd f h => absurd h (he now rnd f), hest⟩

/-- One step: the state machine is kept exactly when the step is orderly. -/
theorem stateMachine_step {n n' : Node} {e : Event} (h : Links n.sock) (hs : step n e = some n') :
    StateMachine n e n' ↔ Orderly n e := by
  have hest := (links_step h hs).established
  cases step_cases hs with
  | @incoming now rnd f ho =>
      have hclosed : n.sock.state = .closed → (processIncoming now rnd f n.sock).2.state = .closed := fun hc => by
        rw [processIncoming_closed hc, hc]
      constructor
      · intro hm _ hl
        exact (listen_iff h hl now rnd f).1 (hm.listen now rnd f rfl hl)
      · intro hord
        refine ⟨fun hc hc' => absurd (hclosed hc) hc', fun now' rnd' f' he hl => ?_, hest⟩
        cases he
        exact (listen_iff h hl now rnd f).2 (hord ho hl)
  | quiet ho hq =>
      refine iff_of_true (stateMachine_of_closed hest (fun hc => ?_) fun _ _ _ => nofun) trivial
      rcases startOutput_none hq with rfl | rfl
      · exact hc
      · rfl
  | pick ho hp =>
      refine iff_of_true (stateMachine_of_closed hest (fun hc => ?_) fun _ _ _ => nofun) trivial
      rw [(startOutput_some hp).1]
      exact hc
  | build => exact iff_of_true (stateMachine_of_closed hest (by simp) fun _ _ _ => nofun) trivial
  | sent => exact iff_of_true (stateMachine_of_closed hest (fun hc => by simp [hc]) fun _ _ _ => nofun) trivial
  | noFrame | notSent => exact iff_of_true (stateMachine_of_closed hest id fun _ _ _ => nofun) trivial
  | call hg =>
      have he : ∀ now rnd f, e ≠ .incoming now rnd f := by
        rintro now rnd f rfl
        cases hg
      constructor
      · intro hm
        by_cases hc : n.sock.state = .closed
        · exact (call_closed_iff hc hg).1 (hm.closed hc)
        · cases e <;> first | exact absurd rfl (he _ _ _) | simp [Orderly, hc]
      · intro ho
        exact ⟨fun hc => (call_closed_iff hc hg).2 ho, fun now rnd f h => absurd h (he now rnd f), hest⟩

/-- The socket as `TCPIPTcpSock_Create` returns it. -/
def start (rxq txq : Queue UInt8) : Node := ⟨Sock.create rxq txq, .idle⟩

/-- **The connection state machine** is kept along a run of a created socket exactly when every step is orderly. -/
theorem stateMachine_iff (rxq txq : Queue UInt8) (es : List Event) :
    Along step StateMachine (start rxq txq) es ↔ Meets step Orderly (start rxq txq) es := by
  have hstart : Links (start rxq txq).sock := links_closed rfl
  refine along_iff_meets (I := fun n => Links n.sock) ?_ ?_ hstart
  · -- a step that is not enabled is one of the output task, or a segment kept out by it
    intro n e hn hs
    cases e with
    | incoming now rnd f =>
        intro ho
        simp [step, ho] at hs
    | close | closeFlush =>
        rw [step_call n rfl] at hs
        cases hs
    | _ => trivial
  · intro n e n' hn hs
    exact ⟨stateMachine_step hn hs, fun _ => links_step hn hs⟩

/-- A reset leaves the local link of an established socket open, and `TCPIPTcpSock_Close` takes the closed socket to
CLOSING. -/
theorem close_reopens :
    ¬ ∀ (rxq txq : Queue UInt8) (es : List Event), Along step StateMachine (start rxq txq) es := by
  intro h
  have hrun := h smallQueue smallQueue ([.listen 80, .incoming 0 7 (toPort80 { syn := true }), .outStart 0,
    .outAlloc true, .outSend 0 true, .incoming 0 0 { toPort80 { ack := true } with seq := 1, ack := 8 }, .reset] ++ [.close 0 false])
  have hclose := (hrun.last rfl rfl).closed (by decide) (by decide)
  rcases hclose with ⟨port, he⟩ | ⟨now, rnd, ip, port, he⟩ <;> cases he

end YieldStm32.Tcp
