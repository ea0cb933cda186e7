import YieldStm32.Net.Tcp.Receive
import YieldStm32.Net.Tcp.Transmit

/-!
# The two ends of a stream

A socket that listens and sends, and one that connects to it and receives, each among whatever its own tasks do, as far
as the other one depends on it.

* `Waiting`, `Connecting` : the two before the client is synchronized, when only SYN segments are sent;
* `RxInv.gets` : a frame of the server's that arrives at the client, now or again;
* `Sent.step`, `Live.units` : what was sent stays numbered right, and what is acknowledged was received.
-/

namespace YieldStm32.Tcp

open Counter Transition

/-- What the network makes of a frame that is sent from the address `ip`. -/
def Frame.segment (ip : Ip) (fr : Frame) : Segment :=
  ⟨ip, fr.srcPort, fr.dstPort, fr.seq, fr.ack, fr.win, fr.flags, fr.data⟩

/-- The frame that a step hands to the network. -/
def Out.sent : Out → Event → List Frame
  | .send fr, .outSend _ true => [fr]
  | _, _ => []

/-- What a step returns to the application. -/
def Sock.readBy (s : Sock) : Event → List UInt8
  | .recv size => (s.recv size).1
  | _ => []

/-- The step is one of the tasks on the same side, and no segment. -/
def Event.isOwn : Event → Bool
  | .incoming .. => false
  | _ => true

theorem Event.ne_incoming {e : Event} (he : e.isOwn = true) (now rnd : U32) (f : Segment) :
    e ≠ .incoming now rnd f := by
  rintro rfl
  cases he

/-- No new connection is set up. -/
def Sock.Stays (s : Sock) : Event → Prop
  | .listen _ | .connect .. => s.state ≠ .closed
  | _ => True

/-! ## Queues and states of one socket -/

/-- What is got was in front. -/
theorem get_append {q : Queue UInt8} (hq : q.Straight) (n : Nat) :
    (q.get n).1 ++ (q.get n).2.contents = q.contents := by
  have hlen := q.length_contents
  have htake : q.contents.take (n * q.size) = q.contents.take (min n q.getUsed * q.size) := by
    rw [List.take_eq_take_iff, hlen, Nat.mul_min_mul_right, Nat.mul_min_mul_right, Nat.min_assoc, Nat.min_self]
  unfold Queue.get
  dsimp only
  rw [Queue.peek_eq, Queue.contents_drop hq, htake, List.take_append_drop]

section Socket

variable {n n' : Node} {e : Event}

/-- An incoming segment puts its data into the receive queue, or leaves it alone. -/
theorem incoming_rxq (now rnd : U32) (f : Segment) (s : Sock) :
    (processIncoming now rnd f s).2.rxq = s.rxq ∨
      (processIncoming now rnd f s).2.rxq = (s.rxq.put f.data f.data.length).2 := by
  have hreceive : ∀ t : Sock, t.rxq = s.rxq → (t.receive f).rxq = s.rxq ∨
      (t.receive f).rxq = (s.rxq.put f.data f.data.length).2 := by
    intro t ht
    unfold Sock.receive
    split
    · exact .inr (by rw [ht])
    · exact .inl ht
  have ho := processIncoming_outcome now rnd f s
  generalize processIncoming now rnd f s = out at ho
  cases ho with
  | unmatched | refused | badAck | reset => exact .inl rfl
  | resetOk => exact .inl (by simp)
  | syn => exact .inl (by simp)
  | synBadAck => exact .inl (by simp)
  | plain => exact .inl (by simp)
  | synAck =>
      rw [(takeAck_rx now f _).2]
      exact hreceive _ (by simp)
  | ack =>
      rw [(takeAck_rx now f s).2]
      exact hreceive s rfl

/-- It drops bytes from the transmit queue, if anything. -/
theorem incoming_txq (now rnd : U32) (f : Segment) (s : Sock) :
    ∃ k, (processIncoming now rnd f s).2.txq = (s.txq.drop k).2 := by
  have ho := processIncoming_outcome now rnd f s
  generalize processIncoming now rnd f s = out at ho
  cases ho with
  | unmatched | refused | badAck | reset => exact ⟨0, s.txq.drop_zero.symm⟩
  | resetOk => exact ⟨0, by simp [Queue.drop_zero]⟩
  | syn => exact ⟨0, by simp [Queue.drop_zero]⟩
  | synBadAck => exact ⟨0, by simp [Queue.drop_zero]⟩
  | plain => exact ⟨0, by simp [Queue.drop_zero]⟩
  | synAck => exact ⟨_, by rw [(accept_keeps now f _).2.1, takeAck_txq, (synchronize_keeps now rnd f s).2.1]⟩
  | ack => exact ⟨_, by rw [(accept_keeps now f _).2.1, takeAck_txq]⟩

/-- Every step keeps the sizes of the queues. -/
theorem step_sizes (hs : step n e = some n') :
    n'.sock.rxq.size = n.sock.rxq.size ∧ n'.sock.rxq.count = n.sock.rxq.count ∧
      n'.sock.txq.count = n.sock.txq.count := by
  cases step_cases hs with
  | @incoming now rnd f ho =>
      obtain ⟨k, htx⟩ := incoming_txq now rnd f n.sock
      dsimp only
      rw [htx]
      rcases incoming_rxq now rnd f n.sock with hrx | hrx <;> rw [hrx] <;> exact ⟨rfl, rfl, rfl⟩
  | quiet ho hq => rcases startOutput_none hq with rfl | rfl <;> exact ⟨rfl, rfl, rfl⟩
  | pick ho hp =>
      obtain ⟨rfl, -⟩ := startOutput_some hp
      exact ⟨rfl, rfl, rfl⟩
  | build | sent => simp
  | noFrame | notSent => exact ⟨rfl, rfl, rfl⟩
  | @call e g hg =>
      have hcase := call_cases n.sock hg
      dsimp only
      generalize g n.sock = s' at hcase ⊢
      cases hcase <;> exact ⟨rfl, rfl, rfl⟩

/-- The bytes in the receive queue go on by those that its head moves by. -/
theorem incoming_contents (now rnd : U32) (f : Segment) {s : Sock} (hsize : s.rxq.size = 1) (hq : s.rxq.Straight) :
    (processIncoming now rnd f s).2.rxq.contents =
      s.rxq.contents ++ f.data.take ((processIncoming now rnd f s).2.rxq.head - s.rxq.head).toNat := by
  rcases incoming_rxq now rnd f s with h | h <;> rw [h]
  · rw [BitVec.sub_self]
    simp
  · rw [Queue.head_put, Queue.contents_put hq (by rw [hsize, Nat.mul_one]), hsize, Nat.mul_one]
    rfl

/-- Out of sequence, nothing is received. -/
theorem incoming_out (now rnd : U32) {f : Segment} {s : Sock} (hs : s.state ≠ .listen ∧ s.state ≠ .connect)
    (hseq : f.seq ≠ s.rxSeqRecvd) :
    (processIncoming now rnd f s).2.rxSeqRecvd = s.rxSeqRecvd ∧ (processIncoming now rnd f s).2.rxq = s.rxq ∧
      (processIncoming now rnd f s).2.state ≠ .listen ∧ (processIncoming now rnd f s).2.state ≠ .connect := by
  have ho := processIncoming_outcome now rnd f s
  generalize processIncoming now rnd f s = out at ho
  cases ho with
  | unmatched | refused | badAck => exact ⟨rfl, rfl, hs⟩
  | reset => exact ⟨rfl, rfl, by simp⟩
  | resetOk => exact ⟨by simp, by simp, accept_state_ne now f (by simp)⟩
  | syn hm hr hs' ht => exact absurd ht hs.1
  | synBadAck hm hr hs' ht => exact (ht.elim hs.1 hs.2).elim
  | synAck hm hr hs' ht => exact (ht.elim hs.1 hs.2).elim
  | plain => exact ⟨by simp, by simp, accept_state_ne now f hs⟩
  | ack =>
      obtain ⟨hr, hq⟩ := takeAck_rx now f s
      obtain ⟨hr', hq'⟩ := receive_out hseq
      exact ⟨hr.trans hr', hq.trans hq', accept_state_ne now f (takeAck_state_ne f hs)⟩

/-- The connection is over, and nothing is sent any more but what closes it. -/
def Sock.Ended (s : Sock) : Prop := s.state = .closing ∨ s.state = .closed ∨ s.state = .free

theorem Sock.Ended.ne {s : Sock} (h : s.Ended) :
    (s.state ≠ .listen ∧ s.state ≠ .connect) ∧ s.state ≠ .establishing ∧ s.state ≠ .established := by
  rcases h with h | h | h <;> rw [h] <;> decide

theorem Winds.ended {s s' : Sock} (hw : Winds s s') (h : s.Ended) : s'.Ended := by
  rcases hw.state with hs | hs | hs
  · unfold Sock.Ended
    rw [hs]
    exact h
  · exact .inl hs
  · exact .inr (.inl hs)

/-- An acknowledgement does not bring it back. -/
theorem Sock.Ended.takeAck {s : Sock} (h : s.Ended) (f : Segment) : (s.takeAck f).Ended := by
  have hest : s.establish = s := if_neg fun hc => h.ne.2.1 hc.1
  unfold Sock.Ended
  simp only [Sock.takeAck, hest, acknowledge_keeps, receive_keeps]
  unfold Sock.lastAck
  split
  · dsimp only
    split
    · exact .inr (.inl rfl)
    · exact h
  · exact h

theorem Sock.Stays.listen {s : Sock} (h : s.Stays e) (port : Port) (he : e = .listen port) : s.state ≠ .closed := by
  rw [he] at h
  exact h

theorem Sock.Stays.connect {s : Sock} (h : s.Stays e) (now rnd : U32) (ip : Ip) (port : Port)
    (he : e = .connect now rnd ip port) : s.state ≠ .closed := by
  rw [he] at h
  exact h

theorem Sock.Ended.step (h : n.sock.Ended) (hstays : n.sock.Stays e) (hs : Tcp.step n e = some n') :
    n'.sock.Ended := by
  obtain ⟨hne, hest, hopen⟩ := h.ne
  cases step_cases hs with
  | @incoming now rnd f ho =>
      rcases incoming_winds hne now rnd f with ⟨-, hw⟩ | ⟨-, -, -, heq⟩
      · exact hw.ended h
      · dsimp only
        rw [heq]
        exact (winds_accept now f _).ended (h.takeAck f)
  | quiet ho hq =>
      rcases startOutput_none hq with rfl | rfl
      · exact h
      · exact .inr (.inl rfl)
  | pick ho hp =>
      obtain ⟨rfl, -⟩ := startOutput_some hp
      exact h
  | build => simpa [Sock.Ended] using h
  | noFrame | notSent => exact h
  | @sent now fr ho => exact (winds_frameSent (fun hc => absurd hc hest) now).ended h
  | @call e g hg =>
      rcases (call_cases n.sock hg).winds hne.1 hstays.listen hstays.connect with hw | ⟨-, -, hc, -⟩
      · exact hw.ended h
      · exact absurd hc hopen

end Socket

/-! ## Before the client is synchronized -/

/-- The flags of a SYN that answers nothing. -/
structure Flags.Bare (fl : Flags) : Prop where
  syn : fl.syn = true
  ack : fl.ack = false
  fin : fl.fin = false
  rst : fl.rst = false

/-- The server only answers a SYN, if anything. -/
structure Waiting (s : TxState) : Prop where
  state : s.node.sock.state = .listen ∨ s.node.sock.state = .establishing ∨ s.node.sock.state = .closed
  locLink : s.node.sock.locLink = .closed
  flags : ∀ fl ∈ s.node.out.flags, fl.syn = true
  stream : s.stream = []
  units : s.units = 0

/-- The client only sends its SYN, if anything. -/
structure Connecting (s : RxState) : Prop where
  state : s.node.sock.state = .connect ∨ s.node.sock.state = .closed
  locLink : s.node.sock.locLink = .closed
  flags : ∀ fl ∈ s.node.out.flags, fl.Bare
  put : s.put = []
  fin : s.fin = false

section Before

variable {s s' : TxState} {c c' : RxState} {e : Event}

/-- The stream only goes on, and only while the connection is established; and the number of the SYN|ACK stays. -/
theorem txStep_stream (hs : txStep s e = some s') :
    s.stream <+: s'.stream ∧ s'.stream.length ≤ s.stream.length + e.data.length ∧
      (s.node.sock.state ≠ .established → s'.stream = s.stream) ∧ ∀ i, s.iss = some i → s'.iss = some i := by
  obtain ⟨n, hn, rfl⟩ := Option.map_eq_some_iff.1 hs
  refine ⟨List.prefix_append .., ?_, fun hst => ?_, fun i hi => by simp [hi]⟩
  · rw [List.length_append]
    exact Nat.add_le_add_left (List.length_take_le' ..) _
  · cases e with
    | send data =>
        rw [step_call s.node (e := .send data) rfl] at hn
        obtain rfl := Option.some.inj hn
        have hsend : (s.node.sock.send data).2 = s.node.sock := by rw [Sock.send, if_pos hst]
        dsimp only
        rw [hsend, BitVec.sub_self]
        simp
    | _ => simp [Event.data]

/-- Without an acknowledgement no unit is counted. -/
theorem ackedUnits_eq_zero (t : Sock) (he : ∀ now rnd f, e = .incoming now rnd f → f.flags.ack = false) :
    ackedUnits t e = 0 := by
  cases e with
  | incoming now rnd f => exact if_neg fun h => by rw [he now rnd f rfl] at h; cases h.1
  | _ => rfl

theorem Waiting.step (h : Waiting s) (hinc : ∀ now rnd f, e = .incoming now rnd f → f.flags.Bare)
    (hstays : s.node.sock.Stays e) (hs : txStep s e = some s') : Waiting s' := by
  have hnot : s.node.sock.state ≠ .established := by
    rcases h.state with hst | hst | hst <;> rw [hst] <;> decide
  obtain ⟨-, -, hstream, -⟩ := txStep_stream hs
  have hunits := ackedUnits_eq_zero s.node.sock fun now rnd f he => (hinc now rnd f he).ack
  obtain ⟨n, hn, rfl⟩ := Option.map_eq_some_iff.1 hs
  have hkeep : (n.sock.state = .listen ∨ n.sock.state = .establishing ∨ n.sock.state = .closed) →
      n.sock.locLink = .closed → (∀ fl ∈ n.out.flags, fl.syn = true) → Waiting _ := fun hst hl hf =>
    ⟨hst, hl, hf, (hstream hnot).trans h.stream, by simp [hunits, h.units]⟩
  have hidle : ∀ fl ∈ (none : Option Flags), fl.syn = true := fun fl hfl => absurd hfl (Option.not_mem_none fl)
  clear hs
  cases step_cases hn with
  | @incoming now rnd f ho =>
      have hbare := hinc now rnd f rfl
      have hflags : ∀ fl ∈ s.node.out.flags, fl.syn = true := h.flags
      have hout := processIncoming_outcome now rnd f s.node.sock
      clear hn
      dsimp only at hkeep ⊢
      generalize processIncoming now rnd f s.node.sock = out at hout hkeep ⊢
      cases hout with
      | unmatched | refused => exact hkeep h.state h.locLink hflags
      | reset hm hr => exact absurd (hbare.rst.symm.trans hr) (by decide)
      | resetOk hm hr => exact absurd (hbare.rst.symm.trans hr) (by decide)
      | syn hm hr hs ht =>
          refine hkeep ?_ ?_ hflags
          · simp [hbare.fin, ht]
          · simpa [hbare.fin, ht] using h.locLink
      | synBadAck hm hr hs ht ha => exact absurd (hbare.ack.symm.trans ha) (by decide)
      | synAck hm hr hs ht ha => exact absurd (hbare.ack.symm.trans ha) (by decide)
      | badAck hm hr hs ha => exact absurd (hbare.ack.symm.trans ha) (by decide)
      | ack hm hr hs ha => exact absurd (hbare.ack.symm.trans ha) (by decide)
      | plain hm hr hs => exact absurd (hbare.syn.symm.trans hs) (by decide)
  | quiet ho hq =>
      rcases startOutput_none hq with rfl | rfl
      · exact hkeep h.state h.locLink hidle
      · exact hkeep (.inr (.inr rfl)) h.locLink hidle
  | @pick now flags t ho hp =>
      obtain ⟨rfl, hf⟩ := startOutput_some hp
      refine hkeep h.state h.locLink fun fl hfl => ?_
      obtain rfl := Option.some.inj hfl
      unfold Sock.outFlags at hf
      rcases h.state with hst | hst | hst <;> rw [hst] at hf <;> cases hf
      rfl
  | @build flags ho =>
      refine hkeep (by simpa using h.state) (by simpa using h.locLink) fun fl hfl => ?_
      obtain rfl := Option.some.inj hfl
      rw [(buildFrame_flags flags _).2]
      exact h.flags flags (by rw [ho]; rfl)
  | noFrame | notSent => exact hkeep h.state h.locLink hidle
  | @sent now fr ho =>
      refine hkeep ?_ (by simpa using h.locLink) hidle
      rw [(frameSent_links now fr _).2]
      split
      · exact .inr (.inr rfl)
      · exact h.state
  | @call e g hg =>
      have hcase := call_cases s.node.sock hg
      clear hn
      dsimp only at hkeep ⊢
      generalize g s.node.sock = t at hcase hkeep ⊢
      cases hcase with
      | same => exact hkeep h.state h.locLink h.flags
      | shut => exact hkeep (.inr (.inr rfl)) h.locLink h.flags
      | listen => exact hkeep (.inl rfl) rfl h.flags
      | connect hst => exact absurd hst (hstays.connect _ _ _ _ rfl)
      | recv => exact hkeep h.state h.locLink h.flags
      | send hst => exact absurd hst hnot
      | close hl => exact absurd (h.locLink.symm.trans hl) (by decide)

/-- Only a segment brings bytes. -/
theorem rxStep_own (hinc : ∀ now rnd f, e ≠ .incoming now rnd f) :
    rxStep c e = (step c.node e).map fun n => ⟨n, c.put, c.fin⟩ := by
  cases e with
  | incoming now rnd f => exact absurd rfl (hinc now rnd f)
  | _ => rfl

theorem Connecting.step (h : Connecting c) (hinc : ∀ now rnd f, e ≠ .incoming now rnd f)
    (hstays : c.node.sock.Stays e) (hs : rxStep c e = some c') : Connecting c' := by
  rw [rxStep_own hinc] at hs
  obtain ⟨n, hn, rfl⟩ := Option.map_eq_some_iff.1 hs
  clear hs
  have hkeep : (n.sock.state = .connect ∨ n.sock.state = .closed) → n.sock.locLink = .closed →
      (∀ fl ∈ n.out.flags, fl.Bare) → Connecting ⟨n, c.put, c.fin⟩ := fun hst hl hf => ⟨hst, hl, hf, h.put, h.fin⟩
  have hidle : ∀ fl ∈ (none : Option Flags), fl.Bare := fun fl hfl => absurd hfl (Option.not_mem_none fl)
  cases step_cases hn with
  | incoming ho => exact absurd rfl (hinc _ _ _)
  | quiet ho hq =>
      rcases startOutput_none hq with rfl | rfl
      · exact hkeep h.state h.locLink hidle
      · exact hkeep (.inr rfl) h.locLink hidle
  | @pick now flags t ho hp =>
      obtain ⟨rfl, hf⟩ := startOutput_some hp
      refine hkeep h.state h.locLink fun fl hfl => ?_
      obtain rfl := Option.some.inj hfl
      unfold Sock.outFlags at hf
      rcases h.state with hst | hst <;> rw [hst] at hf <;> cases hf
      exact ⟨rfl, rfl, rfl, rfl⟩
  | @build flags ho =>
      have hbare := h.flags flags (by rw [ho]; rfl)
      refine hkeep (by simpa using h.state) (by simpa using h.locLink) fun fl hfl => ?_
      obtain rfl := Option.some.inj hfl
      unfold Sock.buildFrame
      dsimp only
      split
      · exact hbare
      · exact ⟨hbare.syn, hbare.ack, hbare.fin, hbare.rst⟩
  | noFrame | notSent => exact hkeep h.state h.locLink hidle
  | @sent now fr ho =>
      refine hkeep ?_ (by simpa using h.locLink) hidle
      rw [(frameSent_links now fr _).2]
      split
      · exact .inr rfl
      · exact h.state
  | @call e g hg =>
      have hcase := call_cases c.node.sock hg
      clear hn
      dsimp only at hkeep ⊢
      generalize g c.node.sock = t at hcase hkeep ⊢
      cases hcase with
      | same => exact hkeep h.state h.locLink h.flags
      | shut => exact hkeep (.inr rfl) h.locLink h.flags
      | listen hst =>
          rcases hst with hst | hst
          · exact absurd hst (hstays.listen _ rfl)
          · rcases h.state with hst' | hst' <;> exact absurd (hst.symm.trans hst') (by decide)
      | connect hst => exact absurd hst (hstays.connect _ _ _ _ rfl)
      | recv => exact hkeep h.state h.locLink h.flags
      | send hst => rcases h.state with hst' | hst' <;> exact absurd (hst.symm.trans hst') (by decide)
      | close hl => exact absurd (h.locLink.symm.trans hl) (by decide)

end Before

/-! ## The receiving end of a stream -/

section Receiving

variable {i : U32} {stream stream' : List UInt8} {s s' : RxState} {fr : Frame}

theorem RxInv.pos_le (h : RxInv i stream s) : s.pos ≤ stream.length + 1 := by
  have hle := h.put.length_le
  unfold RxState.pos
  split <;> omega

theorem adv_inj {a : U32} {m n : Nat} (hm : m < 2 ^ 32) (hn : n < 2 ^ 32) (h : adv a m = adv a n) : m = n := by
  have hdist : (adv a m - a).toNat = (adv a n - a).toNat := by rw [h]
  rwa [adv_sub_self a hm, adv_sub_self a hn] at hdist

/-- No number is used twice in a stream that is shorter than there are numbers: a frame with the number received goes on
with it. -/
theorem Numbered.fromPeer (hn : Numbered (some i) stream fr) (h : RxInv i stream s) (hsyn : fr.flags.syn = false)
    (hlen : stream.length + 2 < 2 ^ 32) (hseq : fr.seq = s.node.sock.rxSeqRecvd) (ip : Ip) :
    FromPeer i stream s.pos (fr.segment ip) := by
  have hpos := h.pos_le
  rw [h.count] at hseq
  refine ⟨hseq, ?_⟩
  have hfin : fr.flags.fin = true → s.pos + fr.data.length + 1 < 2 ^ 32 → s.pos + fr.data.length = stream.length := by
    intro hf hlt
    obtain ⟨j, hj, hend⟩ := hn.fin hf
    obtain rfl := Option.some.inj hj
    rw [hseq, adv_adv, adv_succ] at hend
    have heq := adv_inj (by omega) (by omega) hend
    omega
  obtain ⟨off, hoff, hdata⟩ := hn.slice hsyn i rfl
  rw [hseq, adv_succ] at hoff
  by_cases hd : fr.data = []
  · rw [hd] at hfin
    by_cases hle : s.pos ≤ stream.length
    · refine .inl ⟨hle, ?_, fun hf => ?_⟩
      · show fr.data <+: _
        rw [hd]
        exact List.nil_prefix
      · show s.pos + fr.data.length = _
        rw [hd]
        exact hfin hf (by rw [List.length_nil]; omega)
    · refine .inr ⟨by omega, hd, ?_⟩
      by_contra hf
      have heq := hfin (Bool.eq_true_of_not_eq_false hf) (by rw [List.length_nil]; omega)
      rw [List.length_nil] at heq
      omega
  · have hroom := hdata.length_le
    have hpos' := List.length_pos_iff.2 hd
    rw [List.length_drop] at hroom
    obtain rfl : off = s.pos := by
      have heq := adv_inj (by omega) (by omega) hoff
      omega
    exact .inl ⟨by omega, hdata, fun hf => hfin hf (by omega)⟩

/-- The stream goes on behind what is received. -/
theorem RxInv.extends (h : RxInv i stream s) (hs : stream <+: stream') (hfin : s.fin = true → stream' = stream) :
    RxInv i stream' s :=
  ⟨h.put.trans hs, fun hf => (h.fin hf).trans (hfin hf).symm, h.count, h.state⟩

/-- A frame of the server's, delivered whenever. -/
theorem RxInv.gets (h : RxInv i stream s) (hn : Numbered (some i) stream fr) (hlen : stream.length + 2 < 2 ^ 32)
    (hroom : fr.flags.fin = true → fr.seq = s.node.sock.rxSeqRecvd → fr.data.length ≤ s.node.sock.rxq.getFree)
    {now rnd : U32} {ip : Ip} (hs : rxStep s (.incoming now rnd (fr.segment ip)) = some s') :
    RxInv i stream s' := by
  by_cases hseq : fr.seq = s.node.sock.rxSeqRecvd
  · have hpeer := fun hsyn => hn.fromPeer h hsyn hlen hseq ip
    have hd : Delivered i stream s (.incoming now rnd (fr.segment ip)) := fun _ hsyn _ => ⟨s.pos, hpeer hsyn⟩
    have hfit : Fitting i stream s (.incoming now rnd (fr.segment ip)) := fun _ _ hsyn _ _ =>
      ⟨fun _ => hpeer hsyn, fun hf => hroom hf hseq⟩
    exact rxInv_step h ⟨hd, hfit⟩ hs
  · obtain ⟨n, hstep, rfl⟩ := Option.map_eq_some_iff.1 hs
    obtain ⟨hrecvd, hrxq, hstate⟩ := incoming_out now rnd (f := fr.segment ip) h.state hseq
    have hfin : takesFin now rnd (fr.segment ip) s.node.sock = false := by
      unfold takesFin
      rw [decide_eq_false (p := (fr.segment ip).seq = s.node.sock.rxSeqRecvd) hseq, Bool.and_false]
    cases step_cases hstep with
    | incoming ho =>
        dsimp only
        rw [hrxq, BitVec.sub_self, hfin, Bool.or_false, BitVec.toNat_zero, List.take_zero, List.append_nil]
        exact h.keep hrecvd hstate
    | call hg => cases hg

/-- A segment adds to what is received, and only its FIN ends it. -/
theorem rxStep_incoming {now rnd : U32} {f : Segment} (hs : rxStep s (.incoming now rnd f) = some s') :
    s'.node = ⟨(processIncoming now rnd f s.node.sock).2, .idle⟩ ∧ s.node.out = .idle ∧ s.put <+: s'.put ∧
      (s.fin = true → s'.fin = true) ∧ (s'.fin = true → s.fin = true ∨ f.flags.fin = true) := by
  obtain ⟨n, hn, rfl⟩ := Option.map_eq_some_iff.1 hs
  cases step_cases hn with
  | incoming ho =>
      refine ⟨congrArg (Node.mk _) ho, ho, List.prefix_append .., fun h => by simp [h], fun h => ?_⟩
      rcases Bool.or_eq_true_iff.1 h with h | h
      · exact .inl h
      · refine .inr ?_
        simp only [takesFin, Bool.and_eq_true] at h
        exact h.1.1.2
  | call hg => cases hg

/-- What is read and what waits in the queue is all that was put. -/
theorem rxStep_contents {e : Event} (hsize : s.node.sock.rxq.size = 1) (hcount : s.node.sock.rxq.count ∣ 2 ^ 32)
    (hl : s.node.sock.state ≠ .listen) (hstays : s.node.sock.Stays e) {xs : List UInt8}
    (h : xs ++ s.node.sock.rxq.contents = s.put) (hs : rxStep s e = some s') :
    xs ++ s.node.sock.readBy e ++ s'.node.sock.rxq.contents = s'.put := by
  by_cases hinc : ∃ now rnd f, e = .incoming now rnd f
  · obtain ⟨now, rnd, f, rfl⟩ := hinc
    obtain ⟨n, hn, rfl⟩ := Option.map_eq_some_iff.1 hs
    cases step_cases hn with
    | incoming ho =>
        dsimp only
        rw [incoming_contents now rnd f hsize (.inl hcount), ← h]
        simp [Sock.readBy]
    | call hg => cases hg
  · rw [rxStep_own fun now rnd f he => hinc ⟨now, rnd, f, he⟩] at hs
    obtain ⟨n, hn, rfl⟩ := Option.map_eq_some_iff.1 hs
    have hsame : s.node.sock.readBy e = [] → n.sock.rxq = s.node.sock.rxq →
        xs ++ s.node.sock.readBy e ++ n.sock.rxq.contents = s.put := fun hr hq => by
      rw [hr, hq, List.append_nil]
      exact h
    dsimp only
    cases step_cases hn with
    | incoming ho => exact absurd ⟨_, _, _, rfl⟩ hinc
    | quiet ho hq => rcases startOutput_none hq with rfl | rfl <;> exact hsame rfl rfl
    | pick ho hp =>
        obtain ⟨rfl, -⟩ := startOutput_some hp
        exact hsame rfl rfl
    | build | sent => exact hsame rfl (by simp)
    | noFrame | notSent => exact hsame rfl rfl
    | @call e g hg =>
        by_cases hrecv : ∃ size, e = .recv size
        · obtain ⟨size, rfl⟩ := hrecv
          cases hg
          dsimp only
          rw [← h, List.append_assoc]
          exact congrArg (xs ++ ·) (get_append (.inl hcount) size)
        · have hread : s.node.sock.readBy e = [] := by
            cases e with
            | recv size => exact absurd ⟨size, rfl⟩ hrecv
            | _ => rfl
          have hcase := call_cases s.node.sock hg
          clear hn
          dsimp only at hsame ⊢
          generalize g s.node.sock = t at hcase hsame ⊢
          cases hcase with
          | same | shut | send | close => exact hsame hread rfl
          | recv => exact absurd ⟨_, rfl⟩ hrecv
          | listen hst => exact (hst.elim (hstays.listen _ rfl) hl).elim
          | connect hst => exact absurd hst (hstays.connect _ _ _ _ rfl)

/-- A SYN of the server's has no FIN. -/
theorem Numbered.fin_of_syn (hn : Numbered (some i) stream fr) (hsyn : fr.flags.syn = true)
    (hlen : stream.length + 2 < 2 ^ 32) : fr.flags.fin = false := by
  obtain ⟨hi, hdata⟩ := hn.syn hsyn
  by_contra hf
  obtain ⟨j, hj, hend⟩ := hn.fin (Bool.eq_true_of_not_eq_false hf)
  obtain rfl := Option.some.inj hj
  obtain rfl := Option.some.inj hi
  rw [hdata, List.length_nil, adv_succ] at hend
  exact absurd (adv_inj (by omega) (by omega) hend) (by omega)

/-- A SYN of the server's synchronizes the client, or leaves it connecting. -/
theorem Connecting.gets (h : Connecting s) (hn : Numbered (some i) stream fr) (hsyn : fr.flags.syn = true)
    (hlen : stream.length + 2 < 2 ^ 32) {now rnd : U32} {ip : Ip}
    (hs : rxStep s (.incoming now rnd (fr.segment ip)) = some s') : Connecting s' ∨ RxInv i stream s' := by
  obtain ⟨hi, hdata⟩ := hn.syn hsyn
  have hfin : (fr.segment ip).flags.fin = false := hn.fin_of_syn hsyn hlen
  obtain ⟨n, hstep, rfl⟩ := Option.map_eq_some_iff.1 hs
  have htakes : takesFin now rnd (fr.segment ip) s.node.sock = false := by
    unfold takesFin
    rw [hfin, Bool.and_false, Bool.false_and, Bool.false_and]
  have hput : ∀ m, s.put ++ (fr.segment ip).data.take m = [] := fun m => by
    rw [h.put, show (fr.segment ip).data = [] from hdata, List.take_nil, List.append_nil]
  cases step_cases hstep with
  | call hg => cases hg
  | incoming ho =>
      dsimp only
      rw [hput, htakes, h.fin, Bool.or_false]
      have hout := processIncoming_outcome now rnd (fr.segment ip) s.node.sock
      clear hstep hs
      generalize processIncoming now rnd (fr.segment ip) s.node.sock = out at hout ⊢
      have hstays : Connecting ⟨⟨s.node.sock, s.node.out⟩, [], false⟩ := ⟨h.state, h.locLink, h.flags, rfl, rfl⟩
      have hseq : (fr.segment ip).seq + 1 = adv i 1 := by
        obtain rfl := Option.some.inj hi
        rfl
      cases hout with
      | unmatched | refused => exact .inl hstays
      | reset => exact .inl ⟨.inr rfl, h.locLink, h.flags, rfl, rfl⟩
      | resetOk hm hr hno => exact absurd (hsyn.symm.trans hno) (by decide)
      | badAck hm hr hno => exact absurd (hsyn.symm.trans hno) (by decide)
      | ack hm hr hno => exact absurd (hsyn.symm.trans hno) (by decide)
      | plain hm hr hno => exact absurd (hsyn.symm.trans hno) (by decide)
      | syn hm hr hs ht =>
          rcases h.state with hst | hst <;> exact absurd (ht.symm.trans hst) (by decide)
      | synBadAck hm hr hs ht =>
          refine .inr ⟨List.nil_prefix, fun hf => absurd hf Bool.false_ne_true, ?_, ?_⟩
          · simpa [RxState.pos] using hseq
          · simp only [synchronize_sets]
            split <;> decide
      | synAck hm hr hs ht =>
          have hnot : (fr.segment ip).seq ≠ (s.node.sock.synchronize now rnd (fr.segment ip)).rxSeqRecvd := by
            simp only [synchronize_sets]
            bv_omega
          refine .inr ⟨List.nil_prefix, fun hf => absurd hf Bool.false_ne_true, ?_, accept_state_ne now _ (takeAck_state_ne _ ?_)⟩
          · refine ((takeAck_rx now _ _).1.trans (receive_out hnot).1).trans ?_
            simpa [RxState.pos] using hseq
          · simp only [synchronize_sets]
            split <;> decide

end Receiving

/-! ## The sending end of it -/

section Sending

variable {q : Queue UInt8} {s s' : TxState} {e : Event} {fs : List Frame}

/-- What was sent is numbered right for good, since nothing is added to a stream behind its FIN. -/
structure Sent (fs : List Frame) (s : TxState) : Prop where
  numbered : ∀ fr ∈ fs, ∃ i, s.iss = some i ∧ Numbered (some i) s.stream fr
  ended : ∀ fr ∈ fs, fr.flags.fin = true → s.node.sock.Ended

theorem mem_sent {out : Out} {fr : Frame} (h : fr ∈ out.sent e) : out = .send fr ∧ ∃ now, e = .outSend now true := by
  unfold Out.sent at h
  split at h
  · obtain rfl := List.mem_singleton.1 h
    exact ⟨rfl, _, rfl⟩
  · cases h

theorem Numbered.extends {i : U32} {stream stream' : List UInt8} {fr : Frame} (h : Numbered (some i) stream fr)
    (hs : stream <+: stream') (hfin : fr.flags.fin = true → stream' = stream) : Numbered (some i) stream' fr := by
  refine ⟨h.syn, fun hsyn j hj => ?_, h.early, fun hf => ?_⟩
  · obtain ⟨off, hseq, hdata⟩ := h.slice hsyn j hj
    obtain ⟨rest, rfl⟩ := hs
    refine ⟨off, hseq, hdata.trans ?_⟩
    rw [List.drop_append]
    exact List.prefix_append ..
  · rw [hfin hf]
    exact h.fin hf

theorem Links.ended {s : Sock} (h : Links s) (hl : s.locLink = .closing) : s.Ended := by
  cases hs : s.state with
  | closing => exact .inl hs
  | closed => exact .inr (.inl hs)
  | free => exact .inr (.inr hs)
  | listen => exact absurd ((h.early (.inl hs)).symm.trans hl) (by decide)
  | connect => exact absurd ((h.early (.inr (.inl hs))).symm.trans hl) (by decide)
  | establishing => exact absurd ((h.early (.inr (.inr hs))).symm.trans hl) (by decide)
  | established => exact absurd ((h.established hs).1.symm.trans hl) (by decide)

theorem oneConnection_of_stays (h : s.node.sock.Stays e) : OneConnection s e := by
  cases e <;> exact h

theorem rxStep_node {s s' : RxState} (hs : rxStep s e = some s') : step s.node e = some s'.node := by
  obtain ⟨n, hn, rfl⟩ := Option.map_eq_some_iff.1 hs
  cases e <;> exact hn

/-- A frame on its way was there before, or is built with the number received. -/
theorem step_out {n n' : Node} {fr : Frame} (hs : step n e = some n') (ho : n'.out = .send fr) :
    n.out = .send fr ∨ fr.ack = n.sock.rxSeqRecvd := by
  cases step_cases hs with
  | incoming | call => exact .inl ho
  | quiet | pick | noFrame | sent | notSent => cases ho
  | build =>
      obtain rfl := Out.send.inj ho
      exact .inr rfl

theorem txStep_node (hs : txStep s e = some s') : step s.node e = some s'.node := by
  obtain ⟨n, hn, rfl⟩ := Option.map_eq_some_iff.1 hs
  exact hn

theorem Sent.step (hq : q.getUsed = 0) (hsize : q.size = 1) (h : TxInv q s) (hf : Sent fs s)
    (hstays : s.node.sock.Stays e) (hord : InOrder s e)
    (hsyn : s.iss = none → ∀ fr ∈ s.node.out.sent e, fr.flags.syn = true) (hs : txStep s e = some s') :
    TxInv q s' ∧ Sent (fs ++ s.node.out.sent e) s' := by
  have h' := txInv_step hq hsize h (oneConnection_of_stays hstays) hord hs
  obtain ⟨hstream, -, hsame, hiss⟩ := txStep_stream hs
  refine ⟨h', fun fr hfr => ?_, fun fr hfr hfin => ?_⟩
  · rcases List.mem_append.1 hfr with hfr | hfr
    · obtain ⟨i, hi, hn⟩ := hf.numbered fr hfr
      exact ⟨i, hiss i hi, hn.extends hstream fun hfin => hsame (hf.ended fr hfr hfin).ne.2.2⟩
    · obtain ⟨ho, now, rfl⟩ := mem_sent hfr
      have hn := (h.transmitted h' hs).frame now fr rfl ho
      cases hi : s.iss with
      | some i =>
          rw [hiss i hi] at hn
          exact ⟨i, hiss i hi, hn⟩
      | none =>
          have hi' := (hn.syn (hsyn hi fr hfr)).1
          rw [hi'] at hn
          exact ⟨_, hi', hn⟩
  · refine Sock.Ended.step ?_ hstays (txStep_node hs)
    rcases List.mem_append.1 hfr with hfr | hfr
    · exact hf.ended fr hfr hfin
    · obtain ⟨ho, -⟩ := mem_sent hfr
      have hmem : fr.flags ∈ s.node.out.flags := by rw [ho]; rfl
      rcases h.phase with he | ⟨i, hv⟩
      · exact absurd (he.fin fr.flags hmem) (by rw [hfin]; decide)
      · exact h.links.ended (hv.out.fin fr.flags hmem hfin)

/-- The units that are acknowledged are those that a segment says. -/
theorem Live.units {i : U32} (hv : Live i s) (hlen : s.stream.length + 2 < 2 ^ 32) {bound : Nat}
    (hbound : bound ≤ s.stream.length + 2) (hunits : s.units ≤ bound)
    (hacks : ∀ now rnd f, e = .incoming now rnd f → f.flags.ack = true → ∃ k ≤ bound, f.ack = adv i k)
    (hs : txStep s e = some s') : s'.units ≤ bound := by
  obtain ⟨n, hn, rfl⟩ := Option.map_eq_some_iff.1 hs
  have hset : (if s.iss = none then s.units else s.units + ackedUnits s.node.sock e) =
      s.units + ackedUnits s.node.sock e := if_neg (by rw [hv.iss]; exact nofun)
  dsimp only
  rw [hset]
  cases e with
  | incoming now rnd f =>
      rcases incoming_winds hv.sock.state now rnd f with ⟨hu, -⟩ | ⟨ha, hacc, hw, -⟩
      · rw [hu]
        exact hunits
      · obtain ⟨k, hk, hack⟩ := hacks now rnd f rfl ha
        have hu : ackedUnits s.node.sock (.incoming now rnd f) = (f.ack - s.node.sock.txSeqStart).toNat :=
          if_pos ⟨ha, hacc⟩
        have hend := hv.sock.ends
        have hle : (f.ack - s.node.sock.txSeqStart).toNat ≤ (s.node.sock.txSeqEnd - s.node.sock.txSeqStart).toNat := hw
        have hnum := adv_toNat_sub f.ack s.node.sock.txSeqStart
        rw [hu]
        generalize (f.ack - s.node.sock.txSeqStart).toNat = d at *
        rw [hv.sock.start, adv_adv, hack] at hnum
        have heq := adv_inj (by omega) (by omega) hnum
        omega
  | _ => exact hunits

end Sending

end YieldStm32.Tcp
