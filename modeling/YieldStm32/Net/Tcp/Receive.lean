import YieldStm32.Net.Tcp.State

/-!
# The receive stream

A peer numbers its stream from `isn + 1` on and ends it with a FIN. Ghost state: the bytes put into the receive queue since
the connection was set up, and whether a FIN was taken in sequence.

* `Delivered` : what may happen on the connection: any of the peer's segments, in any order, and any call but a new
  Listen or Connect;
* `Fitting` : a FIN taken in sequence brings only as many bytes as the queue has room for, and a number taken in sequence
  is not one of another round of the 32-bit counter;
* `received_of_run` : along every such run the queue was given a prefix of the stream, counted by `rx_seq_recvd`.
-/

namespace YieldStm32.Tcp

open Counter Transition

/-- The socket, the bytes put into its receive queue and whether the FIN was accepted. -/
structure RxState where
  node : Node
  put : List UInt8
  fin : Bool

/-- The FIN of the segment is taken in sequence. -/
def takesFin (now rnd : U32) (f : Segment) (s : Sock) : Bool :=
  decide ((processIncoming now rnd f s).1 = .eok) && f.flags.fin && f.flags.ack && decide (f.seq = s.rxSeqRecvd)

/-- The ghost state follows the head of the receive queue. -/
def rxStep (s : RxState) (e : Event) : Option RxState :=
  (step s.node e).map fun n =>
    match e with
    | .incoming now rnd f =>
      ⟨n, s.put ++ f.data.take (n.sock.rxq.head - s.node.sock.rxq.head).toNat, s.fin || takesFin now rnd f s.node.sock⟩
    | _ => ⟨n, s.put, s.fin⟩

variable (isn : U32) (stream : List UInt8)

/-- A segment of the peer at an offset of its stream: a slice, with FIN only at the end, or what it sends after its
FIN. -/
def FromPeer (off : Nat) (f : Segment) : Prop :=
  f.seq = adv isn (1 + off) ∧
    (off ≤ stream.length ∧ f.data <+: stream.drop off ∧ (f.flags.fin = true → off + f.data.length = stream.length) ∨
      off = stream.length + 1 ∧ f.data = [] ∧ f.flags.fin = false)

instance (off : Nat) (f : Segment) : Decidable (FromPeer isn stream off f) := inferInstanceAs (Decidable (_ ∧ _))

instance (f : Segment) : Decidable (∃ off, FromPeer isn stream off f) :=
  decidable_of_iff (∃ off < stream.length + 2, FromPeer isn stream off f)
    ⟨fun ⟨off, _, h⟩ => ⟨off, h⟩, fun ⟨off, h⟩ => ⟨off, by rcases h.2 with h | h <;> omega, h⟩⟩

/-- What may happen on the connection. Synchronization and reset segments carry no part of the stream. -/
def Delivered (s : RxState) : Event → Prop
  | .incoming _ _ f =>
    s.node.sock.Matches f → f.flags.syn = false → f.flags.rst = false → ∃ off, FromPeer isn stream off f
  | .listen _ | .connect .. => s.node.sock.state ≠ .closed
  | _ => True

instance (s : RxState) : ∀ e, Decidable (Delivered isn stream s e)
  | .incoming _ _ f => inferInstanceAs (Decidable (s.node.sock.Matches f → f.flags.syn = false → _))
  | .listen _ | .connect .. => inferInstanceAs (Decidable (s.node.sock.state ≠ .closed))
  | .outStart _ | .outAlloc _ | .outSend .. | .listenPoll _ | .connectPoll _ | .recv _ | .send _ | .close ..
  | .closeFlush .. | .closeWait _ | .reset => isTrue trivial

/-- The units of the sequence space received: the bytes, and the FIN. -/
def RxState.pos (s : RxState) : Nat := s.put.length + if s.fin then 1 else 0

/-- In sequence, a segment of the peer is the one at the position received, and a FIN comes with no more bytes than there
is room. -/
def Fitting (s : RxState) : Event → Prop
  | .incoming _ rnd f => s.node.out = .idle → Accepts rnd f s.node.sock → f.flags.syn = false → f.flags.ack = true →
      f.seq = s.node.sock.rxSeqRecvd →
        ((∃ off, FromPeer isn stream off f) → FromPeer isn stream s.pos f) ∧
          (f.flags.fin = true → f.data.length ≤ s.node.sock.rxq.getFree)
  | _ => True

instance (s : RxState) : ∀ e, Decidable (Fitting isn stream s e)
  | .incoming _ rnd f => inferInstanceAs (Decidable (s.node.out = .idle → Accepts rnd f s.node.sock → _))
  | .outStart _ | .outAlloc _ | .outSend .. | .listen _ | .listenPoll _ | .connect .. | .connectPoll _ | .recv _
  | .send _ | .close .. | .closeFlush .. | .closeWait _ | .reset => isTrue trivial

/-- The bytes put are a prefix of the stream, and `rx_seq_recvd` counts them, plus one exactly when the whole stream was
put and its FIN accepted. -/
structure Received (s : RxState) : Prop where
  put : s.put <+: stream
  count : s.node.sock.rxSeqRecvd = adv isn (1 + s.put.length + if s.put = stream ∧ s.fin = true then 1 else 0)

/-- The invariant: the FIN is only accepted after the whole stream, and no new connection is being set up. -/
structure RxInv (s : RxState) : Prop where
  put : s.put <+: stream
  fin : s.fin = true → s.put = stream
  count : s.node.sock.rxSeqRecvd = adv isn (1 + s.pos)
  state : s.node.sock.state ≠ .listen ∧ s.node.sock.state ≠ .connect

variable {isn stream} {s : RxState}

theorem RxInv.received (h : RxInv isn stream s) : Received isn stream s := by
  refine ⟨h.put, ?_⟩
  rw [h.count, RxState.pos, ← Nat.add_assoc]
  by_cases hf : s.fin = true
  · simp [hf, h.fin hf]
  · simp [hf]

/-- A socket with the same numbers, not in a state of a new connection. -/
theorem RxInv.keep (h : RxInv isn stream s) {n : Node} (hr : n.sock.rxSeqRecvd = s.node.sock.rxSeqRecvd)
    (hs : n.sock.state ≠ .listen ∧ n.sock.state ≠ .connect) : RxInv isn stream ⟨n, s.put, s.fin⟩ :=
  ⟨h.put, h.fin, hr.trans h.count, hs⟩

/-- A segment in sequence: what is stored continues the prefix. -/
theorem put_append {off : Nat} {f : Segment} (hp : s.put <+: stream) (hoff : off = s.put.length)
    (hd : f.data <+: stream.drop off) (n : Nat) : s.put ++ f.data.take n <+: stream := by
  obtain ⟨rest, rfl⟩ := hp
  rw [hoff, List.drop_left] at hd
  exact (List.prefix_append_right_inj _).2 ((List.take_prefix ..).trans hd)

/-- Taking the peer's segment at the position received. -/
theorem RxInv.extend (h : RxInv isn stream s) {n : Node} {f : Segment} (hp : FromPeer isn stream s.pos f)
    (hfit : f.flags.fin = true → f.data.length ≤ s.node.sock.rxq.getFree)
    (hn : n.sock.state ≠ .listen ∧ n.sock.state ≠ .connect)
    (hr : n.sock.rxSeqRecvd = adv s.node.sock.rxSeqRecvd
      ((if f.flags.fin then 1 else 0) + (s.node.sock.rxq.put f.data f.data.length).1)) :
    RxInv isn stream
      ⟨n, s.put ++ f.data.take (s.node.sock.rxq.put f.data f.data.length).1, s.fin || f.flags.fin⟩ := by
  have hstored : (s.node.sock.rxq.put f.data f.data.length).1 = min f.data.length s.node.sock.rxq.getFree := rfl
  rw [hstored] at hr ⊢
  rw [h.count, adv_adv] at hr
  obtain ⟨hseq, ⟨hle, hd, hfin⟩ | ⟨hoff, hd, hnfin⟩⟩ := hp
  · -- the FIN was not accepted before, since the offset is inside the stream
    have hnot : s.fin = false := by
      by_contra hf
      have hf := Bool.eq_true_of_not_eq_false hf
      rw [RxState.pos, if_pos hf, h.fin hf] at hle
      omega
    have hpos : s.pos = s.put.length := by simp [RxState.pos, hnot]
    have hput := put_append h.put hpos hd (min f.data.length s.node.sock.rxq.getFree)
    cases hff : f.flags.fin with
    | false =>
        refine ⟨hput, by simp [hnot], ?_, hn⟩
        rw [hr, hpos]
        simp [RxState.pos, hnot, hff, Nat.add_assoc]
    | true =>
        have hmin : min f.data.length s.node.sock.rxq.getFree = f.data.length := Nat.min_eq_left (hfit hff)
        have hend := hfin hff
        rw [hpos] at hend
        rw [hmin] at hput hr ⊢
        have hall : s.put ++ f.data.take f.data.length = stream :=
          hput.eq_of_length (by rw [List.length_append, List.take_length]; exact hend)
        refine ⟨hput, fun _ => hall, ?_, hn⟩
        rw [hr, hpos]
        simp only [RxState.pos, hff, Bool.or_true, if_true, List.length_append, List.take_length]
        congr 1
        omega
  · rw [hd]
    refine ⟨by simpa using h.put, by simpa [hnfin] using h.fin, ?_, hn⟩
    rw [hr]
    simp [RxState.pos, hnfin, hd]

/-- The segment that is taken: the accepted acknowledgement. -/
theorem rxInv_ack (h : RxInv isn stream s) {now rnd : U32} {f : Segment} (ho : s.node.out = .idle)
    (hm : s.node.sock.Matches f) (hr : f.flags.rst = false) (hs : f.flags.syn = false) (ha : f.flags.ack = true)
    (hl : s.node.sock.state ≠ .listen) (hw : s.node.sock.InWindow f.ack)
    (hd : Delivered isn stream s (.incoming now rnd f)) (hfit : Fitting isn stream s (.incoming now rnd f)) :
    RxInv isn stream ⟨⟨(s.node.sock.takeAck f).accept now f, .idle⟩,
      s.put ++ f.data.take (((s.node.sock.takeAck f).accept now f).rxq.head - s.node.sock.rxq.head).toNat,
      s.fin || f.flags.fin && decide (f.seq = s.node.sock.rxSeqRecvd)⟩ := by
  obtain ⟨hrecvd, hrxq⟩ := takeAck_rx now f s.node.sock
  have hstate := accept_state_ne now f (takeAck_state_ne f h.state)
  rw [hrxq]
  by_cases hseq : f.seq = s.node.sock.rxSeqRecvd
  · obtain ⟨hin, hq⟩ := receive_in hseq hs
    have hacc : Accepts rnd f s.node.sock := by simp [Accepts, hm, hr, hs, hl, hw]
    obtain ⟨hpeer, hroom⟩ := hfit ho hacc hs ha hseq
    rw [hq, Queue.head_put]
    simpa [hseq] using h.extend (hpeer (hd hm hs hr)) hroom hstate (hrecvd.trans hin)
  · obtain ⟨hout, hq⟩ := receive_out hseq
    rw [hq, BitVec.sub_self]
    simpa [hseq] using h.keep (n := ⟨(s.node.sock.takeAck f).accept now f, .idle⟩) (hrecvd.trans hout) hstate

/-- Every way through the incoming side. -/
theorem rxInv_incoming (h : RxInv isn stream s) {now rnd : U32} {f : Segment} (ho : s.node.out = .idle)
    (hd : Delivered isn stream s (.incoming now rnd f)) (hfit : Fitting isn stream s (.incoming now rnd f)) :
    RxInv isn stream ⟨⟨(processIncoming now rnd f s.node.sock).2, .idle⟩,
      s.put ++ f.data.take ((processIncoming now rnd f s.node.sock).2.rxq.head - s.node.sock.rxq.head).toNat,
      s.fin || takesFin now rnd f s.node.sock⟩ := by
  -- a segment that is rejected, or brings no acknowledgement, leaves the receive side alone
  have hkeep : ∀ s' : Sock, s'.rxSeqRecvd = s.node.sock.rxSeqRecvd → s'.rxq = s.node.sock.rxq →
      s'.state ≠ .listen ∧ s'.state ≠ .connect →
      RxInv isn stream ⟨⟨s', .idle⟩, s.put ++ f.data.take (s'.rxq.head - s.node.sock.rxq.head).toNat, s.fin⟩ := by
    intro s' hr hq hs
    rw [hq, BitVec.sub_self]
    simpa using h.keep (n := ⟨s', .idle⟩) hr hs
  have hout := processIncoming_outcome now rnd f s.node.sock
  unfold takesFin
  generalize processIncoming now rnd f s.node.sock = out at hout
  cases hout with
  | unmatched | refused | badAck => simpa using hkeep s.node.sock rfl rfl h.state
  | reset => simpa using hkeep { s.node.sock with state := .closed } rfl rfl (by simp)
  | resetOk hm hr hs ha =>
      rw [ha, Bool.and_false, Bool.false_and, Bool.or_false]
      exact hkeep _ (by simp) (by simp) (accept_state_ne now f (by simp))
  | syn hm hr hs ht ha => exact absurd ht h.state.1
  | synBadAck hm hr hs ht ha hw => exact (ht.elim h.state.1 h.state.2).elim
  | synAck hm hr hs ht ha hw => exact (ht.elim h.state.1 h.state.2).elim
  | ack hm hr hs ha ht hw => simpa [ha] using rxInv_ack h ho hm hr hs ha ht hw hd hfit
  | plain hm hr hs ha =>
      rw [ha, Bool.and_false, Bool.false_and, Bool.or_false]
      exact hkeep _ (by simp) (by simp) (accept_state_ne now f h.state)

theorem rxInv_call (h : RxInv isn stream s) {e : Event} {s' : Sock} (hc : CallCase s.node.sock e s')
    (hd : Delivered isn stream s e) : RxInv isn stream ⟨⟨s', s.node.out⟩, s.put, s.fin⟩ := by
  cases hc with
  | same => exact h
  | shut => exact h.keep rfl (by simp)
  | listen hs =>
      rcases hs with hs | hs
      · exact absurd hs hd
      · exact absurd hs h.state.1
  | connect hs => exact absurd hs hd
  | recv => exact h.keep rfl h.state
  | send => exact h.keep rfl h.state
  | close hl hf hs =>
      refine h.keep rfl ?_
      rcases hs with rfl | rfl <;> simp

theorem rxInv_step {s' : RxState} {e : Event} (h : RxInv isn stream s)
    (hg : Delivered isn stream s e ∧ Fitting isn stream s e) (hs : rxStep s e = some s') : RxInv isn stream s' := by
  obtain ⟨n', hn, rfl⟩ := Option.map_eq_some_iff.1 hs
  cases step_cases hn with
  | incoming ho =>
      rw [ho]
      exact rxInv_incoming h ho hg.1 hg.2
  | quiet ho hq =>
      rcases startOutput_none hq with rfl | rfl
      · exact h.keep rfl h.state
      · exact h.keep rfl (by simp)
  | pick ho hp =>
      obtain ⟨rfl, -⟩ := startOutput_some hp
      exact h.keep rfl h.state
  | build => exact h.keep (by simp) (by simpa using h.state)
  | sent =>
      apply h.keep (by simp)
      simp only [frameSent_links]
      split
      · simp
      · exact h.state
  | noFrame | notSent => exact h.keep rfl h.state
  | call hc =>
      cases e <;> first | cases hc; done | exact rxInv_call h (call_cases s.node.sock hc) hg.1

/-- A segment of the peer of `connection` that numbers its stream from 1 on. -/
def peerSegment (off : Nat) (data : List UInt8) (fin : Bool) : Segment :=
  { toPort80 { ack := true, fin := fin } with seq := BitVec.ofNat 32 (1 + off), data := data }

/-- `connection` as its peer's SYN with number 0 left it. -/
def connected : Node := ⟨{ connection with rxSeqRecvd := 1 }, .idle⟩

end YieldStm32.Tcp
