import YieldStm32.Net.Tcp.State

/-!
# The transmit stream

A connection accepted through `TCPIPTcpSock_Listen`. Ghost state: the number of the SYN|ACK sent, the bytes put into the
transmit queue, those dropped from it, and the units acknowledged since the SYN|ACK, counted from one accepted
acknowledgement number to the next.

* `Numbered` : the numbers of a frame against the stream;
* `InOrder` : the SYN|ACK is acknowledged before the connection is established, a FIN is sent with the last of the data,
  and the counters of the queue stay in step with its indices;
* `transmitted_of_run` : along every such run each frame sent is numbered right, and nothing is dropped unacknowledged.
-/

namespace YieldStm32.Tcp

open Counter Transition

structure TxState where
  node : Node
  iss : Option U32
  stream : List UInt8
  dropped : Nat
  units : Nat

/-- The bytes given to `TCPIPTcpSock_Send`. -/
def Event.data : Event → List UInt8
  | .send data => data
  | _ => []

/-- The number of the SYN sent in this step. -/
def Out.synSent : Out → Event → Option U32
  | .send fr, .outSend _ true => if fr.flags.syn then some fr.seq else none
  | _, _ => none

/-- The units an accepted acknowledgement adds. -/
def ackedUnits (s : Sock) : Event → Nat
  | .incoming _ rnd f => if f.flags.ack = true ∧ Accepts rnd f s then (f.ack - s.txSeqStart).toNat else 0
  | _ => 0

/-- The ghost state follows the head and the tail of the transmit queue. -/
def txStep (s : TxState) (e : Event) : Option TxState :=
  (step s.node e).map fun n =>
    { node := n
      iss := s.iss.or (s.node.out.synSent e)
      stream := s.stream ++ e.data.take (n.sock.txq.head - s.node.sock.txq.head).toNat
      dropped := s.dropped + (n.sock.txq.tail - s.node.sock.txq.tail).toNat
      units := if s.iss = none then s.units else s.units + ackedUnits s.node.sock e }

/-- A frame against the stream numbered from `iss + 1` on. Before the SYN|ACK there are neither data nor FIN. -/
structure Numbered (iss : Option U32) (stream : List UInt8) (fr : Frame) : Prop where
  syn : fr.flags.syn = true → iss = some fr.seq ∧ fr.data = []
  slice : fr.flags.syn = false → ∀ i, iss = some i → ∃ off, fr.seq = adv (i + 1) off ∧ fr.data <+: stream.drop off
  early : iss = none → fr.data = []
  fin : fr.flags.fin = true → ∃ i, iss = some i ∧ adv fr.seq fr.data.length = adv (i + 1) stream.length

/-- What a step must keep. The first unit acknowledged is the SYN. -/
structure Transmitted (s : TxState) (e : Event) (s' : TxState) : Prop where
  frame : ∀ now fr, e = .outSend now true → s.node.out = .send fr → Numbered s'.iss s'.stream fr
  dropped : s'.dropped ≤ min (s'.units - 1) s'.stream.length

/-- The run stays on one connection. -/
def OneConnection (s : TxState) : Event → Prop
  | .listen _ | .connect .. => s.node.sock.state ≠ .closed
  | _ => True

/-- The output task is about to build a frame with FIN. -/
def Out.picksFin : Out → Bool
  | .alloc flags => flags.fin
  | _ => false

/-- The step is none of those that put the numbers out of order. -/
def InOrder (s : TxState) : Event → Prop
  | .incoming _ rnd f => s.node.out = .idle → Accepts rnd f s.node.sock → f.flags.ack = true →
      s.node.sock.state = .establishing → s.node.sock.txFlags = .synAck → f.ack ≠ s.node.sock.txSeqStart
  | .outAlloc true => s.node.out.picksFin = true → s.node.sock.txq.getUsed ≤ frameSize
  | .send data => s.node.sock.state = .established → s.node.sock.txq.Fits data.length
  | _ => True

/-! ## Before the SYN|ACK -/

/-- The socket before a SYN|ACK is sent: nothing in the transmit queue `q`, and no link open. -/
structure EarlySock (q : Queue UInt8) (s : Sock) : Prop where
  txq : s.txq = q
  state : s.state ≠ .established ∧ s.state ≠ .connect
  locLink : s.locLink = .closed
  syn : s.txFlags.syn = false

section EarlySock

variable {q : Queue UInt8} {s : Sock}

theorem EarlySock.shut (h : EarlySock q s) : EarlySock q { s with state := .closed } :=
  ⟨h.txq, by simp, h.locLink, h.syn⟩

theorem EarlySock.synchronize (h : EarlySock q s) (hs : s.state = .listen) (now rnd : U32) (f : Segment) :
    EarlySock q (s.synchronize now rnd f) :=
  ⟨by simpa using h.txq, by simp [hs], by simpa [hs] using h.locLink, by simpa using h.syn⟩

theorem EarlySock.takeAck (h : EarlySock q s) (hq : q.getUsed = 0) (f : Segment) : EarlySock q (s.takeAck f) := by
  have hest : s.establish = s := if_neg fun hs => by
    have hsyn := h.syn
    rw [hs.2] at hsyn
    cases hsyn
  have hlast : s.lastAck = s := if_neg (by simp [h.locLink])
  have hdrop : ∀ n, (q.drop n).2 = q := fun n => by simp [Queue.drop, hq]
  rw [Sock.takeAck, hest, hlast]
  refine ⟨?_, by simpa using h.state, by simpa using h.locLink, by simpa using h.syn⟩
  simp [Sock.acknowledge, h.txq, hdrop]

theorem EarlySock.accept (h : EarlySock q s) (now : U32) (f : Segment) : EarlySock q (s.accept now f) := by
  refine ⟨by simpa using h.txq, ?_, by simp [h.locLink], by simpa using h.syn⟩
  simp only [accept_links]
  split
  · simp
  · exact h.state

theorem EarlySock.processIncoming (h : EarlySock q s) (hq : q.getUsed = 0) (now rnd : U32) (f : Segment) :
    EarlySock q (processIncoming now rnd f s).2 := by
  have ho := processIncoming_outcome now rnd f s
  generalize Tcp.processIncoming now rnd f s = out at ho
  cases ho with
  | unmatched | refused | badAck => exact h
  | reset => exact h.shut
  | resetOk => exact h.shut.accept now f
  | syn hm hr hs ht => exact (h.synchronize ht now rnd f).accept now f
  | synBadAck hm hr hs ht => exact h.synchronize (ht.resolve_right h.state.2) now rnd f
  | synAck hm hr hs ht => exact ((h.synchronize (ht.resolve_right h.state.2) now rnd f).takeAck hq f).accept now f
  | ack => exact (h.takeAck hq f).accept now f
  | plain => exact h.accept now f

theorem EarlySock.call {s' : Sock} {e : Event} (h : EarlySock q s) (hq : q.getUsed = 0) (hc : CallCase s e s')
    (hn : ∀ now rnd ip port, e = .connect now rnd ip port → s.state ≠ .closed) : EarlySock q s' := by
  cases hc with
  | same => exact h
  | shut => exact h.shut
  | listen => exact ⟨by simp [Sock.renew, Queue.drop, h.txq, hq], by simp, rfl, rfl⟩
  | connect hs => exact absurd hs (hn _ _ _ _ rfl)
  | recv => exact ⟨h.txq, h.state, h.locLink, h.syn⟩
  | send hs => exact absurd hs h.state.1
  | close hl =>
      rw [h.locLink] at hl
      cases hl

end EarlySock

/-! ## After the SYN|ACK -/

/-- A socket that only goes on to close: the transmit side stays, the state moves to CLOSING or CLOSED if at all. -/
structure Winds (s s' : Sock) : Prop where
  txq : s'.txq = s.txq
  start : s'.txSeqStart = s.txSeqStart
  ends : s'.txSeqEnd = s.txSeqEnd
  flags : s'.state = .establishing → s.txFlags = .synAck → s'.txFlags = .synAck
  state : s'.state = s.state ∨ s'.state = .closing ∨ s'.state = .closed
  locLink : s'.locLink = s.locLink ∨ s.locLink = .opened ∧ s'.locLink = .closing

/-- The transmit side once the SYN|ACK with number `i` is sent. -/
structure LiveSock (i : U32) (stream : List UInt8) (dropped units : Nat) (s : Sock) : Prop where
  links : Links s
  size : s.txq.size = 1
  straight : s.txq.Straight
  contents : s.txq.contents = stream.drop dropped
  dropped : dropped = min (units - 1) stream.length
  start : s.txSeqStart = adv i units
  state : s.state ≠ .listen ∧ s.state ≠ .connect
  ends : units + (s.txSeqEnd - s.txSeqStart).toNat ≤ stream.length + 2
  -- the last unit is the FIN
  finEnd : units + (s.txSeqEnd - s.txSeqStart).toNat = stream.length + 2 →
    s.locLink ≠ .opened ∧ s.state ≠ .establishing
  finAcked : units = stream.length + 2 → s.locLink = .closed
  -- the first unit is the SYN
  early : units = 0 → stream = [] ∧ s.locLink = .closed
  establishing : s.state = .establishing → units = 0 ∧ s.txFlags = .synAck

section LiveSock

variable {i : U32} {stream : List UInt8} {dropped units : Nat} {s s' : Sock}

theorem Winds.refl (s : Sock) : Winds s s := ⟨rfl, rfl, rfl, fun _ => id, Or.inl rfl, Or.inl rfl⟩

theorem LiveSock.winds (h : LiveSock i stream dropped units s) (hl : Links s') (hw : Winds s s') :
    LiveSock i stream dropped units s' := by
  have hopen : s'.locLink = .opened → s.locLink = .opened := fun ho => by
    rcases hw.locLink with hw | hw
    · exact hw.symm.trans ho
    · exact hw.1
  have hclosed : s.locLink = .closed → s'.locLink = .closed := fun hc => by
    rcases hw.locLink with hw | hw
    · exact hw.trans hc
    · rw [hw.1] at hc
      cases hc
  have hest : s'.state = .establishing → s.state = .establishing := fun hs => by
    rcases hw.state with hw | hw | hw
    · exact hw.symm.trans hs
    · rw [hw] at hs
      cases hs
    · rw [hw] at hs
      cases hs
  refine ⟨hl, ?_, ?_, ?_, h.dropped, hw.start.trans h.start, ?_, ?_, ?_, fun hu => hclosed (h.finAcked hu),
    fun hu => ⟨(h.early hu).1, hclosed (h.early hu).2⟩, fun hs => ?_⟩
  · rw [hw.txq]
    exact h.size
  · rw [hw.txq]
    exact h.straight
  · rw [hw.txq]
    exact h.contents
  · rcases hw.state with hs | hs | hs <;> rw [hs]
    · exact h.state
    · simp
    · simp
  · rw [hw.ends, hw.start]
    exact h.ends
  · rw [hw.ends, hw.start]
    intro he
    obtain ⟨ho, hs⟩ := h.finEnd he
    exact ⟨fun h => ho (hopen h), fun h => hs (hest h)⟩
  · obtain ⟨hu, hf⟩ := h.establishing (hest hs)
    exact ⟨hu, hw.flags hs hf⟩

/-- The bytes in the queue are those not yet acknowledged. -/
theorem LiveSock.getUsed (h : LiveSock i stream dropped units s) : s.txq.getUsed = stream.length - dropped := by
  have hlen := congrArg List.length h.contents
  rw [Queue.length_contents, h.size, Nat.mul_one, List.length_drop] at hlen
  exact hlen

theorem Winds.trans {s₁ s₂ s₃ : Sock} (h : Winds s₁ s₂) (h' : Winds s₂ s₃) : Winds s₁ s₃ := by
  refine ⟨h'.txq.trans h.txq, h'.start.trans h.start, h'.ends.trans h.ends, fun hs hf => ?_, ?_, ?_⟩
  · refine h'.flags hs (h.flags ?_ hf)
    rcases h'.state with hst | hst | hst <;> rw [hst] at hs
    · exact hs
    · cases hs
    · cases hs
  · rcases h'.state with hst | hst
    · rw [hst]
      exact h.state
    · exact Or.inr hst
  · rcases h'.locLink with hl | ⟨ho, hl⟩
    · rw [hl]
      exact h.locLink
    · rcases h.locLink with hl' | hl'
      · exact Or.inr ⟨hl'.symm.trans ho, hl⟩
      · rw [hl'.2] at ho
        cases ho

theorem winds_shut (s : Sock) : Winds s { s with state := .closed } :=
  ⟨rfl, rfl, rfl, nofun, Or.inr (Or.inr rfl), Or.inl rfl⟩

theorem winds_accept (now : U32) (f : Segment) (s : Sock) : Winds s (s.accept now f) := by
  refine ⟨by simp, by simp, by simp, fun _ hf => by simpa using hf, ?_, ?_⟩
  · rw [(accept_links now f s).1]
    split
    · exact Or.inr (Or.inl rfl)
    · exact Or.inl rfl
  · rw [(accept_links now f s).2.2]
    split
    · exact Or.inr ⟨(‹_ ∧ _›).2, rfl⟩
    · exact Or.inl rfl

theorem takeAck_txq (f : Segment) (s : Sock) :
    (s.takeAck f).txq = (s.txq.drop (f.ack - s.txSeqStart).toNat).2 := by
  simp [Sock.takeAck, Sock.acknowledge]

/-- Once connected, a segment brings an accepted acknowledgement, or nothing for the transmit side. -/
theorem incoming_winds (hs : s.state ≠ .listen ∧ s.state ≠ .connect) (now rnd : U32) (f : Segment) :
    ackedUnits s (.incoming now rnd f) = 0 ∧ Winds s (processIncoming now rnd f s).2 ∨
      f.flags.ack = true ∧ Accepts rnd f s ∧ s.InWindow f.ack ∧
        (processIncoming now rnd f s).2 = (s.takeAck f).accept now f := by
  have hacc := accepts_iff now rnd f s
  have hunits : f.flags.ack = false ∨ ¬ Accepts rnd f s → ackedUnits s (.incoming now rnd f) = 0 := fun h => by
    refine if_neg fun h' => ?_
    rcases h with h | h
    · rw [h] at h'
      cases h'.1
    · exact h h'.2
  have ho := processIncoming_outcome now rnd f s
  generalize processIncoming now rnd f s = out at ho hacc
  cases ho with
  | unmatched | refused | badAck => exact Or.inl ⟨hunits (Or.inr (by simp [← hacc])), Winds.refl s⟩
  | reset => exact Or.inl ⟨hunits (Or.inr (by simp [← hacc])), winds_shut s⟩
  | resetOk hm hr hs ha => exact Or.inl ⟨hunits (Or.inl ha), (winds_shut s).trans (winds_accept now f _)⟩
  | syn hm hr hs' ht => exact absurd ht hs.1
  | synBadAck hm hr hs' ht => exact (ht.elim hs.1 hs.2).elim
  | synAck hm hr hs' ht => exact (ht.elim hs.1 hs.2).elim
  | ack hm hr hs' ha ht hw => exact Or.inr ⟨ha, hacc.1 rfl, hw, rfl⟩
  | plain hm hr hs' ha => exact Or.inl ⟨hunits (Or.inl ha), winds_accept now f s⟩

/-- Of `len` bytes, those behind the first of `units` acknowledged units are dropped: `k` more units drop at most `k` more
bytes, as far as there are any. -/
theorem dropped_add_units {units len k : Nat} (hearly : units = 0 → len = 0) :
    min (units - 1) len + min k (len - min (units - 1) len) = min (units + k - 1) len := by
  omega

theorem drop_add_min {α : Type*} (l : List α) (d k : Nat) :
    l.drop (d + min k (l.length - d)) = l.drop (d + k) := by
  rw [List.drop_eq_drop_iff]
  omega

/-- An accepted acknowledgement moves units and bytes on together. -/
theorem LiveSock.takeAck (h : LiveSock i stream dropped units s) {f : Segment} (hw : s.InWindow f.ack)
    (hg : s.state = .establishing → f.ack ≠ s.txSeqStart) :
    LiveSock i stream (dropped + min (f.ack - s.txSeqStart).toNat s.txq.getUsed)
      (units + (f.ack - s.txSeqStart).toNat) (s.takeAck f) := by
  obtain ⟨-, hopen⟩ := takeAck_locLink f s
  have hused := h.getUsed
  have hack : f.ack = adv s.txSeqStart (f.ack - s.txSeqStart).toNat := (adv_toNat_sub _ _).symm
  have hzero : (f.ack - s.txSeqStart).toNat = 0 → f.ack = s.txSeqStart := fun hk => by
    rw [hack, hk, adv_zero]
  have hle : (f.ack - s.txSeqStart).toNat ≤ (s.txSeqEnd - s.txSeqStart).toNat := hw
  have hstart : (s.takeAck f).txSeqStart = f.ack := by simp [Sock.takeAck]
  have hend : ((s.takeAck f).txSeqEnd - (s.takeAck f).txSeqStart).toNat =
      (s.txSeqEnd - s.txSeqStart).toNat - (f.ack - s.txSeqStart).toNat := by
    have htx : (s.takeAck f).txSeqEnd = s.txSeqEnd := by simp [Sock.takeAck]
    rw [hstart, htx, ← sub_adv _ _ hle, ← hack]
  have htxq := takeAck_txq f s
  generalize (f.ack - s.txSeqStart).toNat = k at *
  have hearly : units = 0 → stream.length = 0 := fun hu => by simp [(h.early hu).1]
  have hends := h.ends
  refine ⟨h.links.takeAck f, ?_, ?_, ?_, ?_, ?_, takeAck_state_ne f h.state, by omega, fun he => ?_, fun hu => ?_,
    fun hu => ?_, fun hs => ?_⟩
  · rw [htxq]
    exact h.size
  · rw [htxq]
    exact h.straight.drop k
  · rw [htxq, Queue.contents_drop h.straight, h.size, Nat.mul_one, h.contents, List.drop_drop, hused, drop_add_min]
  · rw [hused, h.dropped]
    exact dropped_add_units hearly
  · rw [hstart, hack, h.start, adv_adv]
  · -- the acknowledgement does not establish, since the connection is closing
    obtain ⟨ho, hs⟩ := h.finEnd (by omega)
    exact ⟨fun h => (hopen h).elim ho fun h => hs h.1, fun h => hs (establishing_of_takeAck h)⟩
  · obtain ⟨ho, hs⟩ := h.finEnd (by omega)
    exact takeAck_closed f ho fun h => hs h.1
  · obtain ⟨hstream, hclosed⟩ := h.early (by omega)
    exact ⟨hstream, takeAck_closed f (by simp [hclosed]) fun hs => hg hs.1 (hzero (by omega))⟩
  · have hest := establishing_of_takeAck hs
    rw [takeAck_established f ⟨hest, (h.establishing hest).2⟩] at hs
    cases hs

/-- While the local link is closing, the SYN is acknowledged and the FIN is not. -/
theorem LiveSock.closing (h : LiveSock i stream dropped units s) (hc : s.locLink = .closing) :
    units ≠ 0 ∧ units ≠ stream.length + 2 := by
  refine ⟨fun hu => ?_, fun hu => ?_⟩
  · rw [(h.early hu).2] at hc
    cases hc
  · rw [h.finAcked hu] at hc
    cases hc

/-- A frame covers what is in the queue, and the unit of its SYN or FIN. -/
theorem LiveSock.build (h : LiveSock i stream dropped units s) {fl : Flags} (hsyn : fl.syn = true → units = 0)
    (hfin : fl.fin = true → s.locLink = .closing) :
    LiveSock i stream dropped units (s.buildFrame fl).2 := by
  have hlen : (s.txq.peek frameSize).length ≤ stream.length - dropped := by
    rw [Queue.peek_eq, h.contents, List.length_take, List.length_drop]
    exact Nat.min_le_right ..
  have hle : (s.txq.peek frameSize).length ≤ 2 ^ 31 := by
    rw [Queue.peek_eq, List.length_take, Queue.length_contents, h.size]
    have := s.txq.getUsed_le
    have := s.txq.count_le
    omega
  have hend : ((s.buildFrame fl).2.txSeqEnd - (s.buildFrame fl).2.txSeqStart).toNat =
      (s.txq.peek frameSize).length + if fl.special then 1 else 0 := by
    have hstart : (s.buildFrame fl).2.txSeqStart = s.txSeqStart := by simp
    have hadv : (s.buildFrame fl).2.txSeqEnd =
        adv s.txSeqStart ((s.txq.peek frameSize).length + if fl.special then 1 else 0) := by
      rw [buildFrame_txSeqEnd, ← adv_adv]
      split <;> simp [adv]
    rw [hstart, hadv, adv_sub_self]
    split <;> omega
  generalize (s.txq.peek frameSize).length = m at *
  have hearly : units = 0 → stream.length = 0 := fun hu => by simp [(h.early hu).1]
  have hends := h.ends
  have hdropped := h.dropped
  have hspecial : fl.special = true →
      units = 0 ∨ s.locLink = .closing ∧ units ≠ 0 ∧ units ≠ stream.length + 2 := fun hsp => by
    rcases Bool.or_eq_true_iff.1 hsp with hf | hs
    · exact Or.inr ⟨hfin hf, h.closing (hfin hf)⟩
    · exact Or.inl (hsyn hs)
  refine ⟨⟨by simpa using h.links.established, by simpa using h.links.early⟩, by simpa using h.size,
    by simpa using h.straight, by simpa using h.contents, h.dropped, by simpa using h.start, by simpa using h.state,
    ?_, ?_, by simpa using h.finAcked, by simpa using h.early, by simpa using h.establishing⟩
  · rw [hend]
    split
    · rcases hspecial ‹_› with hu | hu <;> omega
    · omega
  · rw [hend]
    simp only [buildFrame_keeps]
    intro he
    split at he
    · rcases hspecial ‹_› with hu | ⟨hl, hu, hu'⟩
      · omega
      · refine ⟨by simp [hl], fun hs => ?_⟩
        rw [h.links.early (Or.inr (Or.inr hs))] at hl
        cases hl
    · have hu : units = stream.length + 2 := by omega
      exact ⟨by simp [h.finAcked hu], fun hs => by simp [(h.establishing hs).1] at hu⟩

/-- Bytes are only put while no FIN is sent. -/
theorem LiveSock.send (h : LiveSock i stream dropped units s) (hs : s.state = .established) {data : List UInt8}
    (hfit : s.txq.Fits data.length) :
    LiveSock i (stream ++ data.take (s.txq.put data data.length).1) dropped units
      { s with txq := (s.txq.put data data.length).2 } := by
  have hopen := (h.links.established hs).1
  have hends := h.ends
  have hfin : units + (s.txSeqEnd - s.txSeqStart).toNat ≠ stream.length + 2 := fun he => (h.finEnd he).1 hopen
  have hnot : s.locLink ≠ .closed := by simp [hopen]
  have hdropped := h.dropped
  have hput : (s.txq.put data data.length).1 = min data.length s.txq.getFree := rfl
  refine ⟨⟨h.links.established, h.links.early⟩, h.size, Queue.Straight.put data hfit, ?_, ?_, h.start, h.state, ?_,
    fun he => ?_, fun hu => ?_, fun hu => absurd (h.early hu).2 hnot, h.establishing⟩
  · rw [Queue.contents_put h.straight (by rw [h.size, Nat.mul_one]), h.contents, h.size, Nat.mul_one, hput,
      List.drop_append_of_le_length (by omega)]
  · rw [List.length_append]
    omega
  · rw [List.length_append]
    exact Nat.le_trans hends (by omega)
  · rw [List.length_append] at he
    exact absurd he (by dsimp only; omega)
  · rw [List.length_append] at hu
    omega

end LiveSock

/-! ## The frame on its way -/

/-- The frame on its way once the SYN|ACK is sent. -/
structure LiveOut (stream : List UInt8) (dropped units : Nat) (n : Node) : Prop where
  syn : ∀ fl ∈ n.out.flags, fl.syn = true → units = 0
  fin : ∀ fl ∈ n.out.flags, fl.fin = true → n.sock.locLink = .closing
  frame : ∀ fr, n.out = .send fr → fr.seq = n.sock.txSeqStart ∧ fr.data <+: stream.drop dropped ∧
    (fr.flags.fin = true → fr.data = stream.drop dropped)

structure Early (q : Queue UInt8) (s : TxState) : Prop where
  sock : EarlySock q s.node.sock
  iss : s.iss = none
  stream : s.stream = []
  dropped : s.dropped = 0
  units : s.units = 0
  listen : s.node.sock.state = .listen → s.node.out = .idle
  fin : ∀ fl ∈ s.node.out.flags, fl.fin = false
  frame : ∀ fr, s.node.out = .send fr → fr.data = [] ∧ fr.seq = s.node.sock.txSeqStart ∧
    (fr.flags.syn = true → s.node.sock.txSeqEnd = s.node.sock.txSeqStart + 1)

structure Live (i : U32) (s : TxState) : Prop where
  iss : s.iss = some i
  sock : LiveSock i s.stream s.dropped s.units s.node.sock
  out : LiveOut s.stream s.dropped s.units s.node

/-- While establishing, only a SYN|ACK is on its way. -/
def Picked (n : Node) : Prop := n.sock.state = .establishing → ∀ fl ∈ n.out.flags, fl = .synAck

/-- The invariant, over the transmit queue `q` that `TCPIPTcpSock_Listen` left. -/
structure TxInv (q : Queue UInt8) (s : TxState) : Prop where
  links : Links s.node.sock
  picked : Picked s.node
  phase : Early q s ∨ ∃ i, Live i s

section LiveOut

variable {i : U32} {stream : List UInt8} {dropped units : Nat} {s s' : Sock}

theorem liveOut_idle (s : Sock) : LiveOut stream dropped units ⟨s, .idle⟩ := by
  refine ⟨fun fl hfl => ?_, fun fl hfl => ?_, fun fr hfr => ?_⟩
  · cases hfl
  · cases hfl
  · cases hfr

theorem LiveOut.winds {out : Out} (h : LiveOut stream dropped units ⟨s, out⟩) (hw : Winds s s') :
    LiveOut stream dropped units ⟨s', out⟩ := by
  refine ⟨h.syn, fun fl hfl hf => ?_, fun fr hfr => ?_⟩
  · have hc : s.locLink = .closing := h.fin fl hfl hf
    rcases hw.locLink with hl | hl
    · exact hl.trans hc
    · exact hl.2
  · obtain ⟨hseq, hdata⟩ := h.frame fr hfr
    exact ⟨hseq.trans hw.start.symm, hdata⟩

theorem liveOut_pick (h : LiveSock i stream dropped units s) {fl : Flags} (hf : s.outFlags = some fl) :
    LiveOut stream dropped units ⟨s, .alloc fl⟩ := by
  refine ⟨fun fl' hfl hsyn => ?_, fun fl' hfl hfin => ?_, fun fr hfr => ?_⟩
  · obtain rfl := Option.some.inj hfl
    exact (h.establishing ((outFlags_syn hf hsyn).resolve_right h.state.2)).1
  · obtain rfl := Option.some.inj hfl
    exact (outFlags_fin h.links hf).1 hfin
  · cases hfr

theorem LiveOut.build {fl : Flags} (ho : LiveOut stream dropped units ⟨s, .alloc fl⟩)
    (h : LiveSock i stream dropped units s) (hroom : fl.fin = true → s.txq.getUsed ≤ frameSize) :
    LiveOut stream dropped units ⟨(s.buildFrame fl).2, .send (s.buildFrame fl).1⟩ := by
  have hpeek : (s.buildFrame fl).1.data = (stream.drop dropped).take frameSize := by
    rw [← h.contents, ← Nat.mul_one frameSize, ← h.size, ← Queue.peek_eq]
    rfl
  refine ⟨fun fl' hfl hsyn => ?_, fun fl' hfl hfin => ?_, fun fr hfr => ?_⟩
  · obtain rfl := Option.some.inj hfl
    exact ho.syn fl rfl (by simpa using hsyn)
  · obtain rfl := Option.some.inj hfl
    simpa using ho.fin fl rfl (by simpa using hfin)
  · obtain rfl := Out.send.inj hfr
    rw [hpeek]
    refine ⟨by rfl, List.take_prefix .., fun hfin => List.take_of_length_le ?_⟩
    have hused := hroom (by simpa using hfin)
    rw [h.getUsed] at hused
    rw [List.length_drop]
    exact hused

theorem LiveOut.send {out : Out} (ho : LiveOut stream dropped units ⟨s, out⟩) (h : LiveSock i stream dropped units s)
    (hs : s.state = .established) (data : List UInt8) (txq : Queue UInt8) :
    LiveOut (stream ++ data) dropped units ⟨{ s with txq := txq }, out⟩ := by
  have hle : dropped ≤ stream.length := by
    rw [h.dropped]
    exact Nat.min_le_right ..
  refine ⟨ho.syn, ho.fin, fun fr hfr => ?_⟩
  obtain ⟨hseq, hdata, -⟩ := ho.frame fr hfr
  rw [List.drop_append_of_le_length hle]
  refine ⟨hseq, hdata.trans (List.prefix_append ..), fun hfin => ?_⟩
  have hc : s.locLink = .closing := ho.fin fr.flags (by subst hfr; rfl) hfin
  rw [(h.links.established hs).1] at hc
  cases hc

end LiveOut

/-! ## Runs -/

section Runs

variable {q : Queue UInt8} {s s' : TxState} {n : Node} {e : Event}

/-- No call starts to establish. -/
theorem CallCase.establishing {s s' : Sock} (hc : CallCase s e s') (h : s'.state = .establishing) :
    s.state = .establishing := by
  cases hc with
  | same | recv | send => exact h
  | shut | listen | connect => cases h
  | close hl hf hs => rcases hs with rfl | rfl <;> cases h

/-- A socket listens by Listen only. -/
theorem CallCase.listening {s s' : Sock} (hc : CallCase s e s') (h : s'.state = .listen)
    (hl : ∀ port, e = .listen port → s.state ≠ .closed) : s.state = .listen := by
  cases hc with
  | same | recv | send => exact h
  | shut | connect => cases h
  | listen hs => exact hs.resolve_left (hl _ rfl)
  | close ho hf hs => rcases hs with rfl | rfl <;> cases h

/-- No call but Connect sets the numbers. -/
theorem CallCase.numbers {s s' : Sock} (hc : CallCase s e s')
    (hn : ∀ now rnd ip port, e = .connect now rnd ip port → s.state ≠ .closed) :
    s'.txSeqStart = s.txSeqStart ∧ s'.txSeqEnd = s.txSeqEnd := by
  cases hc with
  | connect hs => exact absurd hs (hn _ _ _ _ rfl)
  | same | shut | listen | recv | send | close => exact ⟨rfl, rfl⟩

/-- The flags stay those of the state while a SYN|ACK is sent. -/
theorem picked_step {n n' : Node} (h : Picked n)
    (hempty : n.sock.state = .establishing → (n.sock.txq.peek frameSize).length = 0) (hs : step n e = some n') :
    Picked n' := by
  intro hest fl hfl
  cases step_cases hs with
  | incoming ho =>
      rw [show n.out = .idle from ho] at hfl
      cases hfl
  | quiet | noFrame | sent | notSent => cases hfl
  | pick ho hp =>
      obtain ⟨rfl, hf⟩ := startOutput_some hp
      obtain rfl := Option.some.inj hfl
      have hst : n.sock.state = .establishing := hest
      simpa [Sock.outFlags, hst] using hf.symm
  | @build flags ho =>
      obtain rfl := Option.some.inj hfl
      have hst : n.sock.state = .establishing := by simpa using hest
      have hfl := h hst flags (by rw [ho]; rfl)
      simp [Sock.buildFrame, hempty hst, hfl]
  | call hg =>
      exact h ((call_cases n.sock hg).establishing hest) fl hfl

theorem synSent_call (out : Out) {g : Sock → Sock} (hg : e.call = some g) : out.synSent e = none := by
  cases e <;> cases hg <;> cases out <;> rfl

theorem ackedUnits_call (s : Sock) {g : Sock → Sock} (hg : e.call = some g) : ackedUnits s e = 0 := by
  cases e <;> cases hg <;> rfl

/-- A step that moves neither the queue nor a number. -/
theorem txStep_keeps (hn : step s.node e = some n) (hq : n.sock.txq = s.node.sock.txq)
    (hsyn : s.iss.or (s.node.out.synSent e) = s.iss) (hu : s.iss = none ∨ ackedUnits s.node.sock e = 0) :
    txStep s e = some { s with node := n } := by
  have hunits : (if s.iss = none then s.units else s.units + ackedUnits s.node.sock e) = s.units := by
    rcases hu with hu | hu <;> simp [hu]
  simp [txStep, hn, hq, hsyn, hunits, -BitVec.toNat_sub]

theorem Early.node (h : Early q s) (hs : EarlySock q n.sock) (hl : n.sock.state = .listen → n.out = .idle)
    (hfin : ∀ fl ∈ n.out.flags, fl.fin = false)
    (hframe : ∀ fr, n.out = .send fr → fr.data = [] ∧ fr.seq = n.sock.txSeqStart ∧
      (fr.flags.syn = true → n.sock.txSeqEnd = n.sock.txSeqStart + 1)) : Early q { s with node := n } :=
  ⟨hs, h.iss, h.stream, h.dropped, h.units, hl, hfin, hframe⟩

theorem Early.idle (h : Early q s) {sock : Sock} (hs : EarlySock q sock) :
    Early q { s with node := ⟨sock, .idle⟩ } := by
  refine h.node hs (fun _ => rfl) (fun fl hfl => ?_) fun fr hfr => ?_
  · cases hfl
  · cases hfr

theorem Early.pick (h : Early q s) (hl : Links s.node.sock) {fl : Flags} (hf : s.node.sock.outFlags = some fl) :
    Early q { s with node := ⟨s.node.sock, .alloc fl⟩ } := by
  refine h.node h.sock (fun hs => ?_) (fun fl' hfl => ?_) fun fr hfr => ?_
  · have hs : s.node.sock.state = .listen := hs
    simp [Sock.outFlags, hs] at hf
  · obtain rfl := Option.some.inj hfl
    by_contra hfin
    have hc := (outFlags_fin hl hf).1 (Bool.eq_true_of_not_eq_false hfin)
    rw [h.sock.locLink] at hc
    cases hc
  · cases hfr

theorem Early.build (h : Early q s) (hq : q.getUsed = 0) {fl : Flags} (ho : s.node.out = .alloc fl) :
    Early q { s with node := ⟨(s.node.sock.buildFrame fl).2, .send (s.node.sock.buildFrame fl).1⟩ } := by
  have hdata : s.node.sock.txq.peek frameSize = [] := by
    rw [Queue.peek_eq, h.sock.txq, Queue.contents_eq_nil hq, List.take_nil]
  have hsock : EarlySock q (s.node.sock.buildFrame fl).2 :=
    ⟨by simpa using h.sock.txq, by simpa using h.sock.state, by simpa using h.sock.locLink, by simpa using h.sock.syn⟩
  refine h.node hsock (fun hs => ?_) (fun fl' hfl => ?_) fun fr hfr => ?_
  · have hidle := h.listen (by simpa using hs)
    rw [ho] at hidle
    cases hidle
  · obtain rfl := Option.some.inj hfl
    simpa using h.fin fl (by rw [ho]; rfl)
  · obtain rfl := Out.send.inj hfr
    refine ⟨hdata, by simp [Sock.buildFrame], fun hsyn => ?_⟩
    simp [buildFrame_txSeqEnd, hdata, Flags.special, show fl.syn = true by simpa using hsyn]

/-- The sending of the SYN|ACK starts the numbers. -/
theorem Early.sent {fr : Frame} (h : Early q s) (hq : q.getUsed = 0) (hsize : q.size = 1) (hl : Links s.node.sock)
    (hpicked : Picked s.node) (ho : s.node.out = .send fr) (hsyn : fr.flags.syn = true) (now : U32) :
    LiveSock fr.seq [] 0 0 (s.node.sock.frameSent now fr) := by
  obtain ⟨hdata, hseq, hend⟩ := h.frame fr ho
  have hstate : (s.node.sock.frameSent now fr).state = .closed ∨
      (s.node.sock.frameSent now fr).state = s.node.sock.state := by
    rw [(frameSent_links now fr _).2]
    split
    · exact Or.inl rfl
    · exact Or.inr rfl
  have hlisten : s.node.sock.state ≠ .listen := fun hs => by
    have hidle := h.listen hs
    rw [ho] at hidle
    cases hidle
  have htxq : (s.node.sock.frameSent now fr).txq = q := by simpa using h.sock.txq
  have hdist : ((s.node.sock.frameSent now fr).txSeqEnd - (s.node.sock.frameSent now fr).txSeqStart).toNat = 1 := by
    simp only [frameSent_keeps, hend hsyn]
    exact adv_sub_self s.node.sock.txSeqStart (by decide)
  refine ⟨hl.frameSent now fr, htxq ▸ hsize, ?_, ?_, rfl, ?_, ?_, ?_, ?_, fun hu => absurd hu (by decide),
    fun _ => ⟨rfl, ?_⟩, fun hs => ⟨rfl, ?_⟩⟩
  · rw [htxq]
    exact Or.inr (by simpa [hq] using q.tail.isLt)
  · rw [htxq]
    exact Queue.contents_eq_nil hq
  · simp [hseq]
  · rcases hstate with hs | hs <;> rw [hs]
    · simp
    · exact ⟨hlisten, h.sock.state.2⟩
  · rw [hdist]
    decide
  · rw [hdist]
    exact fun h => absurd h (by decide)
  · simpa using h.sock.locLink
  · have hest : s.node.sock.state = .establishing := by
      rcases hstate with hs' | hs'
      · rw [hs'] at hs
        cases hs
      · exact hs'.symm.trans hs
    have hfl := hpicked hest fr.flags (by rw [ho]; rfl)
    simpa using hfl

theorem Live.winds {i : U32} (h : Live i s) (hl : Links n.sock) (hw : Winds s.node.sock n.sock)
    (ho : n.out = s.node.out ∨ n.out = .idle) : Live i { s with node := n } := by
  refine ⟨h.iss, h.sock.winds hl hw, ?_⟩
  obtain ⟨sock, out⟩ := n
  rcases ho with rfl | rfl
  · exact h.out.winds hw
  · exact liveOut_idle _

theorem winds_frameSent {s : Sock} {fr : Frame} (h : s.state = .establishing → fr.flags = .synAck) (now : U32) :
    Winds s (s.frameSent now fr) := by
  refine ⟨by simp, by simp, by simp, fun hs _ => ?_, ?_, Or.inl (by simp)⟩
  · rw [(frameSent_links now fr s).2] at hs
    split at hs
    · cases hs
    · simpa using h hs
  · rw [(frameSent_links now fr s).2]
    split
    · exact Or.inr (Or.inr rfl)
    · exact Or.inl rfl

/-- The calls other than Send leave the transmit side of a connection. -/
theorem CallCase.winds {s s' : Sock} (hc : CallCase s e s') (hs : s.state ≠ .listen)
    (hl : ∀ port, e = .listen port → s.state ≠ .closed)
    (hn : ∀ now rnd ip port, e = .connect now rnd ip port → s.state ≠ .closed) :
    Winds s s' ∨ ∃ data, e = .send data ∧ s.state = .established ∧
      s' = { s with txq := (s.txq.put data data.length).2 } := by
  cases hc with
  | same => exact Or.inl (Winds.refl s)
  | shut => exact Or.inl (winds_shut s)
  | listen hst => exact (hst.elim (hl _ rfl) hs).elim
  | connect hst => exact absurd hst (hn _ _ _ _ rfl)
  | recv => exact Or.inl ⟨rfl, rfl, rfl, fun _ => id, Or.inl rfl, Or.inl rfl⟩
  | send hst => exact Or.inr ⟨_, rfl, hst, rfl⟩
  | close ho hf hst =>
      refine Or.inl ⟨rfl, rfl, rfl, fun h _ => ?_, Or.inr hst, Or.inr ⟨ho, rfl⟩⟩
      rcases hst with rfl | rfl <;> cases h

theorem txStep_acked {now rnd : U32} {f : Segment} (ho : s.node.out = .idle) (hi : s.iss ≠ none)
    (ha : f.flags.ack = true) (hacc : Accepts rnd f s.node.sock)
    (heq : (processIncoming now rnd f s.node.sock).2 = (s.node.sock.takeAck f).accept now f) :
    txStep s (.incoming now rnd f) = some ⟨⟨(s.node.sock.takeAck f).accept now f, .idle⟩, s.iss, s.stream,
      s.dropped + min (f.ack - s.node.sock.txSeqStart).toNat s.node.sock.txq.getUsed,
      s.units + (f.ack - s.node.sock.txSeqStart).toNat⟩ := by
  have hstep : step s.node (.incoming now rnd f) = some ⟨(s.node.sock.takeAck f).accept now f, .idle⟩ := by
    simp [step, ho, heq]
  simp [txStep, hstep, takeAck_txq, Queue.tail_drop, Event.data, Out.synSent, ackedUnits, ho, hi, ha, hacc,
    -BitVec.toNat_sub]

theorem txStep_send {data : List UInt8} (hs : s.node.sock.state = .established) :
    txStep s (.send data) = some ⟨⟨{ s.node.sock with txq := (s.node.sock.txq.put data data.length).2 }, s.node.out⟩,
      s.iss, s.stream ++ data.take (s.node.sock.txq.put data data.length).1, s.dropped, s.units⟩ := by
  have hsend : (s.node.sock.send data).2 = { s.node.sock with txq := (s.node.sock.txq.put data data.length).2 } := by
    rw [Sock.send, if_neg (not_not.2 hs)]
  have htail : (s.node.sock.txq.put data data.length).2.tail = s.node.sock.txq.tail := rfl
  rw [txStep, step_call s.node (e := .send data) rfl, hsend]
  simp [Event.data, synSent_call s.node.out (e := .send data) rfl, ackedUnits, Queue.head_put, htail, -BitVec.toNat_sub]

theorem early_step (hq : q.getUsed = 0) (hsize : q.size = 1) (h : TxInv q s) (he : Early q s) (hone : OneConnection s e)
    (hs : txStep s e = some s') : Early q s' ∨ ∃ i, Live i s' := by
  obtain ⟨n', hn, hs'⟩ := Option.map_eq_some_iff.1 hs
  -- all steps but the sending of the SYN|ACK
  have hkeep : n'.sock.txq = s.node.sock.txq → s.node.out.synSent e = none →
      Early q { s with node := n' } → Early q s' := by
    intro htxq hsyn hearly
    rw [txStep_keeps hn htxq (by rw [hsyn, Option.or_none]) (Or.inl he.iss)] at hs
    obtain rfl := Option.some.inj hs
    exact hearly
  cases step_cases hn with
  | @incoming now rnd f ho =>
      have hsock := he.sock.processIncoming hq now rnd f
      rw [ho] at hkeep
      exact Or.inl (hkeep (hsock.txq.trans he.sock.txq.symm) rfl (he.idle hsock))
  | quiet ho hquiet =>
      rw [ho] at hkeep
      rcases startOutput_none hquiet with rfl | rfl
      · exact Or.inl (hkeep rfl rfl (he.idle he.sock))
      · exact Or.inl (hkeep rfl rfl (he.idle he.sock.shut))
  | pick ho hp =>
      rw [ho] at hkeep
      obtain ⟨rfl, hf⟩ := startOutput_some hp
      exact Or.inl (hkeep rfl rfl (he.pick h.links hf))
  | build ho => exact Or.inl (hkeep (by simp) (by rw [ho]; rfl) (he.build hq ho))
  | noFrame ho | notSent ho =>
      rw [ho] at hkeep
      exact Or.inl (hkeep rfl rfl (he.idle he.sock))
  | @sent now fr ho =>
      cases hsyn : fr.flags.syn with
      | false =>
          have hnone : s.node.out.synSent (.outSend now true) = none := by simp [ho, Out.synSent, hsyn]
          refine Or.inl (hkeep (by simp) hnone (he.idle ⟨by simpa using he.sock.txq, ?_, by simpa using he.sock.locLink,
            by simpa using hsyn⟩))
          rw [(frameSent_links now fr _).2]
          split
          · simp
          · exact he.sock.state
      | true =>
          obtain rfl := hs'
          have hsock := he.sent hq hsize h.links h.picked ho hsyn now
          refine Or.inr ⟨fr.seq, by simp [he.iss, ho, Out.synSent, hsyn], ?_, liveOut_idle _⟩
          simpa [he.iss, he.stream, he.dropped, he.units, Event.data, -BitVec.toNat_sub] using hsock
  | @call e g hg =>
      have hcase := call_cases s.node.sock hg
      have hconnect : ∀ now rnd ip port, e = .connect now rnd ip port → s.node.sock.state ≠ .closed := by
        rintro now rnd ip port rfl
        exact hone
      have hlisten : ∀ port, e = .listen port → s.node.sock.state ≠ .closed := by
        rintro port rfl
        exact hone
      have hsock := he.sock.call hq hcase hconnect
      refine Or.inl (hkeep (hsock.txq.trans he.sock.txq.symm) (synSent_call _ hg) (he.node hsock ?_ he.fin ?_))
      · exact fun hs => he.listen (hcase.listening hs hlisten)
      · obtain ⟨hstart, hend⟩ := hcase.numbers hconnect
        rw [hstart, hend]
        exact he.frame

theorem live_step {i : U32} (h : TxInv q s) (hv : Live i s) (hone : OneConnection s e) (hg : InOrder s e)
    (hl : Links s'.node.sock) (hs : txStep s e = some s') : Live i s' := by
  obtain ⟨n', hn, hs'⟩ := Option.map_eq_some_iff.1 hs
  -- all steps but an accepted acknowledgement and Send
  have hkeep : n'.sock.txq = s.node.sock.txq → ackedUnits s.node.sock e = 0 →
      (Links n'.sock → Live i { s with node := n' }) → Live i s' := by
    intro htxq hu hlive
    rw [txStep_keeps hn htxq (by rw [hv.iss, Option.some_or]) (Or.inr hu)] at hs
    obtain rfl := Option.some.inj hs
    exact hlive hl
  cases step_cases hn with
  | @incoming now rnd f ho =>
      rcases incoming_winds hv.sock.state now rnd f with ⟨hu, hw⟩ | ⟨ha, hacc, hwin, heq⟩
      · exact hkeep hw.txq hu fun hl => hv.winds hl hw (Or.inl rfl)
      · rw [txStep_acked ho (by simp [hv.iss]) ha hacc heq] at hs
        obtain rfl := Option.some.inj hs
        have hsock := hv.sock.takeAck hwin fun hest => hg ho hacc ha hest (hv.sock.establishing hest).2
        exact ⟨hv.iss, hsock.winds hl (winds_accept now f _), liveOut_idle _⟩
  | quiet ho hq =>
      rcases startOutput_none hq with rfl | rfl
      · exact hkeep rfl rfl fun hl => hv.winds hl (Winds.refl _) (Or.inr rfl)
      · exact hkeep rfl rfl fun hl => hv.winds hl (winds_shut _) (Or.inr rfl)
  | pick ho hp =>
      obtain ⟨rfl, hf⟩ := startOutput_some hp
      exact hkeep rfl rfl fun _ => ⟨hv.iss, hv.sock, liveOut_pick hv.sock hf⟩
  | @build flags ho =>
      have hout : LiveOut s.stream s.dropped s.units ⟨s.node.sock, .alloc flags⟩ := ho ▸ hv.out
      have hroom : flags.fin = true → s.node.sock.txq.getUsed ≤ frameSize := fun hf => hg (by rw [ho]; exact hf)
      refine hkeep (by simp) rfl fun _ => ⟨hv.iss, ?_, hout.build hv.sock hroom⟩
      exact hv.sock.build (hout.syn flags rfl) (hout.fin flags rfl)
  | noFrame ho | notSent ho =>
      exact hkeep rfl rfl fun hl => hv.winds hl (Winds.refl _) (Or.inr rfl)
  | @sent now fr ho =>
      have hw : Winds s.node.sock (s.node.sock.frameSent now fr) :=
        winds_frameSent (fun hest => h.picked hest fr.flags (by rw [ho]; rfl)) now
      exact hkeep hw.txq rfl fun hl => hv.winds hl hw (Or.inr rfl)
  | @call e g hc =>
      rcases (call_cases s.node.sock hc).winds hv.sock.state.1 (by rintro port rfl; exact hone)
        (by rintro now rnd ip port rfl; exact hone) with hw | ⟨data, rfl, hst, heq⟩
      · exact hkeep hw.txq (ackedUnits_call _ hc) fun hl => hv.winds hl hw (Or.inl rfl)
      · rw [txStep_send hst] at hs
        obtain rfl := Option.some.inj hs
        exact ⟨hv.iss, hv.sock.send hst (hg hst), hv.out.send hv.sock hst _ _⟩

theorem txInv_step (hq : q.getUsed = 0) (hsize : q.size = 1) (h : TxInv q s) (hone : OneConnection s e)
    (hg : InOrder s e) (hs : txStep s e = some s') : TxInv q s' := by
  obtain ⟨n', hn, hs'⟩ := Option.map_eq_some_iff.1 hs
  have hnode : s'.node = n' := by rw [← hs']
  have hlinks : Links s'.node.sock := hnode ▸ links_step h.links hn
  have hempty : s.node.sock.state = .establishing → s.node.sock.txq.contents = [] := fun hest => by
    rcases h.phase with he | ⟨i, hv⟩
    · rw [he.sock.txq]
      exact Queue.contents_eq_nil hq
    · rw [hv.sock.contents, (hv.sock.early (hv.sock.establishing hest).1).1, List.drop_nil]
  have hpicked := picked_step h.picked (fun hest => by simp [Queue.peek_eq, hempty hest]) hn
  refine ⟨hlinks, hnode ▸ hpicked, ?_⟩
  rcases h.phase with he | ⟨i, hv⟩
  · exact early_step hq hsize h he hone hs
  · exact Or.inr ⟨i, live_step h hv hone hg hlinks hs⟩

/-- A frame that is sent is numbered right. -/
theorem TxInv.numbered {now : U32} {fr : Frame} (h : TxInv q s) (ho : s.node.out = .send fr) :
    Numbered (s.iss.or (s.node.out.synSent (.outSend now true))) s.stream fr := by
  have hmem : fr.flags ∈ s.node.out.flags := by rw [ho]; rfl
  rcases h.phase with he | ⟨i, hv⟩
  · obtain ⟨hdata, hseq, -⟩ := he.frame fr ho
    rw [he.iss, ho, Option.none_or]
    refine ⟨fun hsyn => ⟨if_pos hsyn, hdata⟩, fun hsyn i hi => ?_, fun _ => hdata, fun hfin => ?_⟩
    · simp [Out.synSent, hsyn] at hi
    · rw [he.fin fr.flags hmem] at hfin
      cases hfin
  · obtain ⟨hseq, hdata, hall⟩ := hv.out.frame fr ho
    have hdropped := hv.sock.dropped
    have hends := hv.sock.ends
    rw [hv.sock.start] at hseq
    rw [hv.iss, Option.some_or]
    refine ⟨fun hsyn => ?_, fun hsyn j hj => ?_, nofun, fun hfin => ⟨i, rfl, ?_⟩⟩
    · have hu := hv.out.syn fr.flags hmem hsyn
      rw [(hv.sock.early hu).1, List.drop_nil] at hdata
      exact ⟨by rw [hseq, hu, adv_zero], List.prefix_nil.1 hdata⟩
    · obtain rfl := Option.some.inj hj
      rcases Nat.eq_zero_or_pos s.units with hu | hu
      · refine ⟨2 ^ 32 - 1, by rw [hseq, hu, adv_succ]; simp [adv], ?_⟩
        simpa [(hv.sock.early hu).1] using hdata
      · have hdrop : s.stream.drop s.dropped = s.stream.drop (s.units - 1) := List.drop_eq_drop_iff.2 (by omega)
        exact ⟨s.units - 1, by rw [hseq, adv_succ, Nat.sub_add_cancel hu], hdrop ▸ hdata⟩
    · obtain ⟨hu, hu'⟩ := hv.sock.closing (hv.out.fin fr.flags hmem hfin)
      rw [hseq, hall hfin, List.length_drop, adv_adv, adv_succ]
      congr 1
      omega

theorem TxInv.transmitted (h : TxInv q s) (h' : TxInv q s') (hs : txStep s e = some s') : Transmitted s e s' := by
  refine ⟨fun now fr he ho => ?_, ?_⟩
  · obtain ⟨n', hn, rfl⟩ := Option.map_eq_some_iff.1 hs
    subst he
    have hnum : Numbered (s.iss.or (s.node.out.synSent (.outSend now true))) s.stream fr := h.numbered ho
    simpa [Event.data] using hnum
  · rcases h'.phase with he | ⟨i, hv⟩
    · rw [he.dropped]
      exact Nat.zero_le _
    · exact Nat.le_of_eq hv.sock.dropped

end Runs

/-- The state right after `TCPIPTcpSock_Listen` on the port. -/
def listening (s : Sock) (port : Port) : TxState := ⟨⟨s.listen port, .idle⟩, none, [], 0, 0⟩

/-- **The transmit stream is intact** along every run of a connection accepted by a listening socket, as long as each
step is in order. -/
theorem transmitted_of_run (s : Sock) (port : Port) (es : List Event) (hs : s.state = .closed ∨ s.state = .listen)
    (hp : port ≠ 0) (hsize : s.txq.size = 1) (hone : Meets txStep OneConnection (listening s port) es)
    (hg : Meets txStep InOrder (listening s port) es) : Along txStep Transmitted (listening s port) es := by
  have hlisten : s.listen port = { s.renew with locPort := port, state := .listen } := by
    rw [Sock.listen, if_neg (not_and_or.2 (hs.imp not_not.2 not_not.2)), if_neg hp]
    rfl
  have hq : (s.txq.drop s.txq.getUsed).2.getUsed = 0 := by simp [Queue.getUsed_drop]
  have hstart : TxInv (s.txq.drop s.txq.getUsed).2 (listening s port) := by
    refine ⟨?_, fun _ fl hfl => ?_, Or.inl ⟨?_, rfl, rfl, rfl, rfl, fun _ => rfl, fun fl hfl => ?_, fun fr hfr => ?_⟩⟩
    · rw [listening, hlisten]
      constructor <;> simp [Sock.renew]
    · cases hfl
    · rw [listening, hlisten]
      exact ⟨rfl, by simp, rfl, rfl⟩
    · cases hfl
    · cases hfr
  refine along_of_meets (I := TxInv _) (fun s e s' h hg hs => ?_) hstart (hone.and hg)
  have h' := txInv_step hq hsize h hg.1 hg.2 hs
  exact ⟨h', h.transmitted h' hs⟩

instance (s : TxState) : ∀ e, Decidable (OneConnection s e)
  | .listen _ | .connect .. => inferInstanceAs (Decidable (s.node.sock.state ≠ .closed))
  | .incoming .. | .outStart _ | .outAlloc _ | .outSend .. | .listenPoll _ | .connectPoll _ | .recv _ | .send _
  | .close .. | .closeFlush .. | .closeWait _ | .reset => isTrue trivial

instance (q : Queue UInt8) (n : Nat) : Decidable (q.Fits n) := inferInstanceAs (Decidable (_ ∨ _))

instance (s : TxState) : ∀ e, Decidable (InOrder s e)
  | .incoming _ rnd f => inferInstanceAs (Decidable (s.node.out = .idle → Accepts rnd f s.node.sock → _))
  | .outAlloc true => inferInstanceAs (Decidable (s.node.out.picksFin = true → _))
  | .send data => inferInstanceAs (Decidable (s.node.sock.state = .established → s.node.sock.txq.Fits data.length))
  | .outAlloc false | .outStart _ | .outSend .. | .listen _ | .listenPoll _ | .connect .. | .connectPoll _ | .recv _
  | .close .. | .closeFlush .. | .closeWait _ | .reset => isTrue trivial

/-- The SYN of the peer of `toPort80`, and our SYN|ACK with number 7. -/
def handshake : List Event :=
  [.incoming 0 7 (toPort80 { syn := true }), .outStart 0, .outAlloc true, .outSend 0 true]

/-- The SYN|ACK is acknowledged, two bytes are sent, and then the connection is closed. -/
def sendAndClose : List Event :=
  [.incoming 0 0 { toPort80 { ack := true } with seq := 1, ack := 8 }, .send [1, 2], .outStart 1, .outAlloc true,
    .outSend 1 true, .incoming 1 0 { toPort80 { ack := true } with seq := 1, ack := 10 }, .close 1 false, .outStart 1,
    .outAlloc true, .outSend 1 true]

theorem transmitted_of_run_two :
    (∀ s ∈ run txStep (listening listener 80) (handshake ++ sendAndClose),
      s.iss = some 7 ∧ s.stream = [1, 2] ∧ s.dropped = 2 ∧ s.units = 3) ∧
    Along txStep Transmitted (listening listener 80) (handshake ++ sendAndClose) :=
  ⟨by decide, transmitted_of_run listener 80 _ (by decide) (by decide) (by decide) (by decide) (by decide)⟩

/-- An acknowledgement with the number of our SYN|ACK itself establishes the connection: the first byte of the stream is
then sent with that number. -/
theorem data_numbered_as_syn :
    ¬ ∀ (s : Sock) (port : Port) (es : List Event), s.state = .closed ∨ s.state = .listen → port ≠ 0 → s.txq.size = 1 →
      Meets txStep OneConnection (listening s port) es → Along txStep Transmitted (listening s port) es := by
  intro h
  have hrun := h listener 80 (handshake ++ [.incoming 0 0 { toPort80 { ack := true } with seq := 1, ack := 7 },
    .send [1], .outStart 1000, .outAlloc true] ++ [.outSend 1000 true]) (by decide) (by decide) (by decide) (by decide)
  obtain ⟨off, hseq, hdata⟩ := ((hrun.last rfl rfl).frame 1000 _ rfl rfl).slice rfl 7 rfl
  have hdata : [1] <+: ([1] : List UInt8).drop off := hdata
  have hseq : (7 : U32) = adv 8 off := hseq
  cases off with
  | zero => exact absurd hseq (by decide)
  | succ off => simp at hdata

end YieldStm32.Tcp
