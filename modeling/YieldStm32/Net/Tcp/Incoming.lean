import YieldStm32.Net.Tcp.Sock

/-!
# What an incoming segment does to a socket

`Outcome` lists every way through `TCPIPTcpSock_ProcessIncoming`; the results about it are read off this list.

* `rejected_untouched_iff` : exactly when a rejected segment leaves the socket as it was;
* `isolated_iff` : exactly when a segment for one connection changes no other socket of the table.
-/

namespace YieldStm32.Tcp

open Counter

/-- The ways through `TCPIPTcpSock_ProcessIncoming`. -/
inductive Outcome (now rnd : U32) (f : Segment) (s : Sock) : Err × Sock → Prop
  | unmatched (hm : ¬ s.Matches f) : Outcome now rnd f s (.efatal, s)
  | reset (hm : s.Matches f) (hr : f.flags.rst = true) (ha : f.flags.syn = true ∨ f.flags.ack = true) :
      Outcome now rnd f s (.efatal, { s with state := .closed })
  | resetOk (hm : s.Matches f) (hr : f.flags.rst = true) (hs : f.flags.syn = false) (ha : f.flags.ack = false) :
      Outcome now rnd f s (.eok, { s with state := .closed }.accept now f)
  | refused (hm : s.Matches f) (hr : f.flags.rst = false) (hs : f.flags.syn = true) (ht : ¬ s.TakesSyn f) :
      Outcome now rnd f s (.efatal, s)
  | syn (hm : s.Matches f) (hr : f.flags.rst = false) (hs : f.flags.syn = true) (ht : s.state = .listen)
      (ha : f.flags.ack = false) :
      Outcome now rnd f s (.eok, (s.synchronize now rnd f).accept now f)
  | synBadAck (hm : s.Matches f) (hr : f.flags.rst = false) (hs : f.flags.syn = true)
      (ht : s.state = .listen ∨ s.state = .connect) (ha : f.flags.ack = true)
      (hw : ¬ f.ack - rnd ≤ s.txSeqEnd - rnd) :
      Outcome now rnd f s (.efatal, s.synchronize now rnd f)
  | synAck (hm : s.Matches f) (hr : f.flags.rst = false) (hs : f.flags.syn = true)
      (ht : s.state = .listen ∨ s.state = .connect) (ha : f.flags.ack = true)
      (hw : f.ack - rnd ≤ s.txSeqEnd - rnd) :
      Outcome now rnd f s (.eok, ((s.synchronize now rnd f).takeAck f).accept now f)
  | badAck (hm : s.Matches f) (hr : f.flags.rst = false) (hs : f.flags.syn = false) (ha : f.flags.ack = true)
      (hw : s.state = .listen ∨ ¬ s.InWindow f.ack) :
      Outcome now rnd f s (.efatal, s)
  | ack (hm : s.Matches f) (hr : f.flags.rst = false) (hs : f.flags.syn = false) (ha : f.flags.ack = true)
      (ht : s.state ≠ .listen) (hw : s.InWindow f.ack) :
      Outcome now rnd f s (.eok, (s.takeAck f).accept now f)
  | plain (hm : s.Matches f) (hr : f.flags.rst = false) (hs : f.flags.syn = false) (ha : f.flags.ack = false) :
      Outcome now rnd f s (.eok, s.accept now f)

theorem synchronize_inWindow (now rnd : U32) (f : Segment) (s : Sock) :
    (s.synchronize now rnd f).InWindow f.ack ↔ f.ack - rnd ≤ s.txSeqEnd - rnd := by
  simp [Sock.InWindow]

/-- The list is complete. -/
theorem processIncoming_outcome (now rnd : U32) (f : Segment) (s : Sock) :
    Outcome now rnd f s (processIncoming now rnd f s) := by
  unfold processIncoming
  by_cases hm : s.Matches f
  case neg =>
    rw [if_pos hm]
    exact .unmatched hm
  rw [if_neg (not_not.2 hm)]
  by_cases hr : f.flags.rst = true
  · -- a reset closes the socket first, which then takes neither a SYN nor an ACK
    simp only [hr, if_true]
    by_cases hs : f.flags.syn = true
    · rw [if_pos hs, if_pos (by simp [Sock.TakesSyn])]
      exact .reset hm hr (Or.inl hs)
    · rw [if_neg hs, processAck]
      by_cases ha : f.flags.ack = true
      · rw [if_pos ha, if_pos (Or.inl rfl)]
        exact .reset hm hr (Or.inr ha)
      · rw [if_neg ha]
        exact .resetOk hm hr (Bool.eq_false_iff.2 hs) (Bool.eq_false_iff.2 ha)
  · have hr' := Bool.eq_false_iff.2 hr
    simp only [hr', Bool.false_eq_true, if_false]
    by_cases hs : f.flags.syn = true
    · rw [if_pos hs]
      by_cases ht : s.TakesSyn f
      · rw [if_neg (not_not.2 ht), processAck]
        have hstate : ¬ ((s.synchronize now rnd f).state = .closed ∨ (s.synchronize now rnd f).state = .listen) := by
          simp only [synchronize_sets]
          split <;> simp
        by_cases ha : f.flags.ack = true
        · have ht' : s.state = .listen ∨ s.state = .connect := ht.imp_right And.left
          simp only [ha, if_true, if_neg hstate, synchronize_inWindow]
          by_cases hw : f.ack - rnd ≤ s.txSeqEnd - rnd
          · rw [if_neg (not_not.2 hw)]
            exact .synAck hm hr' hs ht' ha hw
          · rw [if_pos hw]
            exact .synBadAck hm hr' hs ht' ha hw
        · rw [if_neg ha]
          exact .syn hm hr' hs (ht.resolve_right fun h => ha h.2) (Bool.eq_false_iff.2 ha)
      · rw [if_pos ht]
        exact .refused hm hr' hs ht
    · have hs' := Bool.eq_false_iff.2 hs
      rw [if_neg hs, processAck]
      by_cases ha : f.flags.ack = true
      · rw [if_pos ha]
        by_cases hl : s.state = .listen
        · rw [if_pos (Or.inr hl)]
          exact .badAck hm hr' hs' ha (Or.inl hl)
        · rw [if_neg (not_or.2 ⟨hm.2.1, hl⟩)]
          by_cases hw : s.InWindow f.ack
          · rw [if_neg (not_not.2 hw)]
            exact .ack hm hr' hs' ha hl hw
          · rw [if_pos hw]
            exact .badAck hm hr' hs' ha (Or.inr hw)
      · rw [if_neg ha]
        exact .plain hm hr' hs' (Bool.eq_false_iff.2 ha)

/-! ## Rejected segments -/

/-- The segment is rejected only after the socket was changed: a reset that also carries SYN or ACK, or an answer to a
SYN that acknowledges what was not sent. -/
def PartlyHandled (rnd : U32) (f : Segment) (s : Sock) : Prop :=
  s.Matches f ∧
    (f.flags.rst = true ∧ (f.flags.syn = true ∨ f.flags.ack = true) ∨
      f.flags.rst = false ∧ f.flags.syn = true ∧ f.flags.ack = true ∧ (s.state = .listen ∨ s.state = .connect) ∧
        ¬ f.ack - rnd ≤ s.txSeqEnd - rnd)

theorem synchronize_ne (now rnd : U32) (f : Segment) {s : Sock} (ht : s.state = .listen ∨ s.state = .connect) :
    s.synchronize now rnd f ≠ s := by
  intro h
  have hstate := congrArg Sock.state h
  rcases ht with ht | ht <;> simp [ht] at hstate

theorem close_ne {f : Segment} {s : Sock} (hm : s.Matches f) : { s with state := .closed } ≠ s := fun h =>
  hm.2.1 (congrArg Sock.state h).symm

/-- **A rejected segment leaves the socket untouched** exactly when it is not one of those rejected half-way. -/
theorem rejected_untouched_iff (now rnd : U32) (f : Segment) (s : Sock) :
    ((processIncoming now rnd f s).1 = .efatal → (processIncoming now rnd f s).2 = s) ↔ ¬ PartlyHandled rnd f s := by
  have h := processIncoming_outcome now rnd f s
  generalize processIncoming now rnd f s = out at h
  cases h with
  | unmatched hm => simp [PartlyHandled, hm]
  | reset hm hr ha => simp [PartlyHandled, hm, hr, ha, close_ne hm]
  | resetOk hm hr hs ha => simp [PartlyHandled, hr, hs, ha]
  | refused hm hr hs ht =>
      refine iff_of_true (fun _ => rfl) ?_
      rintro ⟨-, ⟨hr', -⟩ | ⟨-, -, ha, ht', -⟩⟩
      · rw [hr] at hr'
        cases hr'
      · exact ht (ht'.imp_right fun hc => ⟨hc, ha⟩)
  | syn hm hr hs ht ha => simp [PartlyHandled, hr, ha]
  | synBadAck hm hr hs ht ha hw => simp [PartlyHandled, hm, hr, hs, ha, ht, hw, synchronize_ne now rnd f ht]
  | synAck hm hr hs ht ha hw => simp [PartlyHandled, hr, hw]
  | badAck hm hr hs ha hw => simp [PartlyHandled, hr, hs]
  | ack hm hr hs ha ht hw => simp [PartlyHandled, hr, hs]
  | plain hm hr hs ha => simp [PartlyHandled, hr, hs]

theorem eight_pos : 0 < 8 := by decide

/-- A queue of eight bytes. -/
def smallQueue : Queue UInt8 := .create 1 8 (fun _ => 0) (by decide) eight_pos (by decide) (by decide)

/-- A socket that listens on port 80. -/
def listener : Sock := { Sock.create smallQueue smallQueue with state := .listen, locPort := 80 }

/-- A segment to port 80. -/
def toPort80 (flags : Flags) : Segment := ⟨0x0a000001, 1024, 80, 0, 0, 0, flags, []⟩

/-- RST|ACK to a listening socket is rejected, but the socket is closed. -/
theorem rejected_closes :
    ¬ ∀ (now rnd : U32) (f : Segment) (s : Sock),
      (processIncoming now rnd f s).1 = .efatal → (processIncoming now rnd f s).2 = s := by
  intro h
  have hstate := congrArg Sock.state (h 0 0 (toPort80 { rst := true, ack := true }) listener (by decide))
  exact absurd hstate (by decide)

/-! ## Isolation of connections -/

/-- The segment is rejected neither by the flags nor by the acknowledgement number. -/
def Accepts (rnd : U32) (f : Segment) (s : Sock) : Prop :=
  s.Matches f ∧
    if f.flags.rst then f.flags.syn = false ∧ f.flags.ack = false
    else if f.flags.syn then s.TakesSyn f ∧ (f.flags.ack = true → f.ack - rnd ≤ s.txSeqEnd - rnd)
    else f.flags.ack = true → s.state ≠ .listen ∧ s.InWindow f.ack

instance (rnd : U32) (f : Segment) (s : Sock) : Decidable (Accepts rnd f s) := by
  unfold Accepts
  infer_instance

theorem accepts_iff (now rnd : U32) (f : Segment) (s : Sock) :
    (processIncoming now rnd f s).1 = .eok ↔ Accepts rnd f s := by
  have h := processIncoming_outcome now rnd f s
  generalize processIncoming now rnd f s = out at h
  cases h with
  | unmatched hm => simp [Accepts, hm]
  | reset hm hr ha =>
      rcases ha with ha | ha <;> simp [Accepts, hr, ha]
  | resetOk hm hr hs ha => simp [Accepts, hm, hr, hs, ha]
  | refused hm hr hs ht => simp [Accepts, hr, hs, ht]
  | syn hm hr hs ht ha => simp [Accepts, hm, hr, hs, ha, Sock.TakesSyn, ht]
  | synBadAck hm hr hs ht ha hw => simp [Accepts, hr, hs, ha, hw]
  | synAck hm hr hs ht ha hw => simp [Accepts, hm, hr, hs, ha, hw, Sock.TakesSyn, ht]
  | badAck hm hr hs ha hw =>
      simp only [Accepts, hr, hs, ha, Bool.false_eq_true, if_false, true_imp_iff]
      refine iff_of_false nofun fun h => ?_
      rcases hw with hw | hw
      · exact h.2.1 hw
      · exact hw h.2.2
  | ack hm hr hs ha ht hw => simp [Accepts, hm, hr, hs, ht, hw]
  | plain hm hr hs ha => simp [Accepts, hm, hr, hs, ha]

/-- Data that change nothing: none in sequence, or a number acknowledged again already. -/
def RecvIdle (f : Segment) (s : Sock) : Prop :=
  if f.seq = s.rxSeqRecvd then f.flags.special = false ∧ (f.data = [] ∨ s.rxq.getFree = 0) else s.rxSeqAcked = f.seq

/-- An accepted acknowledgement that says nothing new. -/
structure AckIdle (f : Segment) (s : Sock) : Prop where
  state : ¬ (s.state = .establishing ∧ s.txFlags = .synAck)
  link : s.locLink ≠ .closing
  recv : RecvIdle f s
  acked : f.ack = s.txSeqStart
  retr : s.txSeqStart = s.txSeqEnd → s.txRetrCnt = 0

/-- A FIN that says nothing new. -/
structure FinIdle (now : U32) (s : Sock) : Prop where
  state : s.state = .closing
  remLink : s.remLink = .closing
  locLink : s.locLink ≠ .opened
  ts : s.synFinTs = now

theorem accept_eq_self_iff (now : U32) (f : Segment) (s : Sock) :
    s.accept now f = s ↔ s.rxFlags = f.flags ∧ (f.flags.fin = true → FinIdle now s) := by
  constructor
  · intro h
    refine ⟨(congrArg Sock.rxFlags h).symm, fun hfin => ?_⟩
    rw [Sock.accept, Sock.takeFin, if_pos hfin] at h
    refine ⟨(congrArg Sock.state h).symm, (congrArg Sock.remLink h).symm, fun hopen => ?_,
      (congrArg Sock.synFinTs h).symm⟩
    have hlink := congrArg Sock.locLink h
    simp [hopen] at hlink
  · rintro ⟨hf, hfin⟩
    rw [Sock.accept, Sock.takeFin]
    split
    · obtain ⟨h1, h2, h3, h4⟩ := hfin ‹_›
      rw [if_neg h3, ← h1, ← h2, ← h4, ← hf]
    · rw [← hf]

theorem stored_le (q : Queue UInt8) (xs : List UInt8) : (q.put xs xs.length).1 ≤ 2 ^ 31 := by
  have h1 := q.count_le
  have h2 : (q.put xs xs.length).1 ≤ q.count - q.getUsed := Nat.min_le_right ..
  omega

/-- What `receive` makes of the received number. -/
theorem receive_rxSeqRecvd (f : Segment) (s : Sock) :
    (s.receive f).rxSeqRecvd =
      if f.seq = s.rxSeqRecvd then
        adv s.rxSeqRecvd ((if f.flags.special then 1 else 0) + (s.rxq.put f.data f.data.length).1)
      else s.rxSeqRecvd := by
  unfold Sock.receive
  split
  · rw [← adv_adv]
    cases f.flags.special <;> simp [adv]
  · rfl

/-- An accepted segment out of sequence brings nothing. -/
theorem receive_out {f : Segment} {s : Sock} (hseq : f.seq ≠ s.rxSeqRecvd) :
    (s.receive f).rxSeqRecvd = s.rxSeqRecvd ∧ (s.receive f).rxq = s.rxq := by
  rw [Sock.receive, if_neg hseq]
  exact ⟨rfl, rfl⟩

theorem receive_in {f : Segment} {s : Sock} (hseq : f.seq = s.rxSeqRecvd) (hs : f.flags.syn = false) :
    (s.receive f).rxSeqRecvd =
        adv s.rxSeqRecvd ((if f.flags.fin then 1 else 0) + (s.rxq.put f.data f.data.length).1) ∧
      (s.receive f).rxq = (s.rxq.put f.data f.data.length).2 := by
  rw [receive_rxSeqRecvd, if_pos hseq, Sock.receive, if_pos hseq]
  simp [Flags.special, hs]

/-- The receive side after an accepted acknowledgement. -/
theorem takeAck_rx (now : U32) (f : Segment) (s : Sock) :
    ((s.takeAck f).accept now f).rxSeqRecvd = (s.receive f).rxSeqRecvd ∧
      ((s.takeAck f).accept now f).rxq = (s.receive f).rxq := by
  have h : ∀ t : Sock, t.rxSeqRecvd = s.rxSeqRecvd → t.rxq = s.rxq →
      (t.receive f).rxSeqRecvd = (s.receive f).rxSeqRecvd ∧ (t.receive f).rxq = (s.receive f).rxq := by
    intro t hr hq
    unfold Sock.receive
    rw [hr, hq]
    split <;> exact ⟨by simp_all, by simp_all⟩
  simpa [Sock.takeAck] using h s.establish.lastAck (by simp) (by simp)

theorem adv_eq_self_iff {a : U32} {n : Nat} (h : n < 2 ^ 32) : adv a n = a ↔ n = 0 := by
  unfold adv
  constructor
  · intro h'
    bv_omega
  · rintro rfl
    simp

theorem recvIdle_of_receive {f : Segment} {s : Sock} (hr : (s.receive f).rxSeqRecvd = s.rxSeqRecvd)
    (ha : (s.receive f).rxSeqAcked = s.rxSeqAcked) : RecvIdle f s := by
  have hle := stored_le s.rxq f.data
  unfold RecvIdle
  split
  · rename_i hseq
    rw [receive_rxSeqRecvd, if_pos hseq, adv_eq_self_iff (by split <;> omega)] at hr
    obtain ⟨hsp, hstored⟩ := Nat.add_eq_zero_iff.1 hr
    refine ⟨by simpa using hsp, ?_⟩
    have hmin : min f.data.length s.rxq.getFree = 0 := hstored
    rcases Nat.min_eq_zero_iff.1 hmin with h | h
    · exact Or.inl (List.length_eq_zero_iff.1 h)
    · exact Or.inr h
  · rename_i hseq
    rw [Sock.receive, if_neg hseq] at ha
    exact ha.symm

theorem RecvIdle.receive {f : Segment} {s : Sock} (h : RecvIdle f s) : s.receive f = s := by
  unfold RecvIdle at h
  unfold Sock.receive
  split
  · rename_i hseq
    rw [if_pos hseq] at h
    have hmin : min f.data.length s.rxq.getFree = 0 := by
      rcases h.2 with h | h <;> simp [h]
    have hstored : (s.rxq.put f.data f.data.length).1 = 0 := hmin
    simp [h.1, hstored, Queue.put_zero hmin]
  · rename_i hseq
    rw [if_neg hseq] at h
    rw [← h]

theorem AckIdle.takeAck {f : Segment} {s : Sock} (h : AckIdle f s) : s.takeAck f = s := by
  have hretr : (if s.txSeqStart = s.txSeqEnd then 0 else s.txRetrCnt) = s.txRetrCnt := by
    split
    · exact (h.retr ‹_›).symm
    · rfl
  rw [Sock.takeAck, Sock.establish, if_neg h.state, Sock.lastAck, if_neg h.link, h.recv.receive, Sock.acknowledge,
    h.acked, BitVec.sub_self, BitVec.add_zero, hretr, BitVec.toNat_zero, Queue.drop_zero]

theorem takeAck_eq_self_iff (now : U32) (f : Segment) (s : Sock) :
    (s.takeAck f).accept now f = s ↔ AckIdle f s ∧ s.rxFlags = f.flags ∧ (f.flags.fin = true → FinIdle now s) := by
  constructor
  · intro h
    have hstate := congrArg Sock.state h
    have hlink := congrArg Sock.locLink h
    simp only [Sock.takeAck, accept_links, acknowledge_keeps, receive_keeps] at hstate hlink
    -- establishing, or closing the local link, shows in the state or in the link
    have hest : ¬ (s.state = .establishing ∧ s.txFlags = .synAck) := by
      intro hc
      have hnew : s.establish.lastAck.state = .established := by
        rw [Sock.establish, if_pos hc, Sock.lastAck, if_neg (fun h => by cases h)]
      rw [hnew, hc.1] at hstate
      split at hstate <;> cases hstate
    rw [Sock.establish, if_neg hest] at hlink
    have hclosing : s.locLink ≠ .closing := by
      intro hc
      rw [Sock.lastAck, if_pos hc, hc] at hlink
      simp at hlink
    have heq : s.takeAck f = (s.receive f).acknowledge f := by
      rw [Sock.takeAck, Sock.establish, if_neg hest, Sock.lastAck, if_neg hclosing]
    rw [heq] at h
    have hack : f.ack = s.txSeqStart := by simpa using congrArg Sock.txSeqStart h
    have hidle : AckIdle f s := by
      refine ⟨hest, hclosing, recvIdle_of_receive ?_ ?_, hack, fun hend => ?_⟩
      · simpa using congrArg Sock.rxSeqRecvd h
      · simpa using congrArg Sock.rxSeqAcked h
      · have hcnt := congrArg Sock.txRetrCnt h
        simp [Sock.acknowledge, hack, hend] at hcnt
        exact hcnt.symm
    rw [← heq, hidle.takeAck] at h
    exact ⟨hidle, (accept_eq_self_iff now f s).1 h⟩
  · rintro ⟨hidle, hrest⟩
    rw [hidle.takeAck]
    exact (accept_eq_self_iff now f s).2 hrest

theorem takeAck_state (f : Segment) (s : Sock) :
    (s.takeAck f).state = s.state ∨ (s.takeAck f).state = .established ∨ (s.takeAck f).state = .closed := by
  have hest : s.establish.state = s.state ∨ s.establish.state = .established := by
    unfold Sock.establish
    split <;> simp
  have hlast : s.establish.lastAck.state = s.establish.state ∨ s.establish.lastAck.state = .closed := by
    unfold Sock.lastAck
    split
    · by_cases h : s.establish.remLink = .closed <;> simp [h]
    · exact Or.inl rfl
  simp only [Sock.takeAck, acknowledge_keeps, receive_keeps]
  rcases hlast with h | h
  · rw [h]
    exact hest.imp_right Or.inl
  · exact Or.inr (Or.inr h)

/-- The segment changes nothing: it is not for this socket, it is rejected at once, or all it says is known. -/
def Ignores (now : U32) (f : Segment) (s : Sock) : Prop :=
  ¬ s.Matches f ∨
    if f.flags.rst then
      f.flags.syn = false ∧ f.flags.ack = false ∧ f.flags.fin = true ∧ FinIdle now s ∧ s.rxFlags = f.flags
    else if f.flags.syn then ¬ s.TakesSyn f
    else if f.flags.ack then
      s.state = .listen ∨ ¬ s.InWindow f.ack ∨ AckIdle f s ∧ s.rxFlags = f.flags ∧ (f.flags.fin = true → FinIdle now s)
    else s.rxFlags = f.flags ∧ (f.flags.fin = true → FinIdle now s)

/-- A socket that was listening or connecting is in another state after a SYN. -/
theorem accept_syn_ne {now : U32} {f : Segment} {s s' : Sock} (ht : s.state = .listen ∨ s.state = .connect)
    (hs : s'.state ≠ .listen ∧ s'.state ≠ .connect) : s'.accept now f ≠ s := by
  intro h
  have hstate := congrArg Sock.state h
  rw [(accept_links now f s').1] at hstate
  split at hstate
  · rcases ht with ht | ht <;> simp [ht] at hstate
  · rw [hstate] at hs
    exact ht.elim hs.1 hs.2

/-- A reset with FIN closes the socket and puts it back to closing. -/
theorem reset_eq_self_iff {now : U32} {f : Segment} {s : Sock} (hm : s.Matches f) :
    { s with state := .closed }.accept now f = s ↔
      f.flags.fin = true ∧ FinIdle now s ∧ s.rxFlags = f.flags := by
  by_cases hfin : f.flags.fin = true
  · have heq : { s with state := .closed }.accept now f = s.accept now f := by
      simp [Sock.accept, Sock.takeFin, hfin]
    rw [heq, accept_eq_self_iff]
    simp [hfin, and_comm]
  · refine iff_of_false (fun h => ?_) fun h => hfin h.1
    have hstate := congrArg Sock.state h
    rw [(accept_links now f _).1, if_neg hfin] at hstate
    exact hm.2.1 hstate.symm

theorem unchanged_iff (now rnd : U32) (f : Segment) (s : Sock) :
    (processIncoming now rnd f s).2 = s ↔ Ignores now f s := by
  have h := processIncoming_outcome now rnd f s
  generalize processIncoming now rnd f s = out at h
  have hsync : (s.synchronize now rnd f).state ≠ .listen ∧ (s.synchronize now rnd f).state ≠ .connect := by
    simp only [synchronize_sets]
    split <;> simp
  cases h with
  | unmatched hm => simp [Ignores, hm]
  | reset hm hr ha =>
      rcases ha with ha | ha <;> simp [Ignores, hm, hr, ha, close_ne hm]
  | resetOk hm hr hs ha =>
      simp only [Ignores, hm, hr, hs, ha, not_true_eq_false, false_or, if_true, true_and]
      rw [reset_eq_self_iff hm]
  | refused hm hr hs ht => simp [Ignores, hr, hs, ht]
  | syn hm hr hs ht ha =>
      simp [Ignores, hm, hr, hs, Sock.TakesSyn, ht, accept_syn_ne (Or.inl ht) hsync]
  | synBadAck hm hr hs ht ha hw => simp [Ignores, hm, hr, hs, ha, Sock.TakesSyn, ht, synchronize_ne now rnd f ht]
  | synAck hm hr hs ht ha hw =>
      have hstate : ((s.synchronize now rnd f).takeAck f).state ≠ .listen ∧
          ((s.synchronize now rnd f).takeAck f).state ≠ .connect := by
        rcases takeAck_state f (s.synchronize now rnd f) with h | h | h
        · rw [h]
          exact hsync
        · simp [h]
        · simp [h]
      simp [Ignores, hm, hr, hs, ha, Sock.TakesSyn, ht, accept_syn_ne ht hstate]
  | badAck hm hr hs ha hw =>
      rcases hw with hw | hw <;> simp [Ignores, hr, hs, ha, hw]
  | ack hm hr hs ha ht hw => simp [Ignores, hm, hr, hs, ha, ht, hw, takeAck_eq_self_iff]
  | plain hm hr hs ha => simp [Ignores, hm, hr, hs, ha, accept_eq_self_iff]

/-- The segment is offered to socket `j`: none before it accepts. -/
def Reached (rnd : Nat → U32) (f : Segment) (socks : List Sock) (j : Nat) : Prop :=
  ∀ k u, k < j → socks[k]? = some u → ¬ Accepts (rnd k) f u

theorem reached_zero (rnd : Nat → U32) (f : Segment) (socks : List Sock) : Reached rnd f socks 0 := fun _ _ h =>
  absurd h (Nat.not_lt_zero _)

theorem reached_succ (rnd : Nat → U32) (f : Segment) (s : Sock) (socks : List Sock) (j : Nat) :
    Reached rnd f (s :: socks) (j + 1) ↔ ¬ Accepts (rnd 0) f s ∧ Reached (fun i => rnd (i + 1)) f socks j := by
  constructor
  · intro h
    exact ⟨h 0 s (Nat.succ_pos j) rfl, fun k u hk hu => h (k + 1) u (Nat.succ_lt_succ hk) hu⟩
  · rintro ⟨h0, h⟩ k u hk hu
    cases k with
    | zero =>
        obtain rfl := Option.some.inj hu
        exact h0
    | succ k => exact h k u (Nat.lt_of_succ_lt_succ hk) hu

/-- Each socket reached is processed; the others stay. -/
theorem input_spec (now : U32) (f : Segment) (socks : List Sock) (rnd : Nat → U32) (j : Nat) :
    (Reached rnd f socks j →
      (input now rnd f socks).2[j]? = socks[j]?.map fun t => (processIncoming now (rnd j) f t).2) ∧
    (¬ Reached rnd f socks j → (input now rnd f socks).2[j]? = socks[j]?) := by
  induction socks generalizing rnd j with
  | nil => simp [input]
  | cons s socks ih =>
      have hacc := accepts_iff now (rnd 0) f s
      rw [input]
      split
      · rename_i s' heq
        rw [heq] at hacc
        cases j with
        | zero => simp [heq, reached_zero]
        | succ j =>
            have hnot : ¬ Reached rnd f (s :: socks) (j + 1) := fun h =>
              ((reached_succ rnd f s socks j).1 h).1 (hacc.1 rfl)
            simp [hnot]
      · rename_i s' heq
        rw [heq] at hacc
        cases j with
        | zero => simp [heq, reached_zero]
        | succ j =>
            have hrej : ¬ Accepts (rnd 0) f s := fun h => by simpa using hacc.2 h
            rw [reached_succ]
            simpa [hrej] using ih (fun i => rnd (i + 1)) j

/-- A segment leaves the whole table as it was exactly when every socket it is offered to ignores it. -/
theorem input_eq_self_iff (now : U32) (rnd : Nat → U32) (f : Segment) (socks : List Sock) :
    (input now rnd f socks).2 = socks ↔
      ∀ (j : Nat) (t : Sock), socks[j]? = some t → Reached rnd f socks j → Ignores now f t := by
  constructor
  · intro h j t ht hreach
    have heq := (input_spec now f socks rnd j).1 hreach
    rw [h, ht, Option.map_some, Option.some.injEq, eq_comm, unchanged_iff] at heq
    exact heq
  · intro h
    refine List.ext_getElem? fun j => ?_
    by_cases hreach : Reached rnd f socks j
    · rw [(input_spec now f socks rnd j).1 hreach]
      cases ht : socks[j]? with
      | none => rfl
      | some t => rw [Option.map_some, (unchanged_iff now (rnd j) f t).2 (h j t ht hreach)]
    · exact (input_spec now f socks rnd j).2 hreach

/-- The connection the segment belongs to. -/
def Connected (f : Segment) (s : Sock) : Prop :=
  s.state ≠ .free ∧ s.state ≠ .closed ∧ s.state ≠ .listen ∧ s.locPort = f.dstPort ∧ s.remPort = f.srcPort ∧
    s.addr = f.srcIp

instance (f : Segment) (s : Sock) : Decidable (Connected f s) := inferInstanceAs (Decidable (_ ∧ _))

/-- Where a socket of the table is the segment's connection, all others stay as they are. -/
def Isolated (now : U32) (rnd : Nat → U32) (f : Segment) (socks : List Sock) : Prop :=
  ∀ (i : Nat) (s : Sock), socks[i]? = some s → Connected f s →
    ∀ j : Nat, j ≠ i → (input now rnd f socks).2[j]? = socks[j]?

/-- **Demultiplexing is isolated** exactly when every other socket that the segment is offered to ignores it. -/
theorem isolated_iff (now : U32) (rnd : Nat → U32) (f : Segment) (socks : List Sock) :
    Isolated now rnd f socks ↔
      ∀ (i : Nat) (s : Sock), socks[i]? = some s → Connected f s →
        ∀ (j : Nat) (t : Sock), j ≠ i → socks[j]? = some t → Reached rnd f socks j → Ignores now f t := by
  constructor
  · intro h i s hs hc j t hj ht hreach
    have heq := h i s hs hc j hj
    rw [(input_spec now f socks rnd j).1 hreach, ht, Option.map_some, Option.some.injEq, unchanged_iff] at heq
    exact heq
  · intro h i s hs hc j hj
    by_cases hreach : Reached rnd f socks j
    · rw [(input_spec now f socks rnd j).1 hreach]
      cases ht : socks[j]? with
      | none => rfl
      | some t =>
          rw [Option.map_some, (unchanged_iff now (rnd j) f t).2 (h i s hs hc j t hj ht hreach)]
    · exact (input_spec now f socks rnd j).2 hreach

/-- A connection to port 80 from the address of `toPort80`. -/
def connection : Sock :=
  { listener with state := .established, locLink := .opened, remLink := .opened, remPort := 1024, addr := 0x0a000001 }

/-- A reset for the connection behind a listening socket closes the listening socket. -/
theorem reset_closes_listener :
    ¬ ∀ (now : U32) (rnd : Nat → U32) (f : Segment) (socks : List Sock), Isolated now rnd f socks := by
  intro h
  have hconn : Connected (toPort80 { rst := true }) connection := by decide
  have hsame := h 0 (fun _ => 0) (toPort80 { rst := true }) [listener, connection] 1 connection rfl hconn 0 (by decide)
  have hstate := congrArg (Option.map Sock.state) hsame
  exact absurd hstate (by decide)

end YieldStm32.Tcp
