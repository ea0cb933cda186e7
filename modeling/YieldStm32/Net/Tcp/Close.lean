import YieldStm32.Net.Tcp.State

/-!
# The close handshake

Ghost state of a connection: the sequence numbers of the FINs sent, the units of the peer's sequence space received, and
the positions in it of the peer's FINs and of the acknowledgements sent. A 32-bit number is a position by its distance
from `rx_seq_recvd`.

* `ClosesSafely` : the local link is closed only by an acknowledgement of a FIN that was sent, the remote one only after
  an acknowledgement of the peer's FINs was sent;
* `Careful` : while the local link is closing, an accepted acknowledgement is the one of the FIN sent last; a FIN taken
  is in sequence and fits, or was received before; Listen and Connect find no link closing and no FIN on its way;
* `closesSafely_of_run` : along every careful run of a created socket both links are closed safely.
-/

namespace YieldStm32.Tcp

open Counter Transition

structure CloseState where
  node : Node
  fins : List U32
  rxPos : Int
  peerFins : List Int
  acked : List Int

/-- The number after the data of a frame or segment: the number of its FIN. -/
def finNumber (seq : U32) (data : List UInt8) : U32 := adv seq data.length

/-- The position of a sequence number of the peer. -/
def CloseState.position (s : CloseState) (a : U32) : Int := s.rxPos + (a - s.node.sock.rxSeqRecvd).toInt

/-- The call starts a new connection. -/
def Node.Renews (n : Node) : Event → Prop
  | .listen port => port ≠ 0 ∧ (n.sock.state = .closed ∨ n.sock.state = .listen)
  | .connect _ _ _ port => port ≠ 0 ∧ n.sock.state = .closed
  | _ => False

instance (n : Node) : ∀ e, Decidable (n.Renews e)
  | .listen _ => inferInstanceAs (Decidable (_ ∧ _))
  | .connect .. => inferInstanceAs (Decidable (_ ∧ _))
  | .incoming .. | .outStart _ | .outAlloc _ | .outSend .. | .listenPoll _ | .connectPoll _ | .recv _ | .send _
  | .close .. | .closeFlush .. | .closeWait _ | .reset => isFalse id

def closeStep (s : CloseState) (e : Event) : Option CloseState :=
  (step s.node e).map fun n =>
    match e with
    | .incoming now rnd f =>
      { s with
        node := n
        -- a SYN starts the numbers anew
        rxPos := if f.flags.syn then s.rxPos else s.rxPos + (n.sock.rxSeqRecvd - s.node.sock.rxSeqRecvd).toNat
        peerFins :=
          if (processIncoming now rnd f s.node.sock).1 = .eok ∧ f.flags.fin = true then
            s.position (finNumber f.seq f.data) :: s.peerFins
          else s.peerFins }
    | .outSend _ true =>
      match s.node.out with
      | .send fr =>
        { s with
          node := n
          fins := if fr.flags.fin then finNumber fr.seq fr.data :: s.fins else s.fins
          acked := s.position fr.ack :: s.acked }
      | _ => { s with node := n }
    | e => if s.node.Renews e then ⟨n, [], s.rxPos, [], []⟩ else { s with node := n }

/-- `a` is after `x` in the sequence space. -/
def Covers (a x : U32) : Prop := 0 < (a - x).toInt

/-- What a step must keep. -/
structure ClosesSafely (s : CloseState) (e : Event) (s' : CloseState) : Prop where
  locLink : s.node.sock.locLink = .closing → s'.node.sock.locLink = .closed →
    ∃ now rnd f, e = .incoming now rnd f ∧ f.flags.ack = true ∧ ∃ x ∈ s.fins, Covers f.ack x
  remLink : s.node.sock.remLink = .closing → s'.node.sock.remLink = .closed →
    s.peerFins ≠ [] ∧ ∃ a ∈ s'.acked, ∀ y ∈ s.peerFins, y < a

/-- A FIN whose number the peer finds acknowledged: received before, or in sequence with all its data. -/
def TakesFin (f : Segment) (s : Sock) : Prop :=
  f.flags.syn = false ∧
    (Covers s.rxSeqRecvd (finNumber f.seq f.data) ∨
      f.flags.ack = true ∧ f.seq = s.rxSeqRecvd ∧ f.data.length ≤ s.rxq.getFree)

/-- The step is none of those that close a link early. -/
def Careful (s : CloseState) : Event → Prop
  | .incoming _ rnd f => s.node.out = .idle → Accepts rnd f s.node.sock →
      (f.flags.ack = true → s.node.sock.locLink = .closing →
        s.node.sock.txFlags.fin = true ∧ f.ack = s.node.sock.txSeqEnd) ∧
      (f.flags.fin = true → TakesFin f s.node.sock)
  | e => s.node.Renews e →
      s.node.sock.locLink ≠ .closing ∧ s.node.sock.remLink ≠ .closing ∧ ∀ fl ∈ s.node.out.flags, fl.fin = false

instance (a x : U32) : Decidable (Covers a x) := inferInstanceAs (Decidable (0 < _))

instance (f : Segment) (s : Sock) : Decidable (TakesFin f s) := inferInstanceAs (Decidable (_ ∧ _))

instance (s : CloseState) : ∀ e, Decidable (Careful s e)
  | .incoming _ rnd f => inferInstanceAs (Decidable (s.node.out = .idle → Accepts rnd f s.node.sock → _))
  | .outStart _ | .outAlloc _ | .outSend .. | .listen _ | .listenPoll _ | .connect .. | .connectPoll _ | .recv _
  | .send _ | .close .. | .closeFlush .. | .closeWait _ | .reset => inferInstanceAs (Decidable (s.node.Renews _ → _))

/-- The data a frame built now would carry. -/
def Sock.pending (s : Sock) : Nat := (s.txq.peek frameSize).length

/-- The frame on its way: FIN only while the local link is closing and no more data can come, and then always. -/
structure OutInv (n : Node) : Prop where
  fin : ∀ fl ∈ n.out.flags, fl.fin = true → n.sock.locLink = .closing ∧ n.sock.state ≠ .established
  alloc : ∀ fl, n.out = .alloc fl → n.sock.locLink = .closing → n.sock.txFlags.fin = true → fl.fin = true
  send : ∀ fr, n.out = .send fr → fr.ack = n.sock.rxSeqRecvd ∧ (fr.flags.fin = true →
    finNumber fr.seq fr.data = adv n.sock.txSeqStart n.sock.pending ∧
      n.sock.txSeqEnd = adv n.sock.txSeqStart n.sock.pending + 1)

/-- The local link: once a FIN is sent while it is closing, its number is the last one sent. -/
structure LocInv (fins : List U32) (s : Sock) : Prop where
  links : Links s
  opened : s.locLink = .opened → s.txFlags.fin = false
  early : s.state = .listen ∨ s.state = .connect ∨ s.state = .establishing → s.txFlags.fin = false
  sent : s.locLink = .closing → s.txFlags.fin = true →
    adv s.txSeqStart s.pending ∈ fins ∧ s.txSeqEnd = adv s.txSeqStart s.pending + 1

/-- The remote link: the peer's FINs are among the units received. -/
structure RemInv (s : CloseState) : Prop where
  recvd : ∀ y ∈ s.peerFins, y < s.rxPos
  closing : s.node.sock.remLink = .closing → s.peerFins ≠ []

structure CloseInv (s : CloseState) : Prop where
  loc : LocInv s.fins s.node.sock
  out : OutInv s.node
  rem : RemInv s

/-! ## The local link -/

section Loc

variable {fins : List U32} {s : Sock}

theorem LocInv.shut (h : LocInv fins s) : LocInv fins { s with state := .closed } :=
  ⟨links_closed rfl, h.opened, by simp, h.sent⟩

theorem LocInv.synchronize (h : LocInv fins s) (ht : s.state = .listen ∨ s.state = .connect) (now rnd : U32)
    (f : Segment) : LocInv fins (s.synchronize now rnd f) := by
  have hfin : (s.synchronize now rnd f).txFlags.fin = false := by
    simpa using h.early (ht.imp_right Or.inl)
  exact ⟨h.links.synchronize now rnd f, fun _ => hfin, fun _ => hfin, fun _ hf => by rw [hfin] at hf; cases hf⟩

theorem LocInv.takeAck (h : LocInv fins s) (f : Segment) : LocInv fins (s.takeAck f) := by
  obtain ⟨hnot, hopen⟩ := takeAck_locLink f s
  have htx : (s.takeAck f).txFlags = s.txFlags := by simp [Sock.takeAck]
  refine ⟨h.links.takeAck f, fun ho => ?_, fun hs => ?_, fun hc => absurd hc hnot⟩
  · rw [htx]
    rcases hopen ho with ho | ho
    · exact h.opened ho
    · rw [ho.2]
      rfl
  · rw [htx]
    rcases takeAck_state f s with hst | hst | hst <;> rw [hst] at hs
    · exact h.early hs
    · simp at hs
    · simp at hs

theorem LocInv.accept (h : LocInv fins s) (now : U32) (f : Segment) : LocInv fins (s.accept now f) := by
  refine ⟨h.links.accept now f, ?_, ?_, ?_⟩
  · simp only [accept_links, accept_keeps]
    intro ho
    split at ho
    · cases ho
    · exact h.opened ho
  · simp only [accept_links, accept_keeps]
    intro hs
    split at hs
    · simp at hs
    · exact h.early hs
  · simp only [accept_links, accept_keeps, Sock.pending]
    intro hc hf
    split at hc
    · rename_i hfo
      rw [h.opened hfo.2] at hf
      cases hf
    · exact h.sent hc hf

theorem LocInv.processIncoming (h : LocInv fins s) (now rnd : U32) (f : Segment) :
    LocInv fins (processIncoming now rnd f s).2 := by
  have ho := processIncoming_outcome now rnd f s
  generalize Tcp.processIncoming now rnd f s = out at ho
  cases ho with
  | unmatched | refused | badAck => exact h
  | reset => exact h.shut
  | resetOk => exact h.shut.accept now f
  | syn hm hr hs ht => exact (h.synchronize (Or.inl ht) now rnd f).accept now f
  | synBadAck hm hr hs ht => exact h.synchronize ht now rnd f
  | synAck hm hr hs ht => exact ((h.synchronize ht now rnd f).takeAck f).accept now f
  | ack => exact (h.takeAck f).accept now f
  | plain => exact h.accept now f

theorem LocInv.call {s' : Sock} (h : LocInv fins s) {e : Event} (hc : CallCase s e s') :
    LocInv fins s' := by
  have hl := h.links.call hc
  cases hc with
  | same => exact h
  | shut => exact h.shut
  | listen | connect => exact ⟨hl, fun _ => rfl, fun _ => rfl, nofun⟩
  | recv => exact ⟨hl, h.opened, h.early, h.sent⟩
  | send hs =>
      refine ⟨hl, h.opened, h.early, fun hc => ?_⟩
      rw [(h.links.established hs).1] at hc
      cases hc
  | close ho hf hs =>
      refine ⟨hl, nofun, ?_, fun _ hf => ?_⟩
      · rcases hs with rfl | rfl <;> simp
      · rw [h.opened ho] at hf
        cases hf

theorem LocInv.build {out : Out} {fl : Flags} (h : LocInv fins s) (ho : OutInv ⟨s, out⟩) (hout : out = .alloc fl) :
    LocInv fins (s.buildFrame fl).2 := by
  refine ⟨⟨by simpa using h.links.established, by simpa using h.links.early⟩, by simpa using h.opened,
    by simpa using h.early, ?_⟩
  simp only [buildFrame_keeps, Sock.pending]
  intro hc hf
  have hfin : fl.special = true := by simp [Flags.special, ho.alloc fl hout hc hf]
  rw [buildFrame_txSeqEnd, hfin]
  exact ⟨(h.sent hc hf).1, rfl⟩

theorem LocInv.frameSent {out : Out} {fr : Frame} (h : LocInv fins s) (ho : OutInv ⟨s, out⟩) (hout : out = .send fr)
    (now : U32) :
    LocInv (if fr.flags.fin then finNumber fr.seq fr.data :: fins else fins) (s.frameSent now fr) := by
  subst hout
  have hfin : s.locLink ≠ .closing → fr.flags.fin = false := fun hl => by
    by_contra hf
    exact hl (ho.fin fr.flags rfl (Bool.eq_true_of_not_eq_false hf)).1
  refine ⟨h.links.frameSent now fr, ?_, ?_, ?_⟩
  · simp only [frameSent_keeps]
    intro hl
    exact hfin (by simp [hl])
  · simp only [frameSent_keeps, frameSent_links]
    intro hs
    split at hs
    · simp at hs
    · exact hfin (by simp [h.links.early hs])
  · simp only [frameSent_keeps, Sock.pending]
    intro hc hf
    obtain ⟨hnum, hend⟩ := (ho.send fr rfl).2 hf
    rw [if_pos hf, hnum]
    exact ⟨List.mem_cons_self, hend⟩

end Loc

/-! ## The frame on its way -/

section OutFrame

variable {fins : List U32} {s : Sock}

theorem outInv_idle (s : Sock) : OutInv ⟨s, .idle⟩ := by
  refine ⟨fun fl hfl => ?_, fun fl hfl => ?_, fun fr hfr => ?_⟩
  · cases hfl
  · cases hfl
  · cases hfr

theorem outInv_pick (h : Links s) {fl : Flags} (hf : s.outFlags = some fl) : OutInv ⟨s, .alloc fl⟩ := by
  have hiff := outFlags_fin h hf
  refine ⟨fun fl' hfl hfin => ?_, fun fl' hfl hl _ => ?_, fun fr hfr => ?_⟩
  · obtain rfl := Option.some.inj hfl
    have hl := hiff.1 hfin
    refine ⟨hl, fun hs => ?_⟩
    rw [(h.established hs).1] at hl
    cases hl
  · obtain rfl := Out.alloc.inj hfl
    exact hiff.2 hl
  · cases hfr

theorem OutInv.build {fl : Flags} (ho : OutInv ⟨s, .alloc fl⟩) :
    OutInv ⟨(s.buildFrame fl).2, .send (s.buildFrame fl).1⟩ := by
  refine ⟨fun fl' hfl hfin => ?_, fun fl' hfl => ?_, fun fr hfr => ?_⟩
  · obtain rfl := Option.some.inj hfl
    simpa using ho.fin fl rfl (by simpa using hfin)
  · cases hfl
  · obtain rfl := Out.send.inj hfr
    refine ⟨rfl, fun hfin => ⟨rfl, ?_⟩⟩
    have hsp : fl.special = true := by
      simp only [buildFrame_flags] at hfin
      simp [Flags.special, hfin]
    simp [buildFrame_txSeqEnd, hsp, Sock.pending]

/-- The calls leave the frame on its way as it should be. -/
theorem OutInv.call {out : Out} {s' : Sock} {e : Event} (ho : OutInv ⟨s, out⟩) (h : LocInv fins s)
    (hc : CallCase s e s') (hnew : Node.Renews ⟨s, out⟩ e → ∀ fl ∈ out.flags, fl.fin = false) : OutInv ⟨s', out⟩ := by
  have hsend : ∀ fr, out = .send fr → fr.flags ∈ out.flags := by
    rintro fr rfl
    rfl
  -- without a FIN on its way only the acknowledgement number is left to check
  have hnofin : (∀ fl ∈ out.flags, fl.fin = false) → s'.rxSeqRecvd = s.rxSeqRecvd →
      (s'.locLink = .closing → s'.txFlags.fin = false) → OutInv ⟨s', out⟩ := by
    intro hno hr hl
    refine ⟨fun fl hfl hf => ?_, fun fl hfl hc hf => ?_, fun fr hfr => ⟨?_, fun hf => ?_⟩⟩
    · rw [hno fl hfl] at hf
      cases hf
    · rw [hl hc] at hf
      cases hf
    · exact (ho.send fr hfr).1.trans hr.symm
    · rw [hno fr.flags (hsend fr hfr)] at hf
      cases hf
  cases hc with
  | same => exact ho
  | shut => exact ⟨fun fl hfl hf => ⟨(ho.fin fl hfl hf).1, nofun⟩, ho.alloc, ho.send⟩
  | listen hs hp => exact hnofin (hnew ⟨hp, hs⟩) rfl nofun
  | connect hs hp => exact hnofin (hnew ⟨hp, hs⟩) rfl nofun
  | recv => exact ⟨ho.fin, ho.alloc, ho.send⟩
  | send hs =>
      refine hnofin (fun fl hfl => ?_) rfl fun hc => ?_
      · by_contra hf
        exact (ho.fin fl hfl (Bool.eq_true_of_not_eq_false hf)).2 hs
      · rw [(h.links.established hs).1] at hc
        cases hc
  | close hl hf hs =>
      refine hnofin (fun fl hfl => ?_) rfl fun _ => h.opened hl
      by_contra hf
      have hc := (ho.fin fl hfl (Bool.eq_true_of_not_eq_false hf)).1
      rw [show s.locLink = .opened from hl] at hc
      cases hc

end OutFrame

/-! ## Segments -/

section Segments

variable {now rnd : U32} {f : Segment} {s : Sock}

/-- A segment puts the remote link to closing, where its FIN is taken, or opens it, or leaves it. -/
theorem incoming_remLink (now rnd : U32) (f : Segment) (s : Sock) :
    (processIncoming now rnd f s).2.remLink = s.remLink ∨ (processIncoming now rnd f s).2.remLink = .opened ∨
      (processIncoming now rnd f s).2.remLink = .closing ∧ (processIncoming now rnd f s).1 = .eok ∧
        f.flags.fin = true := by
  have haccept : ∀ t : Sock, t.remLink = s.remLink ∨ t.remLink = .opened →
      (t.accept now f).remLink = s.remLink ∨ (t.accept now f).remLink = .opened ∨
        (t.accept now f).remLink = .closing ∧ (Err.eok = .eok) ∧ f.flags.fin = true := by
    intro t ht
    cases hf : f.flags.fin <;> simp [hf, ht]
  have hsync : (s.synchronize now rnd f).remLink = s.remLink ∨ (s.synchronize now rnd f).remLink = .opened := by
    simp only [synchronize_sets]
    split <;> simp
  have hack : ∀ t : Sock, (t.takeAck f).remLink = t.remLink ∨ (t.takeAck f).remLink = .opened := by
    intro t
    simp only [Sock.takeAck, acknowledge_keeps, receive_keeps, lastAck_keeps]
    unfold Sock.establish
    split <;> simp
  have ho := processIncoming_outcome now rnd f s
  generalize processIncoming now rnd f s = out at ho
  cases ho with
  | unmatched | refused | badAck => exact Or.inl rfl
  | reset => exact Or.inl rfl
  | resetOk => exact haccept _ (Or.inl rfl)
  | syn => exact haccept _ hsync
  | synBadAck => exact hsync.imp_right Or.inl
  | synAck =>
      apply haccept
      rcases hack (s.synchronize now rnd f) with h | h
      · rw [h]
        exact hsync
      · exact Or.inr h
  | ack => exact haccept _ (hack s)
  | plain => exact haccept _ (Or.inl rfl)

/-- Only an accepted acknowledgement closes the local link. -/
theorem incoming_locLink (h : Links s) (hc : s.locLink = .closing)
    (hc' : (processIncoming now rnd f s).2.locLink = .closed) : Accepts rnd f s ∧ f.flags.ack = true := by
  rw [← accepts_iff now]
  have ho := processIncoming_outcome now rnd f s
  generalize processIncoming now rnd f s = out at ho hc'
  have hearly : ¬ (s.state = .listen ∨ s.state = .connect) := fun ht => by
    rw [h.early (ht.imp_right Or.inl)] at hc
    cases hc
  cases ho with
  | unmatched | refused | badAck | reset => simp [hc] at hc'
  | resetOk | plain => simp [hc] at hc'
  | syn hm hr hs ht => exact absurd (Or.inl ht) hearly
  | synBadAck hm hr hs ht => exact absurd ht hearly
  | synAck hm hr hs ht => exact absurd ht hearly
  | ack hm hr hs ha => exact ⟨rfl, ha⟩

theorem covers_succ (x : U32) : Covers (x + 1) x := by
  unfold Covers
  rw [BitVec.add_comm, BitVec.add_sub_cancel]
  decide

/-- The distance to a number that is covered is negative. -/
theorem toInt_neg_of_covers {a x : U32} (h : Covers a x) : (x - a).toInt < 0 := by
  unfold Covers at h
  rw [BitVec.toInt_eq_toNat_cond] at h ⊢
  rw [BitVec.toNat_sub] at h ⊢
  have := a.isLt
  have := x.isLt
  split at h <;> split <;> omega

theorem toInt_adv_sub_le (a : U32) {n : Nat} (h : n < 2 ^ 32) : (adv a n - a).toInt ≤ n := by
  rw [BitVec.toInt_eq_toNat_cond, adv_sub_self a h]
  split <;> omega

/-- The number received moves past a FIN that is taken. -/
theorem fin_received {c : CloseState} (hok : (processIncoming now rnd f c.node.sock).1 = .eok) (hf : f.flags.fin = true)
    (ht : TakesFin f c.node.sock) :
    c.position (finNumber f.seq f.data) <
      c.rxPos + ((processIncoming now rnd f c.node.sock).2.rxSeqRecvd - c.node.sock.rxSeqRecvd).toNat := by
  obtain ⟨hsyn, hcov | ⟨hack, hseq, hfit⟩⟩ := ht
  · have := toInt_neg_of_covers hcov
    unfold CloseState.position
    omega
  · have hle : f.data.length ≤ 2 ^ 31 := Nat.le_trans (Nat.le_trans hfit (Nat.sub_le ..)) c.node.sock.rxq.count_le
    have hrecvd : (processIncoming now rnd f c.node.sock).2.rxSeqRecvd =
        adv c.node.sock.rxSeqRecvd (1 + f.data.length) := by
      have ho := processIncoming_outcome now rnd f c.node.sock
      generalize processIncoming now rnd f c.node.sock = out at ho hok
      cases ho with
      | unmatched | refused | badAck | reset | synBadAck => cases hok
      | resetOk hm hr hs ha => simp [ha] at hack
      | syn hm hr hs => simp [hs] at hsyn
      | synAck hm hr hs => simp [hs] at hsyn
      | ack =>
          have hstored : (c.node.sock.rxq.put f.data f.data.length).1 = f.data.length := Nat.min_eq_left hfit
          rw [(takeAck_rx now f c.node.sock).1, (receive_in hseq hsyn).1, hstored, if_pos hf]
      | plain hm hr hs ha => simp [ha] at hack
    have hdist := toInt_adv_sub_le c.node.sock.rxSeqRecvd (n := f.data.length) (by omega)
    rw [CloseState.position, finNumber, hseq, hrecvd, adv_sub_self _ (by omega)]
    omega

end Segments

/-! ## Runs -/

section Runs

variable {s s' : CloseState}

/-- Nothing received is lost: the peer's FINs stay among the units received. -/
theorem RemInv.incoming {now rnd : U32} {f : Segment} (h : RemInv s) (ho : s.node.out = .idle)
    (hg : Careful s (.incoming now rnd f)) {rxPos : Int} {peerFins : List Int}
    (hpos : rxPos = if f.flags.syn then s.rxPos else
      s.rxPos + ((processIncoming now rnd f s.node.sock).2.rxSeqRecvd - s.node.sock.rxSeqRecvd).toNat)
    (hfins : peerFins = if (processIncoming now rnd f s.node.sock).1 = .eok ∧ f.flags.fin = true then
      s.position (finNumber f.seq f.data) :: s.peerFins else s.peerFins) :
    RemInv ⟨⟨(processIncoming now rnd f s.node.sock).2, s.node.out⟩, s.fins, rxPos, peerFins, s.acked⟩ := by
  have hle : s.rxPos ≤ rxPos := by
    rw [hpos]
    split <;> omega
  have hold : ∀ y ∈ s.peerFins, y < rxPos := fun y hy => Int.lt_of_lt_of_le (h.recvd y hy) hle
  by_cases hf : (processIncoming now rnd f s.node.sock).1 = .eok ∧ f.flags.fin = true
  · have htakes := (hg ho ((accepts_iff now rnd f s.node.sock).1 hf.1)).2 hf.2
    rw [if_pos hf] at hfins
    rw [if_neg (by simp [htakes.1])] at hpos
    refine ⟨fun y hy => ?_, fun _ => by simp [hfins]⟩
    rw [hfins] at hy
    rcases List.mem_cons.1 hy with rfl | hy
    · rw [hpos]
      exact fin_received hf.1 hf.2 htakes
    · exact hold y hy
  · rw [if_neg hf] at hfins
    subst hfins
    refine ⟨hold, fun hc => ?_⟩
    rcases incoming_remLink now rnd f s.node.sock with hl | hl | hl
    · exact h.closing (hl.symm.trans hc)
    · rw [hl] at hc
      cases hc
    · exact absurd hl.2 hf

theorem closesSafely_incoming {now rnd : U32} {f : Segment} (h : CloseInv s) (ho : s.node.out = .idle)
    (hg : Careful s (.incoming now rnd f)) (hs : s'.node.sock = (processIncoming now rnd f s.node.sock).2) :
    ClosesSafely s (.incoming now rnd f) s' := by
  constructor
  · rw [hs]
    intro hc hc'
    obtain ⟨hacc, hack⟩ := incoming_locLink h.loc.links hc hc'
    obtain ⟨hfin, hend⟩ := (hg ho hacc).1 hack hc
    obtain ⟨hsent, hlast⟩ := h.loc.sent hc hfin
    refine ⟨now, rnd, f, rfl, hack, _, hsent, ?_⟩
    rw [hend, hlast]
    exact covers_succ _
  · rw [hs]
    intro hc hc'
    rcases incoming_remLink now rnd f s.node.sock with hl | hl | hl
    · rw [hl, hc] at hc'
      cases hc'
    · rw [hl] at hc'
      cases hc'
    · rw [hl.1] at hc'
      cases hc'

/-- A step that closes no link. -/
theorem closesSafely_of_links {e : Event}
    (hl : s.node.sock.locLink = .closing → s'.node.sock.locLink ≠ .closed)
    (hr : s.node.sock.remLink = .closing → s'.node.sock.remLink ≠ .closed) : ClosesSafely s e s' :=
  ⟨fun hc hc' => absurd hc' (hl hc), fun hc hc' => absurd hc' (hr hc)⟩

/-- The sending of a frame acknowledges all that was received. -/
theorem closesSafely_sent {e : Event} (h : RemInv s) {fr : Frame} (hack : fr.ack = s.node.sock.rxSeqRecvd)
    (hl : s'.node.sock.locLink = s.node.sock.locLink) (ha : s'.acked = s.position fr.ack :: s.acked) :
    ClosesSafely s e s' := by
  have hpos : s.position fr.ack = s.rxPos := by
    rw [CloseState.position, hack, BitVec.sub_self]
    simp
  refine ⟨fun hc hc' => ?_, fun hc _ => ⟨h.closing hc, s.rxPos, ?_, h.recvd⟩⟩
  · rw [hl, hc] at hc'
    cases hc'
  · rw [ha, hpos]
    exact List.mem_cons_self

theorem closeStep_call {e : Event} {g : Sock → Sock} (hg : e.call = some g) :
    closeStep s e = some (if s.node.Renews e then ⟨⟨g s.node.sock, s.node.out⟩, [], s.rxPos, [], []⟩ else
      { s with node := ⟨g s.node.sock, s.node.out⟩ }) := by
  unfold closeStep
  rw [step_call s.node hg]
  cases e <;> cases hg <;> rfl

/-- A call on a connection leaves the remote link, and closes the local one at most half. -/
theorem CallCase.links {s s' : Sock} {out : Out} {e : Event} (hc : CallCase s e s') (hr : ¬ Node.Renews ⟨s, out⟩ e) :
    s'.remLink = s.remLink ∧ (s'.locLink = s.locLink ∨ s'.locLink = .closing) := by
  cases hc with
  | same | shut | recv | send => exact ⟨rfl, Or.inl rfl⟩
  | listen hs hp => exact absurd ⟨hp, hs⟩ hr
  | connect hs hp => exact absurd ⟨hp, hs⟩ hr
  | close => exact ⟨rfl, Or.inr rfl⟩

/-- A new connection starts with closed links and no flags. -/
theorem renews_call {n : Node} {e : Event} {g : Sock → Sock} (hg : e.call = some g) (hr : n.Renews e) :
    (g n.sock).txFlags = {} ∧ (g n.sock).remLink = .closed := by
  cases e <;> cases hg
  case listen port =>
    rw [Sock.listen, if_neg (not_and_or.2 (hr.2.imp not_not.2 not_not.2)), if_neg hr.1]
    exact ⟨rfl, rfl⟩
  case connect now rnd ip port =>
    rw [Sock.connect, if_neg (by simp [hr.2]), if_neg (not_not.2 hr.2), if_neg hr.1]
    exact ⟨rfl, rfl⟩
  all_goals exact hr.elim

theorem closeInv_call {e : Event} {g : Sock → Sock} (h : CloseInv s) (hg : e.call = some g) (hc : Careful s e)
    (hs : closeStep s e = some s') : CloseInv s' ∧ ClosesSafely s e s' := by
  rw [closeStep_call hg] at hs
  obtain rfl := Option.some.inj hs
  have hcase := call_cases s.node.sock hg
  have hcareful : s.node.Renews e → s.node.sock.locLink ≠ .closing ∧ s.node.sock.remLink ≠ .closing ∧
      ∀ fl ∈ s.node.out.flags, fl.fin = false := by
    cases e <;> first | cases hg; done | exact hc
  have hloc := h.loc.call hcase
  have hout := h.out.call h.loc hcase fun hr => (hcareful hr).2.2
  by_cases hr : s.node.Renews e
  · obtain ⟨htx, hrem⟩ := renews_call hg hr
    rw [if_pos hr]
    refine ⟨⟨⟨hloc.links, hloc.opened, hloc.early, fun _ hf => ?_⟩, hout, nofun, fun hcl => ?_⟩,
      closesSafely_of_links (fun hl => absurd hl (hcareful hr).1) fun hl => absurd hl (hcareful hr).2.1⟩
    · rw [htx] at hf
      cases hf
    · rw [hrem] at hcl
      cases hcl
  · obtain ⟨hrem, hlink⟩ := hcase.links hr
    rw [if_neg hr]
    refine ⟨⟨hloc, hout, h.rem.recvd, fun hcl => h.rem.closing (hrem.symm.trans hcl)⟩,
      closesSafely_of_links (fun hl => ?_) fun hl => ?_⟩
    · rcases hlink with hlink | hlink <;> simp [hlink, hl]
    · simp [hrem, hl]

/-- A step of the output task that sends nothing. -/
theorem CloseInv.output (h : CloseInv s) {n : Node} {e : Event} (hloc : LocInv s.fins n.sock) (hout : OutInv n)
    (hl : n.sock.locLink = s.node.sock.locLink) (hr : n.sock.remLink = s.node.sock.remLink) :
    CloseInv { s with node := n } ∧ ClosesSafely s e { s with node := n } := by
  refine ⟨⟨hloc, hout, h.rem.recvd, fun hc => h.rem.closing (hr.symm.trans hc)⟩,
    closesSafely_of_links (fun hc => ?_) fun hc => ?_⟩
  · simp [hl, hc]
  · simp [hr, hc]

theorem closeInv_sent {now : U32} {fr : Frame} (h : CloseInv s) (ho : s.node.out = .send fr)
    (hs : closeStep s (.outSend now true) = some s') : CloseInv s' ∧ ClosesSafely s (.outSend now true) s' := by
  obtain ⟨⟨sock, out⟩, fins, rxPos, peerFins, acked⟩ := s
  obtain rfl : out = .send fr := ho
  obtain rfl := Option.some.inj hs
  have hloc := h.loc.frameSent h.out rfl now
  refine ⟨⟨hloc, outInv_idle _, h.rem.recvd, fun hc => ?_⟩,
    closesSafely_sent h.rem (h.out.send fr rfl).1 (by simp) rfl⟩
  simp only [frameSent_links] at hc
  split at hc
  · cases hc
  · exact absurd hc ‹_›

/-- The invariant is kept by every careful step, and the step closes no link early. -/
theorem closeInv_step {e : Event} (h : CloseInv s) (hg : Careful s e) (hs : closeStep s e = some s') :
    CloseInv s' ∧ ClosesSafely s e s' := by
  obtain ⟨n', hn, hs'⟩ := Option.map_eq_some_iff.1 hs
  cases step_cases hn with
  | incoming ho =>
      obtain rfl := hs'
      refine ⟨⟨h.loc.processIncoming _ _ _, ?_, h.rem.incoming ho hg rfl rfl⟩, closesSafely_incoming h ho hg rfl⟩
      rw [ho]
      exact outInv_idle _
  | quiet ho hq =>
      obtain rfl := hs'
      rcases startOutput_none hq with rfl | rfl
      · exact h.output h.loc (outInv_idle _) rfl rfl
      · exact h.output h.loc.shut (outInv_idle _) rfl rfl
  | pick ho hp =>
      obtain rfl := hs'
      obtain ⟨rfl, hfl⟩ := startOutput_some hp
      exact h.output h.loc (outInv_pick h.loc.links hfl) rfl rfl
  | @build flags ho =>
      obtain rfl := hs'
      have hout : OutInv ⟨s.node.sock, .alloc flags⟩ := ho ▸ h.out
      exact h.output (h.loc.build hout rfl) hout.build (by simp) (by simp)
  | noFrame | notSent =>
      obtain rfl := hs'
      exact h.output h.loc (outInv_idle _) rfl rfl
  | sent ho => exact closeInv_sent h ho hs
  | call hc => exact closeInv_call h hc hg hs

end Runs

/-- A created socket, with nothing sent or received. -/
def closeStart (rxq txq : Queue UInt8) : CloseState := ⟨start rxq txq, [], 0, [], []⟩

/-- **The close handshake is safe** along every run of a created socket whose steps are all careful. -/
theorem closesSafely_of_run (rxq txq : Queue UInt8) (es : List Event)
    (h : Meets closeStep Careful (closeStart rxq txq) es) :
    Along closeStep ClosesSafely (closeStart rxq txq) es := by
  have hstart : CloseInv (closeStart rxq txq) :=
    ⟨⟨links_closed rfl, nofun, fun _ => rfl, nofun⟩, outInv_idle _, nofun, nofun⟩
  exact along_of_meets (I := CloseInv) (G := Careful) (fun _ _ _ => closeInv_step) hstart h

/-- A segment of the peer that numbers from 0 on. -/
def fromPeer (flags : Flags) (seq ack : U32) : Segment := { toPort80 flags with seq := seq, ack := ack }

/-- A connection is accepted and closed from our side, with the number 7 for our SYN|ACK. -/
def acceptAndClose : List Event :=
  [.listen 80, .incoming 0 7 (fromPeer { syn := true } 0 0), .outStart 0, .outAlloc true, .outSend 0 true,
    .incoming 0 0 (fromPeer { ack := true } 1 8), .close 0 false]

/-- Our FIN is sent and acknowledged, then the peer's is received and acknowledged. -/
def bothFins : List Event :=
  [.outStart 1, .outAlloc true, .outSend 1 true, .incoming 1 0 (fromPeer { ack := true } 1 9),
    .incoming 1 0 (fromPeer { fin := true, ack := true } 1 9), .outStart 1000, .outAlloc true, .outSend 1000 true]

/-- Both links are closed by the two FINs and their acknowledgements. -/
theorem closesSafely_of_run_both :
    (∀ s ∈ run closeStep (closeStart smallQueue smallQueue) (acceptAndClose ++ bothFins),
      s.node.sock.locLink = .closed ∧ s.node.sock.remLink = .closed ∧ s.fins = [8] ∧ s.peerFins = [0]) ∧
    Along closeStep ClosesSafely (closeStart smallQueue smallQueue) (acceptAndClose ++ bothFins) :=
  ⟨by decide, closesSafely_of_run smallQueue smallQueue _ (by decide)⟩

/-- After Close the acknowledgement of the SYN arrives once more: it closes the local link, and no FIN was sent. -/
theorem ack_closes_early :
    ¬ ∀ (rxq txq : Queue UInt8) (es : List Event), Along closeStep ClosesSafely (closeStart rxq txq) es := by
  intro h
  have hrun := h smallQueue smallQueue (acceptAndClose ++ [.incoming 0 0 (fromPeer { ack := true } 1 8)])
  obtain ⟨now, rnd, f, -, -, x, hx, -⟩ := (hrun.last rfl rfl).locLink (by decide) (by decide)
  exact List.not_mem_nil hx

end YieldStm32.Tcp
