import YieldStm32.Lib.Run
import YieldStm32.Net.Tcp.Incoming

/-!
# A socket among its tasks

The socket with the output task, the reception task and the application's calls on it. Tasks switch only at `Yield()`:
an event is what one of them does from one yield to the next. The output task holds the lock of the socket layer over the
yields in `TCPIPTcp_Alloc` and `TCPIPTcp_Send`, so no segment comes in between; calls of the application and a stack reset
may. Every reading of the clock is a parameter, so the runs of this system include those of any clock.
-/

namespace YieldStm32.Tcp

open Counter Transition

/-! ## `TCPIPTcpSock_ProcessOutgoing` -/

/-- A segment handed to `TCPIPTcp_Send`. -/
structure Frame where
  dstIp : Ip
  srcPort : Port
  dstPort : Port
  seq : U32
  ack : U32
  win : BitVec 16
  flags : Flags
  data : List UInt8
deriving DecidableEq, Repr

/-- The flags picked by the state. -/
def Sock.outFlags (s : Sock) : Option Flags :=
  match s.state with
  | .free | .closed | .listen => none
  | .connect => some { syn := true }
  | .establishing => some .synAck
  | .established => some { ack := true }
  | .closing => some { ack := true, fin := decide (s.locLink = .closing) }

/-- Up to the allocation of a frame: the flags to send, if there is anything to send. -/
def Sock.startOutput (now : U32) (s : Sock) : Option Flags × Sock :=
  match s.outFlags with
  | none => (none, s)
  | some flags =>
    -- protect from syn floods and fin stalls
    if (s.state = .establishing ∨ s.state = .closing) ∧ 2000 < (now - s.synFinTs).toInt then
      (none, { s with state := .closed })
    -- no special flags, no need to ack anything, no data, no changes in rx window
    else if flags.special = false ∧ s.rxSeqRecvd = s.rxSeqAcked ∧ s.txq.getUsed = 0 ∧
        BitVec.ofNat 32 s.rxq.getFree = s.rxWin then (none, s)
    -- not enough time since last retransmission: `300 * tx_retr_cnt` makes the comparison unsigned
    else if now - s.txRetrTs < 300 * s.txRetrCnt then (none, s)
    else (some flags, s)

/-- `frame.size` after `TCPIPTcp_Alloc`: `TCPIP_RXTX_BUF_SIZE`, headers included. -/
def frameSize : Nat := 1528

/-- From the allocation of the frame to its sending. -/
def Sock.buildFrame (flags : Flags) (s : Sock) : Frame × Sock :=
  let data := s.txq.peek frameSize
  let flags := if data.length = 0 then flags else { flags with psh := true }
  let txSeqEnd := adv s.txSeqStart data.length
  (⟨s.addr, s.locPort, s.remPort, s.txSeqStart, s.rxSeqRecvd, BitVec.ofNat 16 s.rxq.getFree, flags, data⟩,
    { s with txSeqEnd := if flags.special then txSeqEnd + 1 else txSeqEnd })

/-- After the frame was sent. -/
def Sock.frameSent (now : U32) (fr : Frame) (s : Sock) : Sock :=
  let s := { s with
    txFlags := fr.flags
    rxWin := fr.win.zeroExtend 32
    rxSeqAcked := s.rxSeqRecvd
    txRetrCnt := if s.txSeqEnd = s.txSeqStart then s.txRetrCnt else s.txRetrCnt + 1
    txRetrTs := if s.txSeqEnd = s.txSeqStart then s.txRetrTs else now }
  if s.remLink = .closing then
    { s with
      remLink := .closed
      state := if s.locLink = .closed then .closed else s.state }
  else s

/-! ## The application's calls -/

/-- `TCPIPTcpSock_Listen` up to its first poll. -/
def Sock.listen (port : Port) (s : Sock) : Sock :=
  if s.state ≠ .closed ∧ s.state ≠ .listen then s
  else if port = 0 then s
  else { s with
    txFlags := {}
    rxFlags := {}
    locPort := port
    state := .listen
    locLink := .closed
    remLink := .closed
    rxq := (s.rxq.drop s.rxq.getUsed).2
    txq := (s.txq.drop s.txq.getUsed).2 }

/-- A poll in `TCPIPTcpSock_Listen`. -/
def Sock.listenPoll (expired : Bool) (s : Sock) : Sock :=
  if expired = true ∧ s.state = .listen then { s with state := .closed } else s

/-- `TCPIPTcpSock_Connect` up to its first poll. -/
def Sock.connect (now rnd : U32) (ip : Ip) (port : Port) (s : Sock) : Sock :=
  if s.state = .connect ∧ s.remPort = port ∧ s.addr = ip then s
  else if s.state ≠ .closed then s
  else if port = 0 then s
  else { s with
    txFlags := {}
    rxFlags := {}
    remPort := port
    addr := ip
    locPort := BitVec.ofNat 16 (rnd.toNat % 34567 + 10000)
    txSeqStart := now
    txSeqInit := now
    state := .connect
    locLink := .closed
    remLink := .closed
    rxq := (s.rxq.drop s.rxq.getUsed).2
    txq := (s.txq.drop s.txq.getUsed).2 }

/-- A poll in `TCPIPTcpSock_Connect`. -/
def Sock.connectPoll (expired : Bool) (s : Sock) : Sock :=
  if expired = true ∧ s.state ≠ .established then { s with state := .closed } else s

/-- A poll in `TCPIPTcpSock_Recv`. -/
def Sock.recv (size : Nat) (s : Sock) : List UInt8 × Sock :=
  let (data, rxq) := s.rxq.get size
  (data, { s with rxq := rxq })

/-- A chunk in `TCPIPTcpSock_Send`. -/
def Sock.send (data : List UInt8) (s : Sock) : Nat × Sock :=
  if s.state ≠ .established then (0, s)
  else
    let (stored, txq) := s.txq.put data data.length
    (stored, { s with txq := txq })

/-- A poll in the second loop of `TCPIPTcpSock_Close`. -/
def Sock.closeWait (expired : Bool) (s : Sock) : Sock :=
  if expired = true ∧ s.state ≠ .closed then { s with state := .closed } else s

/-- `TCPIPTcpSock_Close` from a poll of its first loop on. -/
def Sock.closeFlush (now : U32) (expired : Bool) (s : Sock) : Sock :=
  if s.state = .established ∧ s.txq.getUsed ≠ 0 then
    if expired = true then { s with state := .closed } else s
  else if s.locLink = .opened then
    { s with locLink := .closing, state := .closing, synFinTs := now }.closeWait expired
  else s.closeWait expired

/-- `TCPIPTcpSock_Close` -/
def Sock.close (now : U32) (expired : Bool) (s : Sock) : Sock :=
  if s.state = .free ∨ s.state = .listen then s else s.closeFlush now expired

/-- `TCPIPTcpSock_Reset` -/
def Sock.reset (s : Sock) : Sock :=
  if s.state ≠ .free ∧ s.state ≠ .closed then { s with state := .closed } else s

/-! ## Runs -/

/-- The output task on this socket: at rest, at the yield of the allocation, or at one of the sending. -/
inductive Out where
  | idle
  | alloc (flags : Flags)
  | send (fr : Frame)
deriving DecidableEq, Repr

/-- The flags of the frame on its way. -/
def Out.flags : Out → Option Flags
  | .idle => none
  | .alloc flags => some flags
  | .send fr => some fr.flags

structure Node where
  sock : Sock
  out : Out

inductive Event where
  | incoming (now rnd : U32) (f : Segment)
  | outStart (now : U32)
  | outAlloc (ok : Bool)
  | outSend (now : U32) (ok : Bool)
  | listen (port : Port)
  | listenPoll (expired : Bool)
  | connect (now rnd : U32) (ip : Ip) (port : Port)
  | connectPoll (expired : Bool)
  | recv (size : Nat)
  | send (data : List UInt8)
  | close (now : U32) (expired : Bool)
  | closeFlush (now : U32) (expired : Bool)
  | closeWait (expired : Bool)
  | reset
deriving DecidableEq, Repr

/-- What a call of the application, or a reset, does to the socket. -/
def Event.call : Event → Option (Sock → Sock)
  | .listen port => some (Sock.listen port)
  | .listenPoll expired => some (Sock.listenPoll expired)
  | .connect now rnd ip port => some (Sock.connect now rnd ip port)
  | .connectPoll expired => some (Sock.connectPoll expired)
  | .recv size => some fun s => (s.recv size).2
  | .send data => some fun s => (s.send data).2
  | .close now expired => some (Sock.close now expired)
  | .closeFlush now expired => some (Sock.closeFlush now expired)
  | .closeWait expired => some (Sock.closeWait expired)
  | .reset => some Sock.reset
  | _ => none

def step (n : Node) (e : Event) : Option Node :=
  match e, n.out with
  -- the lock is free
  | .incoming now rnd f, .idle => some { n with sock := (processIncoming now rnd f n.sock).2 }
  | .outStart now, .idle =>
    match n.sock.startOutput now with
    | (none, s) => some ⟨s, .idle⟩
    | (some flags, s) => some ⟨s, .alloc flags⟩
  | .outAlloc true, .alloc flags =>
    let (fr, s) := n.sock.buildFrame flags
    some ⟨s, .send fr⟩
  | .outAlloc false, .alloc _ => some { n with out := .idle }
  | .outSend now true, .send fr => some ⟨n.sock.frameSent now fr, .idle⟩
  | .outSend _ false, .send _ => some { n with out := .idle }
  | e, _ => e.call.map fun g => { n with sock := g n.sock }

/-- A call is always enabled. -/
theorem step_call (n : Node) {e : Event} {g : Sock → Sock} (hg : e.call = some g) :
    step n e = some { n with sock := g n.sock } := by
  obtain ⟨s, out⟩ := n
  cases e <;> cases hg <;> cases out <;> rfl

/-- The steps, one by one. -/
inductive Step (n : Node) : Event → Node → Prop
  | incoming {now rnd : U32} {f : Segment} (ho : n.out = .idle) :
      Step n (.incoming now rnd f) { n with sock := (processIncoming now rnd f n.sock).2 }
  | quiet {now : U32} {s : Sock} (ho : n.out = .idle) (h : n.sock.startOutput now = (none, s)) :
      Step n (.outStart now) ⟨s, .idle⟩
  | pick {now : U32} {flags : Flags} {s : Sock} (ho : n.out = .idle) (h : n.sock.startOutput now = (some flags, s)) :
      Step n (.outStart now) ⟨s, .alloc flags⟩
  | build {flags : Flags} (ho : n.out = .alloc flags) :
      Step n (.outAlloc true) ⟨(n.sock.buildFrame flags).2, .send (n.sock.buildFrame flags).1⟩
  | noFrame {flags : Flags} (ho : n.out = .alloc flags) : Step n (.outAlloc false) { n with out := .idle }
  | sent {now : U32} {fr : Frame} (ho : n.out = .send fr) : Step n (.outSend now true) ⟨n.sock.frameSent now fr, .idle⟩
  | notSent {now : U32} {fr : Frame} (ho : n.out = .send fr) : Step n (.outSend now false) { n with out := .idle }
  | call {e : Event} {g : Sock → Sock} (hg : e.call = some g) : Step n e { n with sock := g n.sock }

theorem step_cases {n n' : Node} {e : Event} (h : step n e = some n') : Step n e n' := by
  unfold step at h
  split at h
  case h_1 ho =>
    obtain rfl := Option.some.inj h
    exact .incoming ho
  case h_2 ho =>
    split at h
    · obtain rfl := Option.some.inj h
      exact .quiet ho ‹_›
    · obtain rfl := Option.some.inj h
      exact .pick ho ‹_›
  case h_3 ho =>
    obtain rfl := Option.some.inj h
    exact .build ho
  case h_4 ho =>
    obtain rfl := Option.some.inj h
    exact .noFrame ho
  case h_5 ho =>
    obtain rfl := Option.some.inj h
    exact .sent ho
  case h_6 ho =>
    obtain rfl := Option.some.inj h
    exact .notSent ho
  case h_7 =>
    obtain ⟨g, hg, rfl⟩ := Option.map_eq_some_iff.1 h
    exact .call hg

/-- The fields a new connection starts with. -/
def Sock.renew (s : Sock) : Sock :=
  { s with
    txFlags := {}
    rxFlags := {}
    locLink := .closed
    remLink := .closed
    rxq := (s.rxq.drop s.rxq.getUsed).2
    txq := (s.txq.drop s.txq.getUsed).2 }

/-- What the calls can do to the socket. -/
inductive CallCase (s : Sock) : Event → Sock → Prop
  | same {e : Event} : CallCase s e s
  | shut {e : Event} : CallCase s e { s with state := .closed }
  | listen {port : Port} (hs : s.state = .closed ∨ s.state = .listen) (hp : port ≠ 0) :
      CallCase s (.listen port) { s.renew with locPort := port, state := .listen }
  | connect {now rnd : U32} {ip : Ip} {port locPort : Port} (hs : s.state = .closed) (hp : port ≠ 0) :
      CallCase s (.connect now rnd ip port)
        { s.renew with
          remPort := port, addr := ip, locPort := locPort, txSeqStart := now, txSeqInit := now, state := .connect }
  | recv {size n : Nat} : CallCase s (.recv size) { s with rxq := (s.rxq.drop n).2 }
  | send {data : List UInt8} (hs : s.state = .established) :
      CallCase s (.send data) { s with txq := (s.txq.put data data.length).2 }
  | close {e : Event} {now : U32} {state : SockState} (hl : s.locLink = .opened)
      (hf : ¬ (s.state = .established ∧ s.txq.getUsed ≠ 0)) (hs : state = .closing ∨ state = .closed) :
      CallCase s e { s with locLink := .closing, state := state, synFinTs := now }

theorem closeFlush_cases (s : Sock) (e : Event) (now : U32) (expired : Bool) :
    CallCase s e (s.closeFlush now expired) := by
  unfold Sock.closeFlush
  split
  · split
    · exact .shut
    · exact .same
  · rename_i hf
    split
    · rename_i hl
      unfold Sock.closeWait
      split
      · exact .close hl hf (Or.inr rfl)
      · exact .close hl hf (Or.inl rfl)
    · unfold Sock.closeWait
      split
      · exact .shut
      · exact .same

theorem call_cases (s : Sock) {e : Event} {g : Sock → Sock} (hg : e.call = some g) : CallCase s e (g s) := by
  cases e <;> cases hg
  case listen port =>
    unfold Sock.listen
    split
    · exact .same
    · rename_i hs
      split
      · exact .same
      · exact .listen (by tauto) ‹_›
  case listenPoll expired =>
    unfold Sock.listenPoll
    split
    · exact .shut
    · exact .same
  case connect now rnd ip port =>
    unfold Sock.connect
    split
    · exact .same
    · split
      · exact .same
      · rename_i hs
        split
        · exact .same
        · exact .connect (not_not.1 hs) ‹_›
  case connectPoll expired =>
    unfold Sock.connectPoll
    split
    · exact .shut
    · exact .same
  case recv size => exact .recv
  case send data =>
    unfold Sock.send
    dsimp only
    split
    · exact .same
    · rename_i hs
      exact .send (not_not.1 hs)
  case close now expired =>
    unfold Sock.close
    split
    · exact .same
    · exact closeFlush_cases s _ now expired
  case closeFlush now expired => exact closeFlush_cases s _ now expired
  case closeWait expired =>
    unfold Sock.closeWait
    split
    · exact .shut
    · exact .same
  case reset =>
    unfold Sock.reset
    split
    · exact .shut
    · exact .same

/-- Without a frame to send the socket stays as it is, or is closed by the stall guard. -/
theorem startOutput_none {now : U32} {s s' : Sock} (h : s.startOutput now = (none, s')) :
    s' = s ∨ s' = { s with state := .closed } := by
  unfold Sock.startOutput at h
  split at h
  · exact Or.inl (Prod.mk.inj h).2.symm
  · split at h
    · exact Or.inr (Prod.mk.inj h).2.symm
    · split at h
      · exact Or.inl (Prod.mk.inj h).2.symm
      · split at h
        · exact Or.inl (Prod.mk.inj h).2.symm
        · cases h

theorem startOutput_some {now : U32} {flags : Flags} {s s' : Sock} (h : s.startOutput now = (some flags, s')) :
    s' = s ∧ s.outFlags = some flags := by
  unfold Sock.startOutput at h
  split at h
  · cases h
  · split at h
    · cases h
    · split at h
      · cases h
      · split at h
        · cases h
        · obtain ⟨hf, hs⟩ := Prod.mk.inj h
          exact ⟨hs.symm, by rw [← hf]; assumption⟩

@[simp] theorem buildFrame_keeps (flags : Flags) (s : Sock) :
    (s.buildFrame flags).2.state = s.state ∧ (s.buildFrame flags).2.locLink = s.locLink ∧
      (s.buildFrame flags).2.remLink = s.remLink ∧ (s.buildFrame flags).2.rxq = s.rxq ∧
      (s.buildFrame flags).2.txq = s.txq ∧ (s.buildFrame flags).2.rxSeqRecvd = s.rxSeqRecvd ∧
      (s.buildFrame flags).2.txSeqStart = s.txSeqStart ∧ (s.buildFrame flags).2.txFlags = s.txFlags := by
  simp [Sock.buildFrame]

@[simp] theorem buildFrame_flags (flags : Flags) (s : Sock) :
    (s.buildFrame flags).1.flags.fin = flags.fin ∧ (s.buildFrame flags).1.flags.syn = flags.syn := by
  unfold Sock.buildFrame
  dsimp only
  split <;> simp

theorem buildFrame_txSeqEnd (flags : Flags) (s : Sock) :
    (s.buildFrame flags).2.txSeqEnd =
      adv s.txSeqStart (s.txq.peek frameSize).length + if flags.special then 1 else 0 := by
  unfold Sock.buildFrame
  dsimp only
  by_cases hd : (s.txq.peek frameSize).length = 0 <;> cases hf : flags.special <;> simp_all [Flags.special]

@[simp] theorem frameSent_keeps (now : U32) (fr : Frame) (s : Sock) :
    (s.frameSent now fr).locLink = s.locLink ∧ (s.frameSent now fr).rxq = s.rxq ∧ (s.frameSent now fr).txq = s.txq ∧
      (s.frameSent now fr).rxSeqRecvd = s.rxSeqRecvd ∧ (s.frameSent now fr).txSeqStart = s.txSeqStart ∧
      (s.frameSent now fr).txSeqEnd = s.txSeqEnd ∧ (s.frameSent now fr).txFlags = fr.flags := by
  unfold Sock.frameSent
  dsimp only
  split <;> simp

@[simp] theorem frameSent_links (now : U32) (fr : Frame) (s : Sock) :
    (s.frameSent now fr).remLink = (if s.remLink = .closing then .closed else s.remLink) ∧
      (s.frameSent now fr).state = if s.remLink = .closing ∧ s.locLink = .closed then .closed else s.state := by
  unfold Sock.frameSent
  dsimp only
  by_cases h : s.remLink = .closing <;> simp [h]

end YieldStm32.Tcp
