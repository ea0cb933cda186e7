import YieldStm32.Sys.Queue

/-!
# TCP sockets (`net/tcpip/src/tcp_sock.c`)

One socket: the incoming side is one function, cut into the sections the source comments name; the outgoing side is cut at
its two yields, the allocation of the frame and its sending. The application's calls are cut at their yields too: a call
is its entry and the polls after it. `now` and `rnd` are the readings of `time(0)` and `Seed_GetRand()`.
-/

namespace YieldStm32.Tcp

open Counter

abbrev U32 := BitVec 32

/-- `tcpip_tcp_port_t` -/
abbrev Port := BitVec 16

/-- `tcpip_ip_addr_t` -/
abbrev Ip := BitVec 32

inductive SockState where
  | free
  | closed
  | listen
  | connect
  | establishing
  | established
  | closing
deriving DecidableEq, Repr

inductive LinkState where
  | closed
  | opened
  | closing
deriving DecidableEq, Repr

/-- `tcpip_tcp_flags_t`: the ten bits of `TCPIP_TCP_FLAGS_DOFFS_FLAGS`. -/
structure Flags where
  fin : Bool := false
  syn : Bool := false
  rst : Bool := false
  psh : Bool := false
  ack : Bool := false
  urg : Bool := false
  ece : Bool := false
  cwr : Bool := false
  ns : Bool := false
  rsv : Bool := false
deriving DecidableEq, Repr

/-- `TCPIP_TCP_FLAGS_SYN | TCPIP_TCP_FLAGS_ACK` -/
def Flags.synAck : Flags := { syn := true, ack := true }

/-- `flags & (TCPIP_TCP_FLAGS_FIN | TCPIP_TCP_FLAGS_SYN)` -/
def Flags.special (f : Flags) : Bool := f.fin || f.syn

/-- A segment with the addresses it comes with. -/
structure Segment where
  srcIp : Ip
  srcPort : Port
  dstPort : Port
  seq : U32
  ack : U32
  win : BitVec 16
  flags : Flags
  data : List UInt8
deriving DecidableEq, Repr

/-- `tcpip_tcp_sock_t` -/
structure Sock where
  state : SockState
  locLink : LinkState
  remLink : LinkState
  locPort : Port
  remPort : Port
  addr : Ip
  rxq : Queue UInt8
  txq : Queue UInt8
  rxSeqInit : U32
  rxSeqRecvd : U32
  rxSeqAcked : U32
  rxFlags : Flags
  rxWin : U32
  txSeqInit : U32
  txSeqStart : U32
  txSeqEnd : U32
  txWin : U32
  txFlags : Flags
  txRetrTs : U32
  txRetrCnt : U32
  synFinTs : U32

inductive Err where
  | eok
  | efatal
deriving DecidableEq, Repr

/-- `TCPIPTcpSock_Create` on a socket that was never used: all fields are zero but the state and the queues. -/
def Sock.create (rxq txq : Queue UInt8) : Sock where
  state := .closed
  locLink := .closed
  remLink := .closed
  locPort := 0
  remPort := 0
  addr := 0
  rxq := rxq
  txq := txq
  rxSeqInit := 0
  rxSeqRecvd := 0
  rxSeqAcked := 0
  rxFlags := {}
  rxWin := 0
  txSeqInit := 0
  txSeqStart := 0
  txSeqEnd := 0
  txWin := 0
  txFlags := {}
  txRetrTs := 0
  txRetrCnt := 0
  synFinTs := 0

/-! ## `TCPIPTcpSock_ProcessIncoming` -/

/-- The socket is open and the ports and addresses are its own. -/
def Sock.Matches (f : Segment) (s : Sock) : Prop :=
  s.state ≠ .free ∧ s.state ≠ .closed ∧ s.locPort = f.dstPort ∧
    (s.state = .listen ∨ s.remPort = f.srcPort ∧ s.addr = f.srcIp)

instance (f : Segment) (s : Sock) : Decidable (s.Matches f) := inferInstanceAs (Decidable (_ ∧ _))

/-- Synchronization is only taken while listening, or as the answer to our own. -/
def Sock.TakesSyn (f : Segment) (s : Sock) : Prop :=
  s.state = .listen ∨ s.state = .connect ∧ f.flags.ack = true

instance (f : Segment) (s : Sock) : Decidable (s.TakesSyn f) := inferInstanceAs (Decidable (_ ∨ _))

/-- The counters of a new connection. -/
def Sock.synchronize (now rnd : U32) (f : Segment) (s : Sock) : Sock :=
  let s := { s with
    addr := f.srcIp
    remPort := f.srcPort
    rxSeqRecvd := f.seq + 1
    rxSeqAcked := f.seq
    rxWin := BitVec.ofNat 32 s.rxq.getFree
    txSeqStart := rnd
    txWin := f.win.zeroExtend 32
    txRetrCnt := 0
    txRetrTs := 0 }
  let s :=
    if s.state = .listen then { s with state := .establishing }
    else { s with state := .established, locLink := .opened, remLink := .opened }
  { s with synFinTs := now }

/-- The acknowledgement number lies between the numbers sent. -/
def Sock.InWindow (ack : U32) (s : Sock) : Prop := ack - s.txSeqStart ≤ s.txSeqEnd - s.txSeqStart

instance (ack : U32) (s : Sock) : Decidable (s.InWindow ack) := inferInstanceAs (Decidable (_ ≤ _))

/-- The first ack after our syn+ack. -/
def Sock.establish (s : Sock) : Sock :=
  if s.state = .establishing ∧ s.txFlags = .synAck then
    { s with state := .established, locLink := .opened, remLink := .opened }
  else s

/-- The last ack from the remote site. -/
def Sock.lastAck (s : Sock) : Sock :=
  if s.locLink = .closing then
    { s with
      locLink := .closed
      state := if s.remLink = .closed then .closed else s.state }
  else s

/-- Incoming data are only appended in sequence; otherwise they are acknowledged again. -/
def Sock.receive (f : Segment) (s : Sock) : Sock :=
  if f.seq = s.rxSeqRecvd then
    let recvd := if f.flags.special then s.rxSeqRecvd + 1 else s.rxSeqRecvd
    let (stored, rxq) := s.rxq.put f.data f.data.length
    { s with rxq := rxq, rxSeqRecvd := adv recvd stored }
  else { s with rxSeqAcked := f.seq }

/-- The acknowledgement for outgoing data. -/
def Sock.acknowledge (f : Segment) (s : Sock) : Sock :=
  let acked := f.ack - s.txSeqStart
  let start := s.txSeqStart + acked
  { s with
    txq := (s.txq.drop acked.toNat).2
    txSeqStart := start
    txRetrCnt := if start = s.txSeqEnd then 0 else s.txRetrCnt }

/-- An accepted ack, from the check of the counters on. -/
def Sock.takeAck (f : Segment) (s : Sock) : Sock := ((s.establish.lastAck).receive f).acknowledge f

/-- The remote party finalizes the connection. -/
def Sock.takeFin (now : U32) (f : Segment) (s : Sock) : Sock :=
  if f.flags.fin then
    { s with
      state := .closing
      remLink := .closing
      locLink := if s.locLink = .opened then .closing else s.locLink
      synFinTs := now }
  else s

/-- The end of the function: the fin section and the flags stored for the fsm. -/
def Sock.accept (now : U32) (f : Segment) (s : Sock) : Sock := { s.takeFin now f with rxFlags := f.flags }

/-! ### What each section keeps -/

section Keeps

variable (now rnd : U32) (f : Segment) (s : Sock)

@[simp] theorem establish_keeps :
    s.establish.rxq = s.rxq ∧ s.establish.txq = s.txq ∧ s.establish.rxSeqRecvd = s.rxSeqRecvd ∧
      s.establish.rxSeqAcked = s.rxSeqAcked ∧ s.establish.txSeqStart = s.txSeqStart ∧
      s.establish.txSeqEnd = s.txSeqEnd ∧ s.establish.txFlags = s.txFlags ∧
      s.establish.txRetrCnt = s.txRetrCnt := by
  unfold Sock.establish
  split <;> simp

@[simp] theorem lastAck_keeps :
    s.lastAck.remLink = s.remLink ∧ s.lastAck.rxq = s.rxq ∧ s.lastAck.txq = s.txq ∧
      s.lastAck.rxSeqRecvd = s.rxSeqRecvd ∧ s.lastAck.rxSeqAcked = s.rxSeqAcked ∧
      s.lastAck.txSeqStart = s.txSeqStart ∧ s.lastAck.txSeqEnd = s.txSeqEnd ∧ s.lastAck.txFlags = s.txFlags ∧
      s.lastAck.txRetrCnt = s.txRetrCnt := by
  unfold Sock.lastAck
  split <;> simp

@[simp] theorem receive_keeps :
    (s.receive f).state = s.state ∧ (s.receive f).locLink = s.locLink ∧ (s.receive f).remLink = s.remLink ∧
      (s.receive f).txq = s.txq ∧ (s.receive f).txSeqStart = s.txSeqStart ∧
      (s.receive f).txSeqEnd = s.txSeqEnd ∧ (s.receive f).txFlags = s.txFlags ∧
      (s.receive f).txRetrCnt = s.txRetrCnt := by
  unfold Sock.receive
  split <;> simp

@[simp] theorem acknowledge_keeps :
    (s.acknowledge f).state = s.state ∧ (s.acknowledge f).locLink = s.locLink ∧
      (s.acknowledge f).remLink = s.remLink ∧ (s.acknowledge f).rxq = s.rxq ∧
      (s.acknowledge f).rxSeqRecvd = s.rxSeqRecvd ∧ (s.acknowledge f).rxSeqAcked = s.rxSeqAcked ∧
      (s.acknowledge f).txSeqEnd = s.txSeqEnd ∧ (s.acknowledge f).txFlags = s.txFlags := by
  simp [Sock.acknowledge]

@[simp] theorem acknowledge_txSeqStart : (s.acknowledge f).txSeqStart = f.ack := by
  rw [Sock.acknowledge, BitVec.add_comm, BitVec.sub_add_cancel]

@[simp] theorem accept_keeps :
    (s.accept now f).rxq = s.rxq ∧ (s.accept now f).txq = s.txq ∧ (s.accept now f).rxSeqRecvd = s.rxSeqRecvd ∧
      (s.accept now f).rxSeqAcked = s.rxSeqAcked ∧ (s.accept now f).txSeqStart = s.txSeqStart ∧
      (s.accept now f).txSeqEnd = s.txSeqEnd ∧ (s.accept now f).txFlags = s.txFlags ∧
      (s.accept now f).txRetrCnt = s.txRetrCnt := by
  unfold Sock.accept Sock.takeFin
  split <;> simp

@[simp] theorem accept_links :
    (s.accept now f).state = (if f.flags.fin then .closing else s.state) ∧
      (s.accept now f).remLink = (if f.flags.fin then .closing else s.remLink) ∧
      (s.accept now f).locLink = if f.flags.fin = true ∧ s.locLink = .opened then .closing else s.locLink := by
  unfold Sock.accept Sock.takeFin
  by_cases hf : f.flags.fin = true <;> simp [hf]

@[simp] theorem synchronize_keeps :
    (s.synchronize now rnd f).rxq = s.rxq ∧ (s.synchronize now rnd f).txq = s.txq ∧
      (s.synchronize now rnd f).txSeqEnd = s.txSeqEnd ∧ (s.synchronize now rnd f).txFlags = s.txFlags := by
  unfold Sock.synchronize
  dsimp only
  split <;> simp

@[simp] theorem synchronize_sets :
    (s.synchronize now rnd f).state = (if s.state = .listen then .establishing else .established) ∧
      (s.synchronize now rnd f).locLink = (if s.state = .listen then s.locLink else .opened) ∧
      (s.synchronize now rnd f).remLink = (if s.state = .listen then s.remLink else .opened) ∧
      (s.synchronize now rnd f).txSeqStart = rnd ∧ (s.synchronize now rnd f).rxSeqRecvd = f.seq + 1 := by
  unfold Sock.synchronize
  dsimp only
  split <;> simp

end Keeps

/-- From the ack section on. -/
def processAck (now : U32) (f : Segment) (s : Sock) : Err × Sock :=
  if f.flags.ack then
    if s.state = .closed ∨ s.state = .listen then (.efatal, s)
    else if ¬ s.InWindow f.ack then (.efatal, s)
    else (.eok, (s.takeAck f).accept now f)
  else (.eok, s.accept now f)

/-- `TCPIPTcpSock_ProcessIncoming` -/
def processIncoming (now rnd : U32) (f : Segment) (s : Sock) : Err × Sock :=
  if ¬ s.Matches f then (.efatal, s)
  else
    -- reset segment
    let s := if f.flags.rst then { s with state := .closed } else s
    if f.flags.syn then
      -- we are not listening and not trying to connect
      if ¬ s.TakesSyn f then (.efatal, s)
      else processAck now f (s.synchronize now rnd f)
    else processAck now f s

/-- `TCPIPTcpSock_Input`: the sockets in table order, up to the first that accepts. `rnd i` is the number drawn for
socket `i`. -/
def input (now : U32) (rnd : Nat → U32) (f : Segment) : List Sock → Err × List Sock
  | [] => (.efatal, [])
  | s :: socks =>
    match processIncoming now (rnd 0) f s with
    | (.eok, s) => (.eok, s :: socks)
    | (.efatal, s) =>
      let (ec, socks) := input now (fun i => rnd (i + 1)) f socks
      (ec, s :: socks)

end YieldStm32.Tcp
