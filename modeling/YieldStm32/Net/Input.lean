import YieldStm32.Lib.Traced
import YieldStm32.Net.Frame
import YieldStm32.Net.Tcp.Sock
import YieldStm32.Net.Udp.Sock

/-!
# The input path (`rxtx.c`, `eth.c`, `arp.c`, `arp_table.c`, `ip.c`, `icmp.c`, `tcp.c`, `udp.c`)

A received frame goes up through the layers by way of a descriptor that is never cleared: each layer sets the pointer of
its own header. What the layers read of the frame, the ranges they sum up or hand on, and the sizes they subtract are
noted as they go (`Access`); ARP frames are read without notes.

* `Stack` : memory, sockets, ARP table, echo state, and the frames queued for sending;
* `ethInput` : `TCPIPEth_Input`, with the layers above it;
* `receive` : the body of `TCPIPRxTx_RxTask` for one frame.
-/

namespace YieldStm32.TCPIP

open Traced

/-- `tcpip_frame_t`: the unions are `eth`, `inet` (`ip`, `arp`) and `transport` (`icmp`, `tcp`, `udp`). -/
structure Frame where
  ptr : Nat
  size : BitVec 32
  eth : Nat
  inet : Nat
  transport : Nat

/-- `struct arp_entry` -/
structure ArpEntry where
  ha : Mac
  pa : Ip
  ts : BitVec 32

/-- A frame queued for sending, by what it says. -/
inductive Sent where
  | arp (da : Mac) (oper : BitVec 16) (sha : Mac) (spa : Ip) (tha : Mac) (tpa : Ip)
  | echo (ethDa : Mac) (src dst : Ip) (type : UInt8) (id seqno : BitVec 16) (data : List UInt8)

/-- What the input path reads and changes. `now` is the reading of `time(0)`, `rnd i` the number drawn for TCP socket `i`. -/
structure Stack where
  mem : Mem
  addr : IpConfig
  arpTable : List ArpEntry
  tcp : List Tcp.Sock
  udp : List Udp.Sock
  echoId : BitVec 16
  echoAckno : BitVec 16
  now : BitVec 32
  rnd : Nat → BitVec 32
  sent : List Sent

inductive Err where
  | eok
  | efatal
  | eunkprot
  | eunkreq
  | eunkaddr
  | eunreachable
deriving DecidableEq, Repr

/-- The value returned, and what the call left behind. -/
structure Result where
  rc : Err
  frame : Frame
  stack : Stack

/-! ## Notes -/

/-- A header field of `n` bytes, a range of bytes summed up or handed on, or a subtraction of sizes. -/
inductive Access where
  | field (p n : Nat)
  | range (p n : Nat)
  | minus (a b : BitVec 32)

/-- A read of the field of `n` bytes at `p`. -/
def field {α : Type} (p n : Nat) (v : α) : Traced Access α := .note (.field p n) v

/-- The `n` bytes from `p` on. -/
def range (m : Mem) (p n : Nat) : Traced Access (List UInt8) := .note (.range p n) (Ring.copyOut m p n)

/-- `a - b`, of type `size_t` -/
def minus (a b : BitVec 32) : Traced Access (BitVec 32) := .note (.minus a b) (a - b)

/-! ## ARP -/

/-- `TCPIPIpAddr_IsMatchingAny` -/
def ipAny : Ip := 0

/-- The search of `TCPIPArpTable_UpdateTable`: `oldest_id` and `ha_id`. -/
def arpScan (now : BitVec 32) (ha : Mac) : List ArpEntry → Nat → Option Nat → Option Nat → Int → Option Nat × Option Nat
  | [], _, oldestId, haId, _ => (oldestId, haId)
  | e :: es, i, oldestId, haId, oldestDtime =>
    let haId := if ha = e.ha then some i else haId
    if oldestDtime < (now - e.ts).toInt then arpScan now ha es (i + 1) (some i) haId (now - e.ts).toInt
    else arpScan now ha es (i + 1) oldestId haId oldestDtime

/-- `TCPIPArpTable_UpdateTable` -/
def arpUpdateTable (ha : Mac) (pa : Ip) (s : Stack) : Stack :=
  let (oldestId, haId) := arpScan s.now ha s.arpTable 0 none none 0
  match haId <|> oldestId with
  | some i => { s with arpTable := s.arpTable.set i ⟨ha, pa, s.now⟩ }
  -- `&arp_table[-1]`: every entry is of this very moment, and the write goes in front of the table
  | none => s

/-- `TCPIPArpTable_GetHWAddr` -/
def arpTableGetHWAddr (pa : Ip) (s : Stack) : Option (Mac × Stack) :=
  match s.arpTable.findIdx? fun e => decide (e.pa = pa) with
  | none => none
  | some i => (s.arpTable[i]?).map fun e => (e.ha, { s with arpTable := s.arpTable.set i { e with ts := s.now } })

/-- `TCPIP_ARP_OPER_REQUEST` -/
def arpOperRequest : BitVec 16 := 1

/-- `TCPIP_ARP_OPER_REPLY` -/
def arpOperReply : BitVec 16 := 2

/-- The loop of `TCPIPArp_GetHWAddr`, which sleeps after each request. The task that would store a reply is the one that
sleeps, so every attempt finds the same table. -/
def arpAttempts (pa : Ip) : Nat → Stack → Option Mac × Stack
  | 0, s => (none, s)
  | n + 1, s =>
    match arpTableGetHWAddr pa s with
    | some (ha, s) => (some ha, s)
    | none =>
      arpAttempts pa n { s with sent := s.sent ++ [.arp ethBcast arpOperRequest ethAddress s.addr.ip ethBcast pa] }

/-- `TCPIPArp_GetHWAddr`, with `TCPIP_ARP_ATTEMPTS` attempts -/
def arpGetHWAddr (pa : Ip) (s : Stack) : Option Mac × Stack :=
  if pa = ipAny ∨ s.addr.IsMatchingBroadcast pa then (some ethBcast, s) else arpAttempts pa 5 s

/-- The header is one for Ethernet and IP. -/
def ArpEthIp (m : Mem) (arp : Nat) : Prop :=
  (be16 m arp = 1 ∧ be16 m (arp + 2) = ethtypeIp) ∧ m (arp + 4) = 6 ∧ m (arp + 5) = 4

instance (m : Mem) (arp : Nat) : Decidable (ArpEthIp m arp) := inferInstanceAs (Decidable (_ ∧ _))

/-- `TCPIPArp_ProcessRequest` -/
def arpProcessRequest (f : Frame) (s : Stack) : Result :=
  let sha := mac s.mem (f.inet + 8)
  let spa := be32 s.mem (f.inet + 14)
  if ¬ ArpEthIp s.mem f.inet then ⟨.eunkprot, f, s⟩
  else if be32 s.mem (f.inet + 24) ≠ s.addr.ip then ⟨.eok, f, s⟩
  else
    let s := arpUpdateTable sha spa s
    ⟨.eok, f, { s with
      sent := s.sent ++ [.arp (ethSA s.mem f.eth) arpOperReply ethAddress s.addr.ip sha spa] }⟩

/-- `TCPIPArp_ProcessReply` -/
def arpProcessReply (f : Frame) (s : Stack) : Result :=
  if ¬ ArpEthIp s.mem f.inet then ⟨.eunkprot, f, s⟩
  else if ¬ s.addr.IsMatchingUnicast (be32 s.mem (f.inet + 24)) ∨ mac s.mem (f.inet + 18) ≠ ethAddress then ⟨.eok, f, s⟩
  else ⟨.eok, f, arpUpdateTable (mac s.mem (f.inet + 8)) (be32 s.mem (f.inet + 14)) s⟩

/-- `TCPIPArp_Input` -/
def arpInput (f : Frame) (s : Stack) : Result :=
  let f := { f with inet := f.ptr }
  let oper := be16 s.mem (f.inet + 6)
  if oper = arpOperRequest then arpProcessRequest f s
  else if oper = arpOperReply then arpProcessReply f s
  else ⟨.eunkreq, f, s⟩

/-! ## ICMP -/

/-- The hardware address that `TCPIPIp_Send` sends to. -/
def ipResolve (dst : Ip) (s : Stack) : Option Mac × Stack :=
  if s.addr.IsMatchingBroadcast dst then (some ethBcast, s)
  else if IsMatchingMulticast dst then (some (0x01005e#24 ++ dst.truncate 24), s)
  else arpGetHWAddr (if s.addr.IsWithinSubnet dst then dst else s.addr.gway) s

/-- `TCPIPIcmp_SendEcho` with `TCPIPIp_Send`: the frame is dropped where there is no hardware address. -/
def icmpSendEcho (da : Ip) (type : UInt8) (id seqno : BitVec 16) (data : List UInt8) (s : Stack) : Err × Stack :=
  match ipResolve da s with
  | (none, s) => (.eunkaddr, s)
  | (some ethDa, s) => (.eok, { s with sent := s.sent ++ [.echo ethDa s.addr.ip da type id seqno data] })

/-- `TCPIPIcmp_ProcessEchoRequest` -/
def icmpProcessEchoRequest (f : Frame) (s : Stack) : Traced Access Result := do
  let id ← field (f.transport + 4) 2 (icmpEchoID s.mem f.transport)
  let seqno ← field (f.transport + 6) 2 (icmpEchoSeqNo s.mem f.transport)
  let sa ← field (f.inet + 12) 4 (ipSrcAddr s.mem f.inet)
  let size ← minus f.size 4
  let dataSize ← minus size 4
  let data ← range s.mem (f.transport + 8) dataSize.toNat
  let r := icmpSendEcho sa icmpEchoReply id seqno data s
  pure ⟨r.1, f, r.2⟩

/-- `TCPIPIcmp_ProcessEchoResponse` -/
def icmpProcessEchoResponse (f : Frame) (s : Stack) : Traced Access Result := do
  let da ← field (f.inet + 12) 4 (ipSrcAddr s.mem f.inet)
  let id ← field (f.transport + 4) 2 (icmpEchoID s.mem f.transport)
  let seqno ← field (f.transport + 6) 2 (icmpEchoSeqNo s.mem f.transport)
  if s.addr.IsMatchingUnicast da ∧ s.echoId = id ∧ s.echoAckno ≠ 0 then pure ⟨.eok, f, { s with echoAckno := seqno }⟩
  else pure ⟨.eok, f, s⟩

/-- `TCPIPIcmp_Input` -/
def icmpInput (f : Frame) (s : Stack) : Traced Access Result := do
  -- the pointer is fetched before it is set to this frame's header
  let icmp := f.transport
  let f := { f with transport := f.ptr }
  let bytes ← range s.mem icmp f.size.toNat
  if ~~~ checksum 0 bytes ≠ 0 then pure ⟨.efatal, f, s⟩
  else do
    let type ← field icmp 1 (icmpType s.mem icmp)
    if type = icmpEchoRequest then icmpProcessEchoRequest f s
    else if type = icmpEchoReply then icmpProcessEchoResponse f s
    else pure ⟨.eok, f, s⟩

/-! ## TCP and UDP -/

/-- `TCPIPTcpFrame_GetFlags` -/
def tcpFlags (x : BitVec 16) : Tcp.Flags where
  fin := x.getLsbD 0
  syn := x.getLsbD 1
  rst := x.getLsbD 2
  psh := x.getLsbD 3
  ack := x.getLsbD 4
  urg := x.getLsbD 5
  ece := x.getLsbD 6
  cwr := x.getLsbD 7
  ns := x.getLsbD 8
  rsv := x.getLsbD 9

/-- The header fields that `TCPIPTcpSock_Input` reads, with the payload it is handed. -/
def tcpSegment (m : Mem) (ip tcp : Nat) (data : List UInt8) : Tcp.Segment where
  srcIp := ipSrcAddr m ip
  srcPort := be16 m tcp
  dstPort := be16 m (tcp + 2)
  seq := be32 m (tcp + 4)
  ack := be32 m (tcp + 8)
  win := be16 m (tcp + 14)
  flags := tcpFlags (be16 m (tcp + 12))
  data := data

def Err.ofTcp : Tcp.Err → Err
  | .eok => .eok
  | .efatal => .efatal

/-- `TCPIPTcp_Input` -/
def tcpInput (f : Frame) (s : Stack) : Traced Access Result := do
  let f := { f with transport := f.ptr }
  let doffs ← field (f.transport + 12) 2 (tcpDataOffs s.mem f.transport)
  let size ← minus f.size (BitVec.ofNat 32 doffs)
  let f := { f with ptr := f.ptr + doffs, size := size }
  let data ← range s.mem f.ptr f.size.toNat
  let r := Tcp.input s.now s.rnd (tcpSegment s.mem f.inet f.transport data) s.tcp
  pure ⟨.ofTcp r.1, f, { s with tcp := r.2 }⟩

/-- The header fields that `TCPIPUdpSock_Input` reads, with the payload it is handed. -/
def udpDatagram (m : Mem) (ip udp : Nat) (data : List UInt8) : Udp.Datagram where
  srcIp := ipSrcAddr m ip
  srcPort := be16 m udp
  dstPort := be16 m (udp + 2)
  data := data

def Err.ofUdp : Udp.Err → Err
  | .eok => .eok
  | .efatal => .efatal
  | .eunreachable => .eunreachable

/-- `TCPIPUdp_Input` -/
def udpInput (f : Frame) (s : Stack) : Traced Access Result := do
  let f := { f with transport := f.ptr }
  let length ← field (f.transport + 4) 2 (udpLength s.mem f.transport)
  let size ← minus (length.zeroExtend 32) 8
  let f := { f with ptr := f.transport + 8, size := size }
  let data ← range s.mem f.ptr f.size.toNat
  let r := Udp.input (udpDatagram s.mem f.inet f.transport data) s.udp
  pure ⟨.ofUdp r.1, f, { s with udp := r.2 }⟩

/-! ## IP and Ethernet -/

/-- `TCPIPIpChecksum_Compute` -/
def ipChecksumCompute (m : Mem) (ip : Nat) : Traced Access (BitVec 16) := do
  let hdrLen ← field ip 1 (ipHdrLen m ip)
  let bytes ← range m ip hdrLen
  pure (~~~ checksum 0 bytes)

/-- `TCPIPIp_Input` -/
def ipInput (f : Frame) (s : Stack) : Traced Access Result := do
  let ip := f.ptr
  let f := { f with inet := f.ptr }
  let sum ← ipChecksumCompute s.mem ip
  if sum ≠ 0 then pure ⟨.efatal, f, s⟩
  else do
    let hdrLen ← field ip 1 (ipHdrLen s.mem ip)
    let length ← field (ip + 2) 2 (ipLength s.mem ip)
    let pldLen ← minus (length.zeroExtend 32) (BitVec.ofNat 32 hdrLen)
    let da ← field (ip + 16) 4 (ipDstAddr s.mem ip)
    if ¬ s.addr.Addressed da then pure ⟨.eok, f, s⟩
    else do
      let flags ← field (ip + 6) 2 (ipFlags s.mem ip)
      let foffs ← field (ip + 6) 2 (ipFragmentOffset s.mem ip)
      -- we do not support fragmentation
      if flags &&& 0x8000 ≠ 0 ∨ foffs ≠ 0 then pure ⟨.eok, f, s⟩
      else do
        let f := { f with size := pldLen, ptr := f.ptr + hdrLen }
        let protocol ← field (ip + 9) 1 (ipProtocol s.mem ip)
        if protocol = protocolIcmp then icmpInput f s
        else if protocol = protocolTcp then tcpInput f s
        else if protocol = protocolUdp then udpInput f s
        else pure ⟨.eunkprot, f, s⟩

/-- `TCPIPEth_Input` -/
def ethInput (f : Frame) (s : Stack) : Traced Access Result := do
  let f := { f with eth := f.ptr }
  let size ← minus f.size 14
  let f := { f with size := size, ptr := f.eth + 14 }
  let type ← field (f.eth + 12) 2 (ethType s.mem f.eth)
  if type = ethtypeIp then ipInput f s
  else if type = ethtypeArp then pure (arpInput f s)
  else pure ⟨.eunkprot, f, s⟩

/-- The body of `TCPIPRxTx_RxTask` for a frame received at `rx`: two fields of the descriptor are set, the layer pointers
are those of the frame before. -/
def receive (rx : Nat) (bytes : List UInt8) (f : Frame) (s : Stack) : Traced Access Result :=
  ethInput { f with ptr := rx, size := BitVec.ofNat 32 bytes.length } { s with mem := Ring.copyIn s.mem rx bytes }

/-- A stack with no sockets, and no memory but zeros. -/
def idleStack : Stack where
  mem := fun _ => 0
  addr := .default
  arpTable := []
  tcp := []
  udp := []
  echoId := 0
  echoAckno := 0
  now := 0
  rnd := fun _ => 0
  sent := []

/-- A descriptor that was never used. -/
def zeroFrame : Frame := ⟨0, 0, 0, 0, 0⟩

/-! ## Values -/

/-- A datagram that `TCPIPIp_Input` hands on. -/
def IpConfig.Accepts (c : IpConfig) (m : Mem) (ip : Nat) : Prop := ipChecksumIsValid m ip ∧ c.Passes m ip

instance (c : IpConfig) (m : Mem) (ip : Nat) : Decidable (c.Accepts m ip) := inferInstanceAs (Decidable (_ ∧ _))

/-- The descriptor as it is handed on: the payload behind the header, and the transport pointer of the frame before. -/
def ipFrame (m : Mem) (f : Frame) : Frame :=
  { f with inet := f.ptr, size := ipPldLen m f.ptr, ptr := f.ptr + ipHdrLen m f.ptr }

/-- The switch on the protocol. -/
def transportInput (f : Frame) (s : Stack) : Result :=
  let protocol := ipProtocol s.mem f.inet
  if protocol = protocolIcmp then (icmpInput f s).val
  else if protocol = protocolTcp then (tcpInput f s).val
  else if protocol = protocolUdp then (udpInput f s).val
  else ⟨.eunkprot, f, s⟩

theorem ipInput_val (f : Frame) (s : Stack) :
    (ipInput f s).val = if s.addr.Accepts s.mem f.ptr then transportInput (ipFrame s.mem f) s
      else ⟨if ipChecksumIsValid s.mem f.ptr then .eok else .efatal, { f with inet := f.ptr }, s⟩ := by
  simp only [ipInput, ipChecksumCompute, field, range, minus, val_bind, val_pure, val_ite]
  by_cases hv : ipChecksumIsValid s.mem f.ptr
  case neg =>
    have hno : ¬ s.addr.Accepts s.mem f.ptr := fun h => hv h.1
    rw [if_neg hno, if_neg hv]
    exact if_pos hv
  have hsum : ¬ ~~~ checksum 0 (Ring.copyOut s.mem f.ptr (ipHdrLen s.mem f.ptr)) ≠ 0 := not_not.2 hv
  rw [if_neg hsum, if_pos hv]
  by_cases ha : s.addr.Addressed (ipDstAddr s.mem f.ptr)
  case neg =>
    have hno : ¬ s.addr.Accepts s.mem f.ptr := fun h => ha h.2.1
    rw [if_neg hno, if_pos ha]
  rw [if_neg (not_not.2 ha)]
  by_cases hf : ipFlags s.mem f.ptr &&& 0x8000 ≠ 0 ∨ ipFragmentOffset s.mem f.ptr ≠ 0
  case pos =>
    have hno : ¬ s.addr.Accepts s.mem f.ptr := fun h => h.2.2 hf
    rw [if_neg hno, if_pos hf]
  have hyes : s.addr.Accepts s.mem f.ptr := ⟨hv, ha, hf⟩
  rw [if_neg hf, if_pos hyes]
  rfl

/-- The layers of a frame received, up to its transport layer. -/
theorem receive_val (rx : Nat) (bytes : List UInt8) (f : Frame) (s : Stack)
    (ht : ethType (Ring.copyIn s.mem rx bytes) rx = ethtypeIp) :
    (receive rx bytes f s).val =
      (ipInput ⟨rx + 14, BitVec.ofNat 32 bytes.length - 14, rx, f.inet, f.transport⟩
        { s with mem := Ring.copyIn s.mem rx bytes }).val := by
  simp only [receive, ethInput, field, minus, val_bind, val_ite]
  exact if_pos ht

end YieldStm32.TCPIP
