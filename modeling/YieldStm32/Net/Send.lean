import YieldStm32.Net.Checksum
import YieldStm32.Net.Dhcp.RoundTrip
import YieldStm32.Net.Outgoing

/-!
# Frames on their way out (`eth.c`, `arp.c`, `ip.c`, `icmp.c`, `tcp.c`, `udp.c`)

A layer writes its header in front of what the layer above it left in the transmit buffer, field by field, and moves the
descriptor to it. Fields that share a byte or a word are read, masked and written back, so that some bits of a header are
whatever the buffer held before.

* `ethSend`, `ipSend`, `tcpSend`, `udpSend` : the functions `..._Send`, up to `TCPIPRxTx_Send`;
* `udpSendTo`, `tcpEmit`, `icmpEmitEcho`, `arpEmit` : the senders above them;
* `Out.bytes` : the frame that goes to the wire.

The hardware address that `TCPIPIp_Send` gets from `TCPIPArp_GetHWAddr` is an argument.
-/

namespace YieldStm32.TCPIP

open Ring DHCPFrame

/-! ## Fields -/

/-- A field of one byte is set. -/
def setByte (m : Mem) (p : Nat) (b : UInt8) : Mem := copyIn m p [b]

/-- `HTOBE32` into the field at `p`. -/
def setBe32 (m : Mem) (p : Nat) (x : BitVec 32) : Mem := copyIn m p (be32Bytes x)

/-- The six bytes of a hardware address. -/
def setMac (m : Mem) (p : Nat) (a : Mac) : Mem := copyIn m p (macBytes a)

/-- `TCPIPIpFrame_SetHdrLen`: in bytes. -/
def setIpHdrLen (m : Mem) (ip n : Nat) : Mem := setByte m ip ((m ip &&& ~~~(0x0F : UInt8)) ||| (UInt8.ofNat (n / 4) &&& 0x0F))

/-- `TCPIPIpFrame_SetVersion` -/
def setIpVersion (m : Mem) (ip : Nat) (v : UInt8) : Mem := setByte m ip ((m ip &&& ~~~(0xF0 : UInt8)) ||| (v <<< 4 &&& 0xF0))

/-- `TCPIPIpFrame_SetTos` -/
def setIpTos (m : Mem) (ip : Nat) (tos : UInt8) : Mem := setByte m (ip + 1) tos

/-- `TCPIPIpFrame_SetLength` -/
def setIpLength (m : Mem) (ip : Nat) (length : BitVec 16) : Mem := setBe16 m (ip + 2) length

/-- `TCPIPIpFrame_SetIdentification` -/
def setIpIdentification (m : Mem) (ip : Nat) (id : BitVec 16) : Mem := setBe16 m (ip + 4) id

/-- `TCPIPIpFrame_SetFlags`: the other bits stay. -/
def setIpFlags (m : Mem) (ip : Nat) (flags : BitVec 16) : Mem :=
  setBe16 m (ip + 6) ((ipFlagsFragmentOffset m ip &&& ~~~(0xC000 : BitVec 16)) ||| flags)

/-- `TCPIPIpFrame_SetFragmentOffset`: the other bits stay. -/
def setIpFragmentOffset (m : Mem) (ip : Nat) (offset : BitVec 16) : Mem :=
  setBe16 m (ip + 6) ((ipFlagsFragmentOffset m ip &&& ~~~(0x03FF : BitVec 16)) ||| offset)

/-- `TCPIPIpFrame_SetTTL` -/
def setIpTTL (m : Mem) (ip : Nat) (ttl : UInt8) : Mem := setByte m (ip + 8) ttl

/-- `TCPIPIpFrame_SetProtocol` -/
def setIpProtocol (m : Mem) (ip : Nat) (protocol : UInt8) : Mem := setByte m (ip + 9) protocol

/-- `TCPIPIpFrame_SetSrcAddr` -/
def setIpSrcAddr (m : Mem) (ip : Nat) (a : Ip) : Mem := setBe32 m (ip + 12) a

/-- `TCPIPIpFrame_SetDstAddr` -/
def setIpDstAddr (m : Mem) (ip : Nat) (a : Ip) : Mem := setBe32 m (ip + 16) a

/-- `flags_data_offs` -/
def tcpFlagsDataOffs (m : Mem) (tcp : Nat) : BitVec 16 := be16 m (tcp + 12)

/-- `TCPIPTcpFrame_SetFlags`: the other bits stay. -/
def setTcpFlags (m : Mem) (tcp : Nat) (flags : BitVec 16) : Mem :=
  setBe16 m (tcp + 12) ((tcpFlagsDataOffs m tcp &&& ~~~(0x03FF : BitVec 16)) ||| (flags &&& 0x03FF))

/-- `TCPIPTcpFrame_SetDataOffs`: in bytes; the other bits stay. -/
def setTcpDataOffs (m : Mem) (tcp n : Nat) : Mem :=
  setBe16 m (tcp + 12) ((tcpFlagsDataOffs m tcp &&& ~~~(0xF000 : BitVec 16)) ||| (BitVec.ofNat 16 (n / 4) <<< 12 &&& 0xF000))

/-- The values of `tcpip_tcp_flags_t`, or-ed. -/
def tcpFlagBits (f : Tcp.Flags) : BitVec 16 :=
  let bit (b : Bool) (v : BitVec 16) : BitVec 16 := if b then v else 0
  bit f.fin 0x0001 ||| bit f.syn 0x0002 ||| bit f.rst 0x0004 ||| bit f.psh 0x0008 ||| bit f.ack 0x0010 |||
    bit f.urg 0x0020 ||| bit f.ece 0x0040 ||| bit f.cwr 0x0080 ||| bit f.ns 0x0100 ||| bit f.rsv 0x0200

/-! ## Reading what was written -/

section

variable (m : Mem) {p q : Nat}

/-- A cell that a copy does not reach. -/
theorem copyIn_of_ne {bs : List UInt8} (h : q < p ∨ p + bs.length ≤ q) : copyIn m p bs q = m q := dif_neg (by omega)

theorem be16_copyIn_of_disjoint {bs : List UInt8} (h : q + 2 ≤ p ∨ p + bs.length ≤ q) :
    be16 (copyIn m p bs) q = be16 m q := by
  unfold be16
  rw [copyIn_of_ne m (by omega), copyIn_of_ne m (by omega)]

theorem mac_copyIn_of_disjoint {bs : List UInt8} (h : q + 6 ≤ p ∨ p + bs.length ≤ q) :
    mac (copyIn m p bs) q = mac m q := by
  unfold mac
  rw [be32_copyIn_of_disjoint m (by omega), be16_copyIn_of_disjoint m (by omega)]

theorem setByte_self (b : UInt8) : setByte m p b p = b := by
  simp [setByte, copyIn]

theorem be16_setBe16_self (v : BitVec 16) : be16 (setBe16 m p v) p = v :=
  (be16_of_copyOut (copyOut_copyIn_self m p _)).trans (extract_append v)

theorem be32_setBe32_self (v : BitVec 32) : be32 (setBe32 m p v) p = v := be32_copyIn_self m p v

theorem mac_setMac_self (a : Mac) : mac (setMac m p a) p = a := mac_of_copyOut (copyOut_copyIn_self m p _)

variable (b : UInt8) (v : BitVec 16) (w : BitVec 32) (a : Mac)

theorem setByte_of_ne (h : q < p ∨ p + 1 ≤ q) : setByte m p b q = m q := copyIn_of_ne m h

theorem setBe32_of_ne (h : q < p ∨ p + 4 ≤ q) : setBe32 m p w q = m q := copyIn_of_ne m h

theorem setMac_of_ne (h : q < p ∨ p + 6 ≤ q) : setMac m p a q = m q := copyIn_of_ne m h

theorem be16_setByte_of_disjoint (h : q + 2 ≤ p ∨ p + 1 ≤ q) : be16 (setByte m p b) q = be16 m q :=
  be16_copyIn_of_disjoint m h

theorem be16_setBe32_of_disjoint (h : q + 2 ≤ p ∨ p + 4 ≤ q) : be16 (setBe32 m p w) q = be16 m q :=
  be16_copyIn_of_disjoint m h

theorem be16_setMac_of_disjoint (h : q + 2 ≤ p ∨ p + 6 ≤ q) : be16 (setMac m p a) q = be16 m q :=
  be16_copyIn_of_disjoint m h

theorem be32_setByte_of_disjoint (h : q + 4 ≤ p ∨ p + 1 ≤ q) : be32 (setByte m p b) q = be32 m q :=
  be32_copyIn_of_disjoint m h

theorem be32_setBe16_of_disjoint (h : q + 4 ≤ p ∨ p + 2 ≤ q) : be32 (setBe16 m p v) q = be32 m q :=
  be32_copyIn_of_disjoint m h

theorem be32_setBe32_of_disjoint (h : q + 4 ≤ p ∨ p + 4 ≤ q) : be32 (setBe32 m p w) q = be32 m q :=
  be32_copyIn_of_disjoint m h

end

/-! ## Layers -/

/-- What is sent: the memory and the descriptor handed to `TCPIPRxTx_Send`. -/
structure Out where
  mem : Mem
  frame : Frame

/-- The frame on the wire. -/
def Out.bytes (o : Out) : List UInt8 := copyOut o.mem o.frame.ptr o.frame.size.toNat

/-- `TCPIPEth_Send` -/
def ethSend (da : Mac) (type : BitVec 16) (m : Mem) (f : Frame) : Out :=
  let m := setMac m f.eth da
  let m := setMac m (f.eth + 6) ethAddress
  let m := setBe16 m (f.eth + 12) type
  ⟨m, { f with ptr := f.eth, size := f.size + 14 }⟩

section

variable (c : IpConfig) (dst : Ip) (protocol : UInt8) (size : BitVec 32) (m : Mem) (ip : Nat)

/-- The fields that `TCPIPIp_Send` sets for a payload of `size` bytes. -/
def ipSendFields : Mem :=
  let m := setIpHdrLen m ip 20
  let m := setIpVersion m ip 4
  let m := setIpSrcAddr m ip c.ip
  let m := setIpDstAddr m ip dst
  let m := setIpProtocol m ip protocol
  let m := setIpTTL m ip 255
  let m := setIpLength m ip ((size + 20).truncate 16)
  let m := setIpTos m ip 0
  let m := setIpIdentification m ip 0
  -- fragmentation is not implemented
  let m := setIpFlags m ip 0
  setIpFragmentOffset m ip 0

/-- The header of `TCPIPIp_Send`, with its checksum -/
def ipSendHeader : Mem := ipChecksumSet (ipSendFields c dst protocol size m ip) ip

end

/-- The switch of `TCPIPIp_Send`: checksums over the header that was filled -/
def ipSendSwitch (protocol : UInt8) (m : Mem) (ip transport : Nat) : Mem :=
  if protocol = protocolTcp then tcpChecksumSet m ip transport
  else if protocol = protocolUdp then udpChecksumSet m ip transport
  else m

/-- `TCPIPIp_Send`, once the hardware address is known -/
def ipSend (c : IpConfig) (dst : Ip) (protocol : UInt8) (ethDa : Mac) (m : Mem) (f : Frame) : Out :=
  let ip := f.eth + 14
  let m := ipSendHeader c dst protocol f.size m ip
  let m := ipSendSwitch protocol m ip f.transport
  ethSend ethDa ethtypeIp m { f with ptr := ip, size := f.size + 20 }

/-- The header that `TCPIPTcp_Send` sets up. -/
def tcpSendFields (srcPort dstPort : BitVec 16) (seq ack : BitVec 32) (win : BitVec 16) (flags : Tcp.Flags) (m : Mem)
    (tcp : Nat) : Mem :=
  let m := setTcpFlags m tcp (tcpFlagBits flags)
  let m := setTcpDataOffs m tcp 20
  let m := setBe16 m (tcp + 2) dstPort
  let m := setBe16 m tcp srcPort
  let m := setBe32 m (tcp + 4) seq
  let m := setBe32 m (tcp + 8) ack
  let m := setBe16 m (tcp + 14) win
  -- the urgent pointer is not supported
  setBe16 m (tcp + 18) 0

/-- `TCPIPTcp_Send` -/
def tcpSend (c : IpConfig) (dst : Ip) (srcPort dstPort : BitVec 16) (seq ack : BitVec 32) (win : BitVec 16)
    (flags : Tcp.Flags) (ethDa : Mac) (m : Mem) (f : Frame) : Out :=
  let m := tcpSendFields srcPort dstPort seq ack win flags m f.transport
  ipSend c dst protocolTcp ethDa m { f with ptr := f.transport, size := f.size + 20 }

/-- The header that `TCPIPUdp_Send` sets up for a payload of `size` bytes. -/
def udpSendFields (srcPort dstPort : BitVec 16) (size : BitVec 32) (m : Mem) (udp : Nat) : Mem :=
  let m := setBe16 m udp srcPort
  let m := setBe16 m (udp + 2) dstPort
  setBe16 m (udp + 4) ((size + 8).truncate 16)

/-- `TCPIPUdp_Send` -/
def udpSend (c : IpConfig) (dst : Ip) (srcPort dstPort : BitVec 16) (ethDa : Mac) (m : Mem) (f : Frame) : Out :=
  let m := udpSendFields srcPort dstPort f.size m f.transport
  ipSend c dst protocolUdp ethDa m { f with ptr := f.transport, size := f.size + 8 }

/-! ## Senders -/

/-- The message that `TCPIPIcmp_SendEcho` sets up, with its checksum. -/
def icmpEchoFields (type : UInt8) (id seqno : BitVec 16) (data : List UInt8) (m : Mem) (icmp : Nat) : Mem :=
  let m := setByte m icmp type
  let m := setByte m (icmp + 1) 0
  let m := setBe16 m (icmp + 4) id
  let m := setBe16 m (icmp + 6) seqno
  let m := copyIn m (icmp + 8) data
  icmpChecksumSet m icmp (data.length + 4 + 4)

/-- The frame that `TCPIPArp_SendFrame` sets up. -/
def arpSendFields (oper : BitVec 16) (sha : Mac) (spa : Ip) (tha : Mac) (tpa : Ip) (m : Mem) (arp : Nat) : Mem :=
  let m := setBe16 m (arp + 6) oper
  let m := setByte m (arp + 4) 6
  let m := setByte m (arp + 5) 4
  let m := setBe16 m arp 1
  let m := setBe16 m (arp + 2) ethtypeIp
  let m := setMac m (arp + 8) sha
  let m := setMac m (arp + 18) tha
  let m := setBe32 m (arp + 14) spa
  setBe32 m (arp + 24) tpa

section

variable (c : IpConfig) (dst : Ip) (ethDa : Mac) (buf : Nat) (m : Mem) (f : Frame)

/-- `TCPIPUdpSock_SendTo` of the bytes at `ptr`, with the buffer at `buf` -/
def udpSendTo (srcPort dstPort : BitVec 16) (data : List UInt8) : Out :=
  let f := udpAlloc buf f
  udpSend c dst srcPort dstPort ethDa (copyIn m f.ptr data) { f with size := BitVec.ofNat 32 data.length }

/-- The part of `TCPIPTcpSock_ProcessOutgoing` that puts a segment together: the bytes peeked from the tx queue go behind
the headers. -/
def tcpEmit (srcPort dstPort : BitVec 16) (seq ack : BitVec 32) (win : BitVec 16) (flags : Tcp.Flags)
    (data : List UInt8) : Out :=
  let f := tcpAlloc buf f
  tcpSend c dst srcPort dstPort seq ack win flags ethDa (copyIn m f.ptr data)
    { f with size := BitVec.ofNat 32 data.length }

/-- `TCPIPIcmp_SendEcho` -/
def icmpEmitEcho (type : UInt8) (id seqno : BitVec 16) (data : List UInt8) : Out :=
  let f := ipAlloc buf f
  let m := icmpEchoFields type id seqno data m f.ptr
  ipSend c dst protocolIcmp ethDa m { f with transport := f.ptr, size := BitVec.ofNat 32 (data.length + 4 + 4) }

/-- `TCPIPArp_SendFrame` -/
def arpEmit (oper : BitVec 16) (sha : Mac) (spa : Ip) (tha : Mac) (tpa : Ip) : Out :=
  let f := ethAlloc buf f
  let m := arpSendFields oper sha spa tha tpa m f.ptr
  ethSend ethDa ethtypeArp m { f with inet := f.ptr, size := 28 }

end

end YieldStm32.TCPIP
