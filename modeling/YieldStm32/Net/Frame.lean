import YieldStm32.Lib.Ring

/-!
# Headers (`eth_frame.h`, `arp_frame.h`, `ip_frame.h`, `icmp_frame.h`, `tcp_frame.h`, `udp_frame.h`)

A header is an address in memory; its fields are read from there, in network order. Addresses are natural numbers: the
buffers of the stack lie far from the end of the address space.

* `be16`, `be32`, `mac` : the fields;
* `checksum` : the sum of `checksum.c`, over a list of bytes;
* `IpConfig` : the stack's own addresses, and what `ip_addr.c` compares with them.
-/

namespace YieldStm32.TCPIP

abbrev Mem := Nat → UInt8

/-- `tcpip_ip_addr_t` -/
abbrev Ip := BitVec 32

/-- `tcpip_eth_addr_t`, first byte highest -/
abbrev Mac := BitVec 48

/-- `BETOH16` of the field at `p`. -/
def be16 (m : Mem) (p : Nat) : BitVec 16 := (m p).toBitVec ++ (m (p + 1)).toBitVec

/-- `BETOH32` of the field at `p`. -/
def be32 (m : Mem) (p : Nat) : BitVec 32 := be16 m p ++ be16 m (p + 2)

/-- The six bytes of a hardware address at `p`. -/
def mac (m : Mem) (p : Nat) : Mac := be32 m p ++ be16 m (p + 4)

/-! ## Fields -/

/-- `TCPIP_ETH_ETHTYPE_IP` -/
def ethtypeIp : BitVec 16 := 0x0800

/-- `TCPIP_ETH_ETHTYPE_ARP` -/
def ethtypeArp : BitVec 16 := 0x0806

/-- `TCPIPEthFrame_GetEthType` -/
def ethType (m : Mem) (eth : Nat) : BitVec 16 := be16 m (eth + 12)

/-- `TCPIPEthFrame_GetSA` -/
def ethSA (m : Mem) (eth : Nat) : Mac := mac m (eth + 6)

/-- `TCPIP_IP_PROTOCOL_ICMP` -/
def protocolIcmp : UInt8 := 1

/-- `TCPIP_IP_PROTOCOL_TCP` -/
def protocolTcp : UInt8 := 6

/-- `TCPIP_IP_PROTOCOL_UDP` -/
def protocolUdp : UInt8 := 17

/-- `TCPIPIpFrame_GetHdrLen`: in bytes. -/
def ipHdrLen (m : Mem) (ip : Nat) : Nat := (m ip &&& 0x0F).toNat * 4

/-- `TCPIPIpFrame_GetVersion` -/
def ipVersion (m : Mem) (ip : Nat) : Nat := ((m ip &&& 0xF0) >>> 4).toNat

/-- `TCPIPIpFrame_GetLength` -/
def ipLength (m : Mem) (ip : Nat) : BitVec 16 := be16 m (ip + 2)

/-- `flags_fragment_offset` -/
def ipFlagsFragmentOffset (m : Mem) (ip : Nat) : BitVec 16 := be16 m (ip + 6)

/-- `TCPIPIpFrame_GetFlags` -/
def ipFlags (m : Mem) (ip : Nat) : BitVec 16 := ipFlagsFragmentOffset m ip &&& 0xC000

/-- `TCPIPIpFrame_GetFragmentOffset` -/
def ipFragmentOffset (m : Mem) (ip : Nat) : BitVec 16 := ipFlagsFragmentOffset m ip &&& 0x03FF

/-- `TCPIPIpFrame_GetProtocol` -/
def ipProtocol (m : Mem) (ip : Nat) : UInt8 := m (ip + 9)

/-- `TCPIPIpFrame_GetSrcAddr` -/
def ipSrcAddr (m : Mem) (ip : Nat) : Ip := be32 m (ip + 12)

/-- `TCPIPIpFrame_GetDstAddr` -/
def ipDstAddr (m : Mem) (ip : Nat) : Ip := be32 m (ip + 16)

/-- `TCPIPIpFrame_GetLength(ip) - TCPIPIpFrame_GetHdrLen(ip)`, as a `size_t` -/
def ipPldLen (m : Mem) (ip : Nat) : BitVec 32 := (ipLength m ip).zeroExtend 32 - BitVec.ofNat 32 (ipHdrLen m ip)

/-- `TCPIPTcpFrame_GetDataOffs`: in bytes. -/
def tcpDataOffs (m : Mem) (tcp : Nat) : Nat := ((be16 m (tcp + 12) &&& 0xF000) >>> 12).toNat * 4

/-- `TCPIPUdpFrame_GetLength` -/
def udpLength (m : Mem) (udp : Nat) : BitVec 16 := be16 m (udp + 4)

/-- `TCPIPUdpFrame_GetChecksum` -/
def udpChecksum (m : Mem) (udp : Nat) : BitVec 16 := be16 m (udp + 6)

/-- `TCPIP_ICMP_TYPE_ECHO_REPLY` -/
def icmpEchoReply : UInt8 := 0

/-- `TCPIP_ICMP_TYPE_ECHO_REQUEST` -/
def icmpEchoRequest : UInt8 := 8

/-- `TCPIPIcmpFrame_GetType` -/
def icmpType (m : Mem) (icmp : Nat) : UInt8 := m icmp

/-- `TCPIPIcmpFrameEcho_GetID`, of the payload of an icmp header -/
def icmpEchoID (m : Mem) (icmp : Nat) : BitVec 16 := be16 m (icmp + 4)

/-- `TCPIPIcmpFrameEcho_GetSeqNo` -/
def icmpEchoSeqNo (m : Mem) (icmp : Nat) : BitVec 16 := be16 m (icmp + 6)

/-! ## Checksums -/

/-- `if ((sum += val) < val) sum += 1;` -/
def sumWord (sum val : BitVec 16) : BitVec 16 := if sum + val < val then sum + val + 1 else sum + val

/-- `TCPIPChecksum_Checksum` -/
def checksum (sum : BitVec 16) : List UInt8 → BitVec 16
  | [] => sum
  | [b] => sumWord sum (b.toBitVec ++ 0#8)
  | b0 :: b1 :: bs => checksum (sumWord sum (b0.toBitVec ++ b1.toBitVec)) bs

/-- `TCPIPIpChecksum_IsValid` -/
def ipChecksumIsValid (m : Mem) (ip : Nat) : Prop := ~~~ checksum 0 (Ring.copyOut m ip (ipHdrLen m ip)) = 0

instance (m : Mem) (ip : Nat) : Decidable (ipChecksumIsValid m ip) := inferInstanceAs (Decidable (_ = _))

/-- `TCPIPIpFrame_GetPseudoHdr`, as it lies in memory -/
def ipPseudoHdr (m : Mem) (ip : Nat) : List UInt8 :=
  let len := (ipPldLen m ip).truncate 16
  Ring.copyOut m (ip + 12) 4 ++ Ring.copyOut m (ip + 16) 4 ++
    [0, ipProtocol m ip, UInt8.ofBitVec (len.extractLsb' 8 8), UInt8.ofBitVec (len.extractLsb' 0 8)]

/-- `TCPIPTcpChecksum_Compute`, and `TCPIPUdpChecksum_Compute`, which is the same function -/
def transportChecksum (m : Mem) (ip hdr : Nat) : BitVec 16 :=
  ~~~ checksum (checksum 0 (ipPseudoHdr m ip)) (Ring.copyOut m hdr (ipPldLen m ip).toNat)

/-- `TCPIPTcpChecksum_IsValid` -/
def tcpChecksumIsValid (m : Mem) (ip tcp : Nat) : Prop := transportChecksum m ip tcp = 0

/-- `TCPIPUdpChecksum_IsValid` -/
def udpChecksumIsValid (m : Mem) (ip udp : Nat) : Prop := transportChecksum m ip udp = 0

instance (m : Mem) (ip tcp : Nat) : Decidable (tcpChecksumIsValid m ip tcp) := inferInstanceAs (Decidable (_ = _))

instance (m : Mem) (ip udp : Nat) : Decidable (udpChecksumIsValid m ip udp) := inferInstanceAs (Decidable (_ = _))

/-- `TCPIPIcmpChecksum_IsValid` -/
def icmpChecksumIsValid (m : Mem) (icmp size : Nat) : Prop := ~~~ checksum 0 (Ring.copyOut m icmp size) = 0

instance (m : Mem) (icmp size : Nat) : Decidable (icmpChecksumIsValid m icmp size) :=
  inferInstanceAs (Decidable (_ = _))

/-! ## Addresses -/

/-- `tcpip_ip_addr`, `tcpip_ip_mask`, `tcpip_ip_gway` -/
structure IpConfig where
  ip : Ip
  mask : Ip
  gway : Ip

/-- `TCPIP_IP_ADDRESS`, `TCPIP_IP_NETMASK`, `TCPIP_IP_GATEWAY` -/
def IpConfig.default : IpConfig := ⟨0xc0a8327c, 0xffffff00, 0xc0a8327c⟩

/-- `TCPIP_ETH_ADDRESS` -/
def ethAddress : Mac := 0x000102030464

/-- `TCPIP_ETH_ADDR_BCAST` -/
def ethBcast : Mac := 0xffffffffffff

/-- `TCPIPIpAddr_IsMatchingUnicast` -/
def IpConfig.IsMatchingUnicast (c : IpConfig) (a : Ip) : Prop := a = c.ip

/-- `TCPIPIpAddr_IsMatchingBroadcast` -/
def IpConfig.IsMatchingBroadcast (c : IpConfig) (a : Ip) : Prop :=
  a = 0xffffffff ∨ a &&& c.mask = c.ip ∧ a &&& ~~~ c.mask = ~~~ c.mask

/-- `TCPIPIpAddr_IsMatchingMulticast` -/
def IsMatchingMulticast (a : Ip) : Prop := 0xe0000000 ≤ a ∧ a ≤ 0xefffffff

/-- `TCPIPIpAddr_IsWithinSubnet` -/
def IpConfig.IsWithinSubnet (c : IpConfig) (a : Ip) : Prop := a &&& c.mask = c.ip &&& c.mask

instance (c : IpConfig) (a : Ip) : Decidable (c.IsMatchingUnicast a) := inferInstanceAs (Decidable (_ = _))

instance (c : IpConfig) (a : Ip) : Decidable (c.IsMatchingBroadcast a) := inferInstanceAs (Decidable (_ ∨ _))

instance (a : Ip) : Decidable (IsMatchingMulticast a) := inferInstanceAs (Decidable (_ ∧ _))

instance (c : IpConfig) (a : Ip) : Decidable (c.IsWithinSubnet a) := inferInstanceAs (Decidable (_ = _))

/-- A datagram for this host, for its network or for a group. -/
def IpConfig.Addressed (c : IpConfig) (a : Ip) : Prop :=
  c.IsMatchingUnicast a ∨ c.IsMatchingBroadcast a ∨ IsMatchingMulticast a

instance (c : IpConfig) (a : Ip) : Decidable (c.Addressed a) := inferInstanceAs (Decidable (_ ∨ _ ∨ _))

/-- What `TCPIPIp_Input` lets through of the datagrams with a valid header: for this host, and not a fragment by its
masks. -/
def IpConfig.Passes (c : IpConfig) (m : Mem) (ip : Nat) : Prop :=
  c.Addressed (ipDstAddr m ip) ∧ ¬ (ipFlags m ip &&& 0x8000 ≠ 0 ∨ ipFragmentOffset m ip ≠ 0)

instance (c : IpConfig) (m : Mem) (ip : Nat) : Decidable (c.Passes m ip) := inferInstanceAs (Decidable (_ ∧ _))

end YieldStm32.TCPIP
