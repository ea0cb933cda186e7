import Mathlib.Tactic.IntervalCases
import YieldStm32.Net.Corrupted
import YieldStm32.Net.Send

/-!
# Frames from one stack to another

* `Carried` : cells of one memory, at another place in another memory;
* `ipSendHeader_header` : the header of `TCPIPIp_Send` is one that `TCPIPIp_Input` accepts, for any memory it is written
  over;
* `receive_ipSend` : a datagram reaches the transport layer with its payload, wherever the two buffers lie;
* `udp_delivered`, `tcp_delivered` : and the sockets, as it was sent.
-/

namespace YieldStm32.TCPIP

open Ring DHCPFrame Traced

/-! ## The header of a datagram -/

/-- The bits of the first byte that are not set to the length are set to the version. -/
theorem hdrLenVersion_bits (b : UInt8) :
    (((b &&& ~~~(0x0F : UInt8) ||| UInt8.ofNat (20 / 4) &&& (0x0F : UInt8)) &&& ~~~(0xF0 : UInt8)) |||
      (4 : UInt8) <<< 4 &&& (0xF0 : UInt8)) =
      0x45 := by
  apply UInt8.eq_of_toBitVec_eq
  apply BitVec.eq_of_getLsbD_eq
  intro i hi
  interval_cases i <;> simp

/-- Four bits belong to neither of the two fields. -/
theorem flagsFragmentOffset_bits (w : BitVec 16) :
    (((w &&& ~~~(0xC000 : BitVec 16) ||| 0) &&& ~~~(0x03FF : BitVec 16)) ||| 0) = w &&& 0x3C00 := by
  apply BitVec.eq_of_getLsbD_eq
  intro i hi
  interval_cases i <;> simp

/-- Two bits of the word are left as they were. -/
theorem flagsDataOffs_bits (w flags : BitVec 16) :
    (((w &&& ~~~(0x03FF : BitVec 16) ||| flags &&& 0x03FF) &&& ~~~(0xF000 : BitVec 16)) |||
      BitVec.ofNat 16 (20 / 4) <<< 12 &&& 0xF000) = w &&& 0x0C00 ||| flags &&& 0x03FF ||| 0x5000 := by
  apply BitVec.eq_of_getLsbD_eq
  intro i hi
  interval_cases i <;> simp

/-- A header as `TCPIPIp_Send` makes it, for a payload of `size` bytes. -/
structure IpHeader (m : Mem) (ip : Nat) (src dst : Ip) (protocol : UInt8) (size : BitVec 32) : Prop where
  hdrLen : ipHdrLen m ip = 20
  length : ipLength m ip = (size + 20).truncate 16
  whole : ipFlags m ip = 0 ∧ ipFragmentOffset m ip = 0
  protocol : ipProtocol m ip = protocol
  src : ipSrcAddr m ip = src
  dst : ipDstAddr m ip = dst
  valid : ipChecksumIsValid m ip

section

variable (c : IpConfig) (dst : Ip) (protocol : UInt8) (size : BitVec 32) (m : Mem) (ip : Nat)

/-- A header with these fields; `w` are the flags and the fragment offset. -/
structure IpFields (m : Mem) (ip : Nat) (src dst : Ip) (protocol : UInt8) (size : BitVec 32) (w : BitVec 16) : Prop where
  first : m ip = 0x45
  length : ipLength m ip = (size + 20).truncate 16
  word : ipFlagsFragmentOffset m ip = w
  protocol : ipProtocol m ip = protocol
  src : ipSrcAddr m ip = src
  dst : ipDstAddr m ip = dst

theorem ipSendFields_fields : IpFields (ipSendFields c dst protocol size m ip) ip c.ip dst protocol size
    (ipFlagsFragmentOffset m ip &&& 0x3C00) := by
  refine ⟨?_, ?_, ?_, ?_, ?_, ?_⟩
  · simp (disch := omega) only [ipSendFields, setIpFragmentOffset, setIpFlags, setIpIdentification, setIpTos, setIpLength,
      setIpTTL, setIpProtocol, setIpDstAddr, setIpSrcAddr, setBe16_of_ne, setByte_of_ne, setBe32_of_ne]
    simp only [setIpVersion, setIpHdrLen, setByte_self, hdrLenVersion_bits]
  · simp (disch := omega) only [ipSendFields, ipLength, setIpFragmentOffset, setIpFlags, setIpIdentification, setIpTos,
      be16_setBe16_of_disjoint, be16_setByte_of_disjoint]
    exact be16_setBe16_self ..
  · simp (disch := omega) only [ipSendFields, ipFlagsFragmentOffset, setIpFragmentOffset, setIpFlags, be16_setBe16_self, flagsFragmentOffset_bits,
      setIpIdentification, setIpTos, setIpLength, setIpTTL, setIpProtocol, setIpDstAddr, setIpSrcAddr, setIpVersion,
      setIpHdrLen, be16_setBe16_of_disjoint, be16_setByte_of_disjoint, be16_setBe32_of_disjoint]
  · simp (disch := omega) only [ipSendFields, ipProtocol, setIpFragmentOffset, setIpFlags, setIpIdentification, setIpTos, setIpLength,
      setIpTTL, setBe16_of_ne, setByte_of_ne]
    exact setByte_self ..
  · simp (disch := omega) only [ipSendFields, ipSrcAddr, setIpFragmentOffset, setIpFlags, setIpIdentification, setIpTos, setIpLength,
      setIpTTL, setIpProtocol, setIpDstAddr, be32_setBe16_of_disjoint, be32_setByte_of_disjoint, be32_setBe32_of_disjoint]
    exact be32_setBe32_self ..
  · simp (disch := omega) only [ipSendFields, ipDstAddr, setIpFragmentOffset, setIpFlags, setIpIdentification, setIpTos, setIpLength,
      setIpTTL, setIpProtocol, be32_setBe16_of_disjoint, be32_setByte_of_disjoint]
    exact be32_setBe32_self ..

/-- The cells around the header are not touched. -/
theorem ipSendHeader_of_ne {q : Nat} (h : q < ip ∨ ip + 20 ≤ q) : ipSendHeader c dst protocol size m ip q = m q := by
  simp (disch := omega) only [ipSendHeader, ipSendFields, ipChecksumSet, setChecksum, setIpFragmentOffset, setIpFlags, setIpIdentification, setIpTos, setIpLength,
    setIpTTL, setIpProtocol, setIpDstAddr, setIpSrcAddr, setIpVersion, setIpHdrLen, setByte_of_ne, setBe16_of_ne, setBe32_of_ne]
end

theorem IpFields.flags {m : Mem} {ip : Nat} {src dst : Ip} {protocol : UInt8} {size : BitVec 32} {w : BitVec 16}
    (h : IpFields m ip src dst protocol size (w &&& 0x3C00)) : ipFlags m ip = 0 ∧ ipFragmentOffset m ip = 0 := by
  unfold ipFlags ipFragmentOffset
  rw [h.word, BitVec.and_assoc, BitVec.and_assoc]
  exact ⟨BitVec.and_zero, BitVec.and_zero⟩

theorem IpFields.hdrLen {m : Mem} {ip : Nat} {src dst : Ip} {protocol : UInt8} {size : BitVec 32} {w : BitVec 16}
    (h : IpFields m ip src dst protocol size w) : ipHdrLen m ip = 20 := by
  unfold ipHdrLen
  rw [h.first]
  rfl

/-- The checksum is none of the fields. -/
theorem IpFields.checksumSet {m : Mem} {ip : Nat} {src dst : Ip} {protocol : UInt8} {size : BitVec 32} {w : BitVec 16}
    (h : IpFields m ip src dst protocol size w) : IpFields (ipChecksumSet m ip) ip src dst protocol size w := by
  unfold ipChecksumSet setChecksum
  refine ⟨?_, ?_, ?_, ?_, ?_, ?_⟩
  · simpa (disch := omega) only [setBe16_of_ne] using h.first
  · simpa (disch := omega) only [ipLength, be16_setBe16_of_disjoint] using h.length
  · simpa (disch := omega) only [ipFlagsFragmentOffset, be16_setBe16_of_disjoint] using h.word
  · simpa (disch := omega) only [ipProtocol, setBe16_of_ne] using h.protocol
  · simpa (disch := omega) only [ipSrcAddr, be32_setBe16_of_disjoint] using h.src
  · simpa (disch := omega) only [ipDstAddr, be32_setBe16_of_disjoint] using h.dst

theorem ipSendHeader_header (c : IpConfig) (dst : Ip) (protocol : UInt8) (size : BitVec 32) (m : Mem) (ip : Nat) :
    IpHeader (ipSendHeader c dst protocol size m ip) ip c.ip dst protocol size := by
  have hfields := ipSendFields_fields c dst protocol size m ip
  have hset := hfields.checksumSet
  have hlen : 12 ≤ ipHdrLen (ipSendFields c dst protocol size m ip) ip := by
    rw [hfields.hdrLen]
    decide
  exact ⟨hset.hdrLen, hset.length, hset.flags, hset.protocol, hset.src, hset.dst, (ip_detects hlen).1⟩

/-! ## Cells carried from one memory to another -/

/-- The `n` cells from `q` on are those from `p` on in the other memory. -/
def Carried (m : Mem) (p : Nat) (m' : Mem) (q n : Nat) : Prop := ∀ i < n, m' (q + i) = m (p + i)

namespace Carried

variable {m m' : Mem} {p q n k : Nat}

theorem byte (h : Carried m p m' q n) (hk : k < n) : m' (q + k) = m (p + k) := h k hk

theorem be16 (h : Carried m p m' q n) (hk : k + 2 ≤ n) : be16 m' (q + k) = be16 m (p + k) := by
  unfold TCPIP.be16
  rw [h.byte (by omega), Nat.add_assoc, Nat.add_assoc, h.byte (by omega)]

theorem be32 (h : Carried m p m' q n) (hk : k + 4 ≤ n) : be32 m' (q + k) = be32 m (p + k) := by
  unfold TCPIP.be32
  rw [h.be16 (by omega), Nat.add_assoc, Nat.add_assoc, h.be16 (by omega)]

theorem mac (h : Carried m p m' q n) (hk : k + 6 ≤ n) : mac m' (q + k) = mac m (p + k) := by
  unfold TCPIP.mac
  rw [h.be32 (by omega), Nat.add_assoc, Nat.add_assoc, h.be16 (by omega)]

theorem copyOut {l : Nat} (h : Carried m p m' q n) (hk : k + l ≤ n) : copyOut m' (q + k) l = copyOut m (p + k) l :=
  List.map_congr_left fun i hi => by
    have hi := List.mem_range.1 hi
    rw [Nat.add_assoc, Nat.add_assoc]
    exact h (k + i) (by omega)

theorem mono {l : Nat} (h : Carried m p m' q n) (hl : l ≤ n) : Carried m p m' q l := fun i hi =>
  h i (Nat.lt_of_lt_of_le hi hl)

theorem trans {m'' : Mem} {r : Nat} (h : Carried m p m' q n) (h' : Carried m' q m'' r n) : Carried m p m'' r n :=
  fun i hi => (h' i hi).trans (h i hi)

/-- A part of the cells. -/
theorem drop (h : Carried m p m' q n) {l : Nat} (hk : k + l ≤ n) : Carried m (p + k) m' (q + k) l := fun i hi => by
  rw [Nat.add_assoc, Nat.add_assoc]
  exact h (k + i) (by omega)

end Carried

/-- What is received is what was on the wire. -/
theorem carried_bytes (o : Out) (m : Mem) (rx : Nat) :
    Carried o.mem o.frame.ptr (copyIn m rx o.bytes) rx o.frame.size.toNat := by
  intro i hi
  have hlen : o.bytes.length = o.frame.size.toNat := length_copyOut ..
  have hcell : copyOut (copyIn m rx o.bytes) rx o.bytes.length = o.bytes := copyOut_copyIn_self m rx o.bytes
  have hleft := cell_of_copyOut hcell (i := i) (by omega)
  have hright := cell_of_copyOut (rfl : copyOut o.mem o.frame.ptr o.frame.size.toNat = o.bytes) hi
  exact Option.some.inj (hleft.symm.trans hright)

/-- The header counts the payload. -/
theorem IpHeader.pldLen {m : Mem} {ip : Nat} {src dst : Ip} {protocol : UInt8} {size : BitVec 32}
    (h : IpHeader m ip src dst protocol size) (hsize : size.toNat + 20 < 65536) : ipPldLen m ip = size := by
  unfold ipPldLen
  rw [h.length, h.hdrLen]
  bv_omega

theorem IpHeader.carried {m m' : Mem} {ip ip' : Nat} {src dst : Ip} {protocol : UInt8} {size : BitVec 32}
    (h : IpHeader m ip src dst protocol size) (hc : Carried m ip m' ip' 20) : IpHeader m' ip' src dst protocol size := by
  have hfirst : m' ip' = m ip := hc.byte (k := 0) (by decide)
  have hlen : ipHdrLen m' ip' = ipHdrLen m ip := congrArg (fun b : UInt8 => (b &&& 0x0F).toNat * 4) hfirst
  have hword : ipFlagsFragmentOffset m' ip' = ipFlagsFragmentOffset m ip := hc.be16 (k := 6) (by decide)
  have hbytes : copyOut m' ip' 20 = copyOut m ip 20 := hc.copyOut (k := 0) (by decide)
  refine ⟨hlen.trans h.hdrLen, (hc.be16 (k := 2) (by decide)).trans h.length, ?_, (hc.byte (k := 9) (by decide)).trans h.protocol,
    (hc.be32 (k := 12) (by decide)).trans h.src, (hc.be32 (k := 16) (by decide)).trans h.dst, ?_⟩
  · unfold ipFlags ipFragmentOffset
    rw [hword]
    exact h.whole
  · have hvalid := h.valid
    unfold ipChecksumIsValid at hvalid ⊢
    rw [h.hdrLen] at hvalid
    rw [hlen, h.hdrLen, hbytes]
    exact hvalid

theorem IpHeader.accepts {c : IpConfig} {m : Mem} {ip : Nat} {src dst : Ip} {protocol : UInt8} {size : BitVec 32}
    (h : IpHeader m ip src dst protocol size) (haddr : c.Addressed dst) : c.Accepts m ip := by
  refine ⟨h.valid, ?_, ?_⟩
  · rw [h.dst]
    exact haddr
  · rw [h.whole.1, h.whole.2]
    decide

/-! ## Through the layers -/

section

variable (c : IpConfig) (dst : Ip) (protocol : UInt8) (ethDa : Mac) (m : Mem) (f : Frame)

theorem ipSend_frame : (ipSend c dst protocol ethDa m f).frame = { f with ptr := f.eth, size := f.size + 20 + 14 } := rfl

/-- The checksum behind the header is all that the switch writes. -/
theorem ipSendSwitch_of_ne (ip transport : Nat) {q : Nat}
    (htcp : protocol = protocolTcp → q < transport + 16 ∨ transport + 18 ≤ q)
    (hudp : protocol = protocolUdp → q < transport + 6 ∨ transport + 8 ≤ q) :
    ipSendSwitch protocol m ip transport q = m q := by
  unfold ipSendSwitch
  split
  · rename_i h
    have hq := htcp h
    simp (disch := omega) only [tcpChecksumSet, setChecksum, setBe16_of_ne]
  · split
    · rename_i h
      have hq := hudp h
      simp (disch := omega) only [udpChecksumSet, setChecksum, setBe16_of_ne]
    · rfl

/-- The Ethernet header is in front of the other one. -/
theorem ipSend_carried_switch (n : Nat) :
    Carried (ipSendSwitch protocol (ipSendHeader c dst protocol f.size m (f.eth + 14)) (f.eth + 14) f.transport) (f.eth + 14)
      (ipSend c dst protocol ethDa m f).mem (f.eth + 14) n := fun i _ => by
  simp (disch := omega) only [ipSend, ethSend, setBe16_of_ne, setMac_of_ne]

/-- The cells that are neither headers nor checksum. -/
theorem ipSend_carried {q n : Nat} (hq : f.eth + 34 ≤ q)
    (htcp : protocol = protocolTcp → q + n ≤ f.transport + 16 ∨ f.transport + 18 ≤ q)
    (hudp : protocol = protocolUdp → q + n ≤ f.transport + 6 ∨ f.transport + 8 ≤ q) :
    Carried m q (ipSend c dst protocol ethDa m f).mem q n := fun i hi => by
  simp (disch := omega) only [ipSend, ethSend, setBe16_of_ne, setMac_of_ne]
  rw [ipSendSwitch_of_ne protocol _ _ _ (fun h => by have := htcp h; omega) (fun h => by have := hudp h; omega),
    ipSendHeader_of_ne _ _ _ _ _ _ (.inr (by omega))]

/-- The header is as it was made. -/
theorem ipSend_header (ht : f.transport = f.eth + 34) :
    IpHeader (ipSend c dst protocol ethDa m f).mem (f.eth + 14) c.ip dst protocol f.size := by
  have hswitch : Carried (ipSendHeader c dst protocol f.size m (f.eth + 14)) (f.eth + 14)
      (ipSendSwitch protocol (ipSendHeader c dst protocol f.size m (f.eth + 14)) (f.eth + 14) f.transport) (f.eth + 14) 20 :=
    fun i hi => ipSendSwitch_of_ne _ _ _ _ (fun _ => by omega) (fun _ => by omega)
  exact ((ipSendHeader_header c dst protocol f.size m (f.eth + 14)).carried hswitch).carried
    (ipSend_carried_switch c dst protocol ethDa m f 20)

theorem ipSend_ethType : ethType (ipSend c dst protocol ethDa m f).mem f.eth = ethtypeIp := be16_setBe16_self ..

end

/-- What a datagram leaves of the transport layer's checksum. -/
theorem transportChecksum_carried {m m' : Mem} {ip ip' : Nat} {src dst : Ip} {protocol : UInt8} {size : BitVec 32}
    (h : IpHeader m ip src dst protocol size) (hsize : size.toNat + 20 < 65536)
    (hc : Carried m ip m' ip' (size.toNat + 20)) :
    transportChecksum m' ip' (ip' + 20) = transportChecksum m ip (ip + 20) := by
  have h' := h.carried (hc.mono (by omega))
  have hprotocol : ipProtocol m' ip' = ipProtocol m ip := h'.protocol.trans h.protocol.symm
  unfold transportChecksum ipPseudoHdr
  rw [h.pldLen hsize, h'.pldLen hsize, hprotocol, hc.copyOut (k := 12) (by omega), hc.copyOut (k := 16) (by omega),
    hc.copyOut (k := 20) (by omega)]

/-- The checksum is set over the header and the payload as they are sent. -/
theorem ipSend_checksum (c : IpConfig) (dst : Ip) {protocol : UInt8} (ethDa : Mac) (m : Mem) (f : Frame)
    (hsize : f.size.toNat + 20 < 65536) (ht : f.transport = f.eth + 34)
    (hp : protocol = protocolTcp ∧ 18 ≤ f.size.toNat ∨ protocol = protocolUdp ∧ 8 ≤ f.size.toNat) :
    transportChecksum (ipSend c dst protocol ethDa m f).mem (f.eth + 14) (f.eth + 34) = 0 := by
  have hhdr := ipSendHeader_header c dst protocol f.size m (f.eth + 14)
  have hlen : (ipLength (ipSendHeader c dst protocol f.size m (f.eth + 14)) (f.eth + 14)).toNat = f.size.toNat + 20 := by
    rw [hhdr.length]
    bv_omega
  have hswitch : Carried (ipSendHeader c dst protocol f.size m (f.eth + 14)) (f.eth + 14)
      (ipSendSwitch protocol (ipSendHeader c dst protocol f.size m (f.eth + 14)) (f.eth + 14) f.transport) (f.eth + 14) 20 :=
    fun i hi => ipSendSwitch_of_ne _ _ _ _ (fun _ => by omega) (fun _ => by omega)
  have hset : transportChecksum
      (ipSendSwitch protocol (ipSendHeader c dst protocol f.size m (f.eth + 14)) (f.eth + 14) f.transport)
      (f.eth + 14) (f.eth + 34) = 0 := by
    unfold ipSendSwitch
    rw [ht]
    rcases hp with ⟨rfl, hroom⟩ | ⟨rfl, hroom⟩
    · rw [if_pos rfl]
      exact (transport_detects (k := 8) (by omega) (by rw [hlen, hhdr.hdrLen]; omega)).1
    · rw [if_neg (by decide), if_pos rfl]
      exact (transport_detects (k := 3) (by omega) (by rw [hlen, hhdr.hdrLen]; omega)).1
  exact (transportChecksum_carried (hhdr.carried hswitch) hsize
    (ipSend_carried_switch c dst protocol ethDa m f (f.size.toNat + 20))).trans hset

/-- **A datagram reaches the transport layer**: with the descriptor on the payload that was sent, the payload there, and its
checksum right. -/
theorem receive_ipSend (c : IpConfig) (dst : Ip) (protocol : UInt8) (ethDa : Mac) (m : Mem) (f : Frame)
    (hsize : f.size.toNat + 20 < 65536) (ht : f.transport = f.eth + 34) (rx : Nat) (g : Frame) (s : Stack)
    (haddr : s.addr.Addressed dst) :
    let o := ipSend c dst protocol ethDa m f
    let m' := copyIn s.mem rx o.bytes
    (∃ size, (receive rx o.bytes g s).val =
      transportInput (ipFrame m' ⟨rx + 14, size, rx, g.inet, g.transport⟩) { s with mem := m' }) ∧
      IpHeader m' (rx + 14) c.ip dst protocol f.size ∧
      Carried o.mem (f.eth + 34) m' (rx + 34) f.size.toNat ∧
      (protocol = protocolTcp ∧ 18 ≤ f.size.toNat ∨ protocol = protocolUdp ∧ 8 ≤ f.size.toNat →
        transportChecksum m' (rx + 14) (rx + 34) = 0) := by
  intro o m'
  have hcarried : Carried o.mem f.eth m' rx (f.size.toNat + 34) := by
    have h := carried_bytes o s.mem rx
    have hn : o.frame.size.toNat = f.size.toNat + 34 := by
      show (f.size + 20 + 14).toNat = _
      bv_omega
    rwa [hn] at h
  have htype : ethType m' rx = ethtypeIp :=
    (hcarried.be16 (k := 12) (by omega)).trans (ipSend_ethType c dst protocol ethDa m f)
  have hsent := ipSend_header c dst protocol ethDa m f ht
  have hhdr : IpHeader m' (rx + 14) c.ip dst protocol f.size := hsent.carried (hcarried.drop (k := 14) (by omega))
  refine ⟨⟨BitVec.ofNat 32 o.bytes.length - 14, ?_⟩, hhdr, hcarried.drop (k := 34) (by omega), fun hp => ?_⟩
  · rw [receive_val rx o.bytes g s htype, ipInput_val, if_pos (hhdr.accepts haddr)]
  · exact (transportChecksum_carried hsent hsize (hcarried.drop (k := 14) (by omega))).trans
      (ipSend_checksum c dst ethDa m f hsize ht hp)

/-! ## Sockets -/

/-- What a datagram of UDP does. -/
theorem transportInput_udp_eq {f : Frame} {s : Stack} (h : ipProtocol s.mem f.ptr = protocolUdp) :
    let r := transportInput (ipFrame s.mem f) s
    let u := Udp.input (handedDatagram s.mem f.ptr) s.udp
    r.rc = .ofUdp u.1 ∧ r.stack = { s with udp := u.2 } := by
  intro r u
  have hne : protocolUdp ≠ protocolIcmp ∧ protocolUdp ≠ protocolTcp := by decide
  have h' : ipProtocol s.mem (ipFrame s.mem f).inet = protocolUdp := h
  have hr : r = transportInput (ipFrame s.mem f) s := rfl
  unfold transportInput at hr
  simp only [h', if_neg hne.1, if_neg hne.2, if_true] at hr
  rw [hr]
  exact ⟨rfl, rfl⟩

/-- What a segment does. -/
theorem transportInput_tcp_eq {f : Frame} {s : Stack} (h : ipProtocol s.mem f.ptr = protocolTcp) :
    let r := transportInput (ipFrame s.mem f) s
    let t := Tcp.input s.now s.rnd (handedSegment s.mem f.ptr) s.tcp
    r.rc = .ofTcp t.1 ∧ r.stack = { s with tcp := t.2 } := by
  intro r t
  have hne : protocolTcp ≠ protocolIcmp := by decide
  have h' : ipProtocol s.mem (ipFrame s.mem f).inet = protocolTcp := h
  have hr : r = transportInput (ipFrame s.mem f) s := rfl
  unfold transportInput at hr
  simp only [h', if_neg hne, if_true] at hr
  rw [hr]
  exact ⟨rfl, rfl⟩

/-- The header of a datagram, and the bytes behind it. -/
theorem udpSendFields_carries (srcPort dstPort : BitVec 16) (size : BitVec 32) (m : Mem) (udp : Nat) :
    let m' := udpSendFields srcPort dstPort size m udp
    be16 m' udp = srcPort ∧ be16 m' (udp + 2) = dstPort ∧ udpLength m' udp = (size + 8).truncate 16 ∧
      ∀ n, Carried m (udp + 8) m' (udp + 8) n := by
  refine ⟨?_, ?_, be16_setBe16_self .., fun n i _ => ?_⟩
  · simp (disch := omega) only [udpSendFields, be16_setBe16_of_disjoint, be16_setBe16_self]
  · simp (disch := omega) only [udpSendFields, be16_setBe16_of_disjoint, be16_setBe16_self]
  · simp (disch := omega) only [udpSendFields, setBe16_of_ne]

/-- **UDP datagrams are delivered**: what a stack sends from a socket arrives at the sockets of any stack that the address
is one of, with the sender's address and ports and a checksum that is right, whatever the two held in their buffers. -/
theorem udp_delivered (c : IpConfig) (dst : Ip) (ethDa : Mac) (buf : Nat) (m : Mem) (f : Frame)
    (srcPort dstPort : BitVec 16) (data : List UInt8) (hsize : data.length ≤ 65507) (rx : Nat) (g : Frame) (s : Stack)
    (haddr : s.addr.Addressed dst) :
    let bytes := (udpSendTo c dst ethDa buf m f srcPort dstPort data).bytes
    let m' := copyIn s.mem rx bytes
    let r := (receive rx bytes g s).val
    let u := Udp.input ⟨c.ip, srcPort, dstPort, data⟩ s.udp
    bytes.length = 42 + data.length ∧ ¬ Corrupted m' (rx + 14) ∧ r.rc = .ofUdp u.1 ∧
      r.stack = { s with mem := m', udp := u.2 } := by
  intro bytes m' r u
  let size : BitVec 32 := BitVec.ofNat 32 data.length
  let f' : Frame := { udpAlloc buf f with ptr := buf + 34, size := size + 8 }
  let m1 := udpSendFields srcPort dstPort size (copyIn m (buf + 42) data) (buf + 34)
  have hs : size.toNat = data.length := (BitVec.toNat_ofNat ..).trans (Nat.mod_eq_of_lt (by omega))
  have hn : f'.size.toNat = data.length + 8 := by
    show (size + 8).toNat = _
    bv_omega
  have hlen : bytes.length = 42 + data.length := by
    show (copyOut _ _ (f'.size + 20 + 14).toNat).length = _
    rw [length_copyOut]
    bv_omega
  obtain ⟨⟨n, hval⟩, hhdr, hpld, hsum⟩ : (∃ n, r = transportInput (ipFrame m' ⟨rx + 14, n, rx, g.inet, g.transport⟩)
        { s with mem := m' }) ∧ IpHeader m' (rx + 14) c.ip dst protocolUdp f'.size ∧ _ ∧ _ :=
    receive_ipSend c dst protocolUdp ethDa m1 f' (by omega) rfl rx g s haddr
  have hpld : Carried _ (buf + 34) m' (rx + 34) f'.size.toNat := hpld
  rw [hn] at hpld hsum
  have hsum : transportChecksum m' (rx + 14) (rx + 34) = 0 := hsum (.inr ⟨rfl, by omega⟩)
  obtain ⟨hsrc, hdst, hlength, hbehind⟩ := udpSendFields_carries srcPort dstPort size (copyIn m (buf + 42) data) (buf + 34)
  -- the header in front of the checksum, and the payload behind it
  have hfields : Carried m1 (buf + 34) m' (rx + 34) 6 :=
    (ipSend_carried c dst protocolUdp ethDa m1 f' (q := buf + 34) (n := 6) (Nat.le_refl _) nofun
      fun _ => .inl (Nat.le_refl _)).trans (hpld.mono (by omega))
  have hdata : Carried m1 (buf + 42) m' (rx + 42) data.length :=
    (ipSend_carried c dst protocolUdp ethDa m1 f' (q := buf + 42) (by show buf + 34 ≤ _; omega) nofun
      fun _ => .inr (Nat.le_refl _)).trans (hpld.drop (k := 8) (by omega))
  have hcopied : copyOut m' (rx + 42) data.length = data :=
    (((hbehind _).trans hdata).copyOut (k := 0) (Nat.le_of_eq (Nat.zero_add _))).trans (copyOut_copyIn_self ..)
  have hlength : udpLength m' (rx + 34) = (size + 8).truncate 16 := (hfields.be16 (k := 4) (by decide)).trans hlength
  have hpayload : ((udpLength m' (rx + 34)).zeroExtend 32 - 8 : BitVec 32).toNat = data.length := by
    rw [hlength]
    bv_omega
  have hhanded : handedDatagram m' (rx + 14) = ⟨c.ip, srcPort, dstPort, data⟩ := by
    unfold handedDatagram udpDatagram
    rw [hhdr.hdrLen, hhdr.src]
    dsimp only
    rw [hpayload, hcopied, (hfields.be16 (k := 0) (by decide)).trans hsrc, (hfields.be16 (k := 2) (by decide)).trans hdst]
  refine ⟨hlen, ?_, ?_⟩
  · unfold Corrupted
    rw [hhdr.hdrLen, hhdr.protocol]
    rintro (⟨h, -⟩ | ⟨-, -, h⟩)
    · exact absurd h (by decide)
    · exact h hsum
  · have h := transportInput_udp_eq (f := ⟨rx + 14, n, rx, g.inet, g.transport⟩) (s := { s with mem := m' }) hhdr.protocol
    rw [← hval, hhanded] at h
    exact h

/-- Two bytes for the port that is bound, over whatever was in the buffers. -/
theorem udp_delivered_bound :
    (receive 4096 (udpSendTo .default 0xc0a8327c ethBcast 0 (fun _ => 0xff) zeroFrame 1000 67 [0x68, 0x69]).bytes zeroFrame
      { idleStack with udp := [boundSock] }).val.rc = .eok :=
  (udp_delivered .default 0xc0a8327c ethBcast 0 (fun _ => 0xff) zeroFrame 1000 67 [0x68, 0x69] (by decide) 4096 zeroFrame
    { idleStack with udp := [boundSock] } (.inl rfl)).2.2.1.trans (by decide)

theorem getElem_ite (b : Bool) (v : BitVec 16) (i : Nat) (h : i < 16) : (if b then v else 0#16)[i] = (b && v[i]) := by
  cases b <;> simp

/-- The flags among the other bits of their word. -/
theorem tcpFlags_tcpFlagBits (w : BitVec 16) (flags : Tcp.Flags) :
    tcpFlags (w &&& 0x0C00 ||| tcpFlagBits flags &&& 0x03FF ||| 0x5000) = flags := by
  simp [tcpFlags, tcpFlagBits, getElem_ite]

/-- The header of a segment, and the bytes behind it. -/
theorem tcpSendFields_carries (srcPort dstPort : BitVec 16) (seq ack : BitVec 32) (win : BitVec 16) (flags : Tcp.Flags)
    (m : Mem) (tcp : Nat) :
    let m' := tcpSendFields srcPort dstPort seq ack win flags m tcp
    (be16 m' tcp = srcPort ∧ be16 m' (tcp + 2) = dstPort) ∧ (be32 m' (tcp + 4) = seq ∧ be32 m' (tcp + 8) = ack) ∧
      be16 m' (tcp + 12) = tcpFlagsDataOffs m tcp &&& 0x0C00 ||| tcpFlagBits flags &&& 0x03FF ||| 0x5000 ∧
      be16 m' (tcp + 14) = win ∧ ∀ n, Carried m (tcp + 20) m' (tcp + 20) n := by
  refine ⟨⟨?_, ?_⟩, ⟨?_, ?_⟩, ?_, ?_, fun n i _ => ?_⟩
  · simp (disch := omega) only [tcpSendFields, be16_setBe16_of_disjoint, be16_setBe32_of_disjoint, be16_setBe16_self]
  · simp (disch := omega) only [tcpSendFields, be16_setBe16_of_disjoint, be16_setBe32_of_disjoint, be16_setBe16_self]
  · simp (disch := omega) only [tcpSendFields, be32_setBe16_of_disjoint, be32_setBe32_of_disjoint, be32_setBe32_self]
  · simp (disch := omega) only [tcpSendFields, be32_setBe16_of_disjoint, be32_setBe32_self]
  · simp (disch := omega) only [tcpSendFields, setTcpDataOffs, setTcpFlags, tcpFlagsDataOffs, be16_setBe16_of_disjoint,
      be16_setBe32_of_disjoint, be16_setBe16_self]
    exact flagsDataOffs_bits ..
  · simp (disch := omega) only [tcpSendFields, be16_setBe16_of_disjoint, be16_setBe16_self]
  · simp (disch := omega) only [tcpSendFields, setTcpDataOffs, setTcpFlags, setBe16_of_ne, setBe32_of_ne]

/-- The offset among the other bits. -/
theorem tcpDataOffs_of_word {m : Mem} {tcp : Nat} {w x : BitVec 16}
    (h : be16 m (tcp + 12) = w &&& 0x0C00 ||| x &&& 0x03FF ||| 0x5000) : tcpDataOffs m tcp = 20 := by
  have hbits : ((w &&& 0x0C00 ||| x &&& 0x03FF ||| 0x5000) &&& 0xF000) >>> 12 = 5 := by
    apply BitVec.eq_of_getLsbD_eq
    intro i hi
    interval_cases i <;> simp
  unfold tcpDataOffs
  rw [h, hbits]
  rfl

/-- **Segments are delivered**: what `TCPIPTcpSock_ProcessOutgoing` sends arrives as the same segment at the sockets of any
stack that the address is one of, with a checksum that is right, whatever the two held in their buffers. -/
theorem tcp_delivered (c : IpConfig) (dst : Ip) (ethDa : Mac) (buf : Nat) (m : Mem) (f : Frame)
    (srcPort dstPort : BitVec 16) (seq ack : BitVec 32) (win : BitVec 16) (flags : Tcp.Flags) (data : List UInt8)
    (hsize : data.length ≤ 65495) (rx : Nat) (g : Frame) (s : Stack) (haddr : s.addr.Addressed dst) :
    let bytes := (tcpEmit c dst ethDa buf m f srcPort dstPort seq ack win flags data).bytes
    let m' := copyIn s.mem rx bytes
    let r := (receive rx bytes g s).val
    let t := Tcp.input s.now s.rnd ⟨c.ip, srcPort, dstPort, seq, ack, win, flags, data⟩ s.tcp
    bytes.length = 54 + data.length ∧ ¬ Corrupted m' (rx + 14) ∧ r.rc = .ofTcp t.1 ∧
      r.stack = { s with mem := m', tcp := t.2 } := by
  intro bytes m' r t
  let size : BitVec 32 := BitVec.ofNat 32 data.length
  let f' : Frame := { tcpAlloc buf f with ptr := buf + 34, size := size + 20 }
  let m1 := tcpSendFields srcPort dstPort seq ack win flags (copyIn m (buf + 54) data) (buf + 34)
  have hs : size.toNat = data.length := (BitVec.toNat_ofNat ..).trans (Nat.mod_eq_of_lt (by omega))
  have hn : f'.size.toNat = data.length + 20 := by
    show (size + 20).toNat = _
    bv_omega
  have hlen : bytes.length = 54 + data.length := by
    show (copyOut _ _ (f'.size + 20 + 14).toNat).length = _
    rw [length_copyOut]
    bv_omega
  obtain ⟨⟨n, hval⟩, hhdr, hpld, hsum⟩ : (∃ n, r = transportInput (ipFrame m' ⟨rx + 14, n, rx, g.inet, g.transport⟩)
        { s with mem := m' }) ∧ IpHeader m' (rx + 14) c.ip dst protocolTcp f'.size ∧ _ ∧ _ :=
    receive_ipSend c dst protocolTcp ethDa m1 f' (by omega) rfl rx g s haddr
  have hpld : Carried _ (buf + 34) m' (rx + 34) f'.size.toNat := hpld
  have hsum : transportChecksum m' (rx + 14) (rx + 34) = 0 := hsum (.inl ⟨rfl, by omega⟩)
  rw [hn] at hpld
  obtain ⟨⟨hsrc, hdst⟩, ⟨hseq, hack⟩, hword, hwin, hbehind⟩ :=
    tcpSendFields_carries srcPort dstPort seq ack win flags (copyIn m (buf + 54) data) (buf + 34)
  have hfields : Carried m1 (buf + 34) m' (rx + 34) 16 :=
    (ipSend_carried c dst protocolTcp ethDa m1 f' (q := buf + 34) (n := 16) (Nat.le_refl _)
      (fun _ => .inl (Nat.le_refl _)) nofun).trans (hpld.mono (by omega))
  have hdata : Carried m1 (buf + 54) m' (rx + 54) data.length :=
    (ipSend_carried c dst protocolTcp ethDa m1 f' (q := buf + 54) (by show buf + 34 ≤ _; omega)
      (fun _ => .inr (by show buf + 34 + 18 ≤ _; omega)) nofun).trans (hpld.drop (k := 20) (by omega))
  have hcopied : copyOut m' (rx + 54) data.length = data :=
    (((hbehind _).trans hdata).copyOut (k := 0) (Nat.le_of_eq (Nat.zero_add _))).trans (copyOut_copyIn_self ..)
  have hword : be16 m' (rx + 34 + 12) = _ := (hfields.be16 (k := 12) (by decide)).trans hword
  have hdoffs : tcpDataOffs m' (rx + 34) = 20 := tcpDataOffs_of_word hword
  have hpayload : (ipPldLen m' (rx + 14) - BitVec.ofNat 32 20).toNat = data.length := by
    rw [hhdr.pldLen (by omega)]
    show (size + 20 - 20).toNat = _
    bv_omega
  have hhanded : handedSegment m' (rx + 14) = ⟨c.ip, srcPort, dstPort, seq, ack, win, flags, data⟩ := by
    unfold handedSegment tcpSegment
    rw [hhdr.hdrLen, hhdr.src]
    dsimp only
    rw [hdoffs, hpayload, hcopied, hword, tcpFlags_tcpFlagBits, (hfields.be16 (k := 0) (by decide)).trans hsrc,
      (hfields.be16 (k := 2) (by decide)).trans hdst, (hfields.be32 (k := 4) (by decide)).trans hseq,
      (hfields.be32 (k := 8) (by decide)).trans hack, (hfields.be16 (k := 14) (by decide)).trans hwin]
  refine ⟨hlen, ?_, ?_⟩
  · unfold Corrupted
    rw [hhdr.hdrLen, hhdr.protocol]
    rintro (⟨-, h⟩ | ⟨h, -⟩)
    · exact h hsum
    · exact absurd h (by decide)
  · have h := transportInput_tcp_eq (f := ⟨rx + 14, n, rx, g.inet, g.transport⟩) (s := { s with mem := m' }) hhdr.protocol
    rw [← hval, hhanded] at h
    exact h

/-- A segment for no socket. -/
theorem tcp_delivered_closed :
    (receive 4096 (tcpEmit .default 0xc0a8327c ethBcast 0 (fun _ => 0xff) zeroFrame 1000 80 7 0 512 { syn := true } []).bytes
      zeroFrame idleStack).val.rc = .efatal :=
  (tcp_delivered .default 0xc0a8327c ethBcast 0 (fun _ => 0xff) zeroFrame 1000 80 7 0 512 { syn := true } [] (by decide) 4096
    zeroFrame idleStack (.inl rfl)).2.2.1.trans (by decide)

end YieldStm32.TCPIP
