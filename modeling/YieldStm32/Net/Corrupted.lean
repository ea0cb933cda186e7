import YieldStm32.Net.Input
import YieldStm32.Net.Tcp.Incoming

/-!
# Corrupted segments

The checksums of TCP and UDP are computed for outgoing frames only, so a segment that is damaged on the way changes the
sockets as any other does.

* `Carries` : a complete, unfragmented IPv4 datagram for this host;
* `Corrupted` : its TCP or UDP checksum is wrong;
* `corrupted_unchanged_iff` : exactly when such a frame leaves every socket as it was.
-/

namespace YieldStm32.TCPIP

/-- The segment that is handed to the TCP sockets. -/
def handedSegment (m : Mem) (ip : Nat) : Tcp.Segment :=
  let tcp := ip + ipHdrLen m ip
  let doffs := tcpDataOffs m tcp
  tcpSegment m ip tcp (Ring.copyOut m (tcp + doffs) (ipPldLen m ip - BitVec.ofNat 32 doffs).toNat)

/-- The datagram that is handed to the UDP sockets. -/
def handedDatagram (m : Mem) (ip : Nat) : Udp.Datagram :=
  let udp := ip + ipHdrLen m ip
  udpDatagram m ip udp (Ring.copyOut m (udp + 8) ((udpLength m udp).zeroExtend 32 - 8).toNat)

/-- A frame of `n` bytes at `rx` with a complete, unfragmented IPv4 datagram for this host. -/
structure Carries (c : IpConfig) (m : Mem) (rx n : Nat) : Prop where
  type : ethType m rx = ethtypeIp
  version : ipVersion m (rx + 14) = 4
  header : 20 ≤ ipHdrLen m (rx + 14)
  total : ipHdrLen m (rx + 14) ≤ (ipLength m (rx + 14)).toNat
  complete : 14 + (ipLength m (rx + 14)).toNat ≤ n
  /-- neither "more fragments" nor an offset, by the bits of the protocol -/
  unfragmented : ipFlagsFragmentOffset m (rx + 14) &&& 0x3FFF = 0
  dst : c.Addressed (ipDstAddr m (rx + 14))

/-- The checksum of the segment or of the datagram is wrong. -/
def Corrupted (m : Mem) (ip : Nat) : Prop :=
  let hdr := ip + ipHdrLen m ip
  ipProtocol m ip = protocolTcp ∧ ¬ tcpChecksumIsValid m ip hdr ∨
    ipProtocol m ip = protocolUdp ∧ udpChecksum m hdr ≠ 0 ∧ ¬ udpChecksumIsValid m ip hdr

/-- No TCP socket that the segment is offered to is changed by it. -/
def TcpIgnored (s : Stack) (seg : Tcp.Segment) : Prop :=
  ∀ (j : Nat) (t : Tcp.Sock), s.tcp[j]? = some t → Tcp.Reached s.rnd seg s.tcp j → Tcp.Ignores s.now seg t

/-- The first UDP socket with the port, if there is one, has no room for the datagram. -/
def UdpIgnored (s : Stack) (d : Udp.Datagram) : Prop :=
  ∀ t, s.udp.find? (fun t => decide (t.Matches d)) = some t → ¬ t.Stores d

theorem handedDatagram_size (m : Mem) (ip : Nat) :
    (handedDatagram m ip).size = (udpLength m (ip + ipHdrLen m ip)).zeroExtend 32 - 8 := by
  show BitVec.ofNat 32 (Ring.copyOut m _ _).length = _
  rw [Ring.copyOut, List.length_map, List.length_range, BitVec.ofNat_toNat, BitVec.setWidth_eq]

/-- The datagram needs room for two bytes at least, whatever its length field says. -/
theorem handedDatagram_bToPut (m : Mem) (ip : Nat) : 0 < (handedDatagram m ip).bToPut := by
  have hlen := (udpLength m (ip + ipHdrLen m ip)).isLt
  unfold Udp.Datagram.bToPut
  rw [handedDatagram_size]
  bv_omega

/-- What a datagram that is handed on does to the sockets. -/
theorem transportInput_socks (f : Frame) (s : Stack) :
    let r := (transportInput (ipFrame s.mem f) s).stack
    (ipProtocol s.mem f.ptr = protocolTcp →
      r.tcp = (Tcp.input s.now s.rnd (handedSegment s.mem f.ptr) s.tcp).2 ∧ r.udp = s.udp) ∧
    (ipProtocol s.mem f.ptr = protocolUdp →
      r.tcp = s.tcp ∧ r.udp = (Udp.input (handedDatagram s.mem f.ptr) s.udp).2) := by
  intro r
  have hne : protocolTcp ≠ protocolIcmp ∧ protocolUdp ≠ protocolIcmp ∧ protocolUdp ≠ protocolTcp := by decide
  have hr : r = (transportInput (ipFrame s.mem f) s).stack := rfl
  unfold transportInput at hr
  constructor
  · intro hp
    have hp' : ipProtocol s.mem (ipFrame s.mem f).inet = protocolTcp := hp
    simp only [hp', if_neg hne.1, if_true] at hr
    rw [hr]
    exact ⟨rfl, rfl⟩
  · intro hp
    have hp' : ipProtocol s.mem (ipFrame s.mem f).inet = protocolUdp := hp
    simp only [hp', if_neg hne.2.1, if_neg hne.2.2, if_true] at hr
    rw [hr]
    exact ⟨rfl, rfl⟩

/-- **Corrupted segments are ignored** exactly when the IP layer drops the datagram, or every TCP socket it is offered to
ignores it, or the UDP socket has no room: the sockets never look at the checksum. -/
theorem corrupted_unchanged_iff (rx : Nat) (bytes : List UInt8) (f : Frame) (s : Stack)
    (hc : Carries s.addr (Ring.copyIn s.mem rx bytes) rx bytes.length)
    (hbad : Corrupted (Ring.copyIn s.mem rx bytes) (rx + 14)) :
    let m := Ring.copyIn s.mem rx bytes
    let r := (receive rx bytes f s).val.stack
    (r.tcp = s.tcp ∧ r.udp = s.udp) ↔
      ¬ s.addr.Accepts m (rx + 14) ∨
        ipProtocol m (rx + 14) = protocolTcp ∧ TcpIgnored s (handedSegment m (rx + 14)) ∨
        ipProtocol m (rx + 14) = protocolUdp ∧ UdpIgnored s (handedDatagram m (rx + 14)) := by
  intro m r
  have hne : protocolTcp ≠ protocolUdp := by decide
  have hr : r = (ipInput ⟨rx + 14, BitVec.ofNat 32 bytes.length - 14, rx, f.inet, f.transport⟩
      { s with mem := m }).val.stack := congrArg Result.stack (receive_val rx bytes f s hc.type)
  rw [ipInput_val] at hr
  by_cases hacc : s.addr.Accepts m (rx + 14)
  case neg =>
    rw [if_neg hacc] at hr
    rw [hr]
    exact iff_of_true ⟨rfl, rfl⟩ (Or.inl hacc)
  rw [if_pos hacc] at hr
  obtain ⟨htcp, hudp⟩ := transportInput_socks
    ⟨rx + 14, BitVec.ofNat 32 bytes.length - 14, rx, f.inet, f.transport⟩ { s with mem := m }
  rw [← hr] at htcp hudp
  rcases hbad with ⟨hp, -⟩ | ⟨hp, -, -⟩
  · obtain ⟨h1, h2⟩ := htcp hp
    rw [h1, h2, and_iff_left rfl, Tcp.input_eq_self_iff]
    refine ⟨fun h => Or.inr (Or.inl ⟨hp, h⟩), ?_⟩
    rintro (h | ⟨-, h⟩ | ⟨h, -⟩)
    · exact absurd hacc h
    · exact h
    · exact absurd (hp.symm.trans h) hne
  · obtain ⟨h1, h2⟩ := hudp hp
    rw [h1, h2, and_iff_right rfl, Udp.input_eq_self_iff (handedDatagram_bToPut m (rx + 14))]
    refine ⟨fun h => Or.inr (Or.inr ⟨hp, h⟩), ?_⟩
    rintro (h | ⟨h, -⟩ | ⟨-, h⟩)
    · exact absurd hacc h
    · exact absurd (h.symm.trans hp) hne
    · exact h

/-- A datagram of one byte to port 67 of this host, with a checksum that is wrong. -/
def damagedDatagram : List UInt8 :=
  [0x00, 0x01, 0x02, 0x03, 0x04, 0x64, 0x02, 0x00, 0x00, 0x00, 0x00, 0x01, 0x08, 0x00,
    0x45, 0x00, 0x00, 0x1d, 0x00, 0x00, 0x00, 0x00, 0xff, 0x11, 0xbe, 0xaa, 0x0a, 0x00, 0x00, 0x01, 0xc0, 0xa8, 0x32, 0x7c,
    0x03, 0xe8, 0x00, 0x43, 0x00, 0x09, 0x12, 0x34, 0x41]

/-- It comes to an empty memory. -/
theorem damagedDatagram_carries (s : Stack) (hmem : s.mem = fun _ => 0) (haddr : s.addr = .default) :
    Carries s.addr (Ring.copyIn s.mem 0x20000000 damagedDatagram) 0x20000000 damagedDatagram.length ∧
      Corrupted (Ring.copyIn s.mem 0x20000000 damagedDatagram) (0x20000000 + 14) := by
  rw [hmem, haddr]
  refine ⟨⟨?_, ?_, ?_, ?_, ?_, ?_, Or.inl ?_⟩, Or.inr ⟨?_, ?_, ?_⟩⟩ <;> decide

theorem corrupted_unchanged_iff_no_socket :
    (Carries .default (Ring.copyIn (fun _ => 0) 0x20000000 damagedDatagram) 0x20000000 damagedDatagram.length ∧
        Corrupted (Ring.copyIn (fun _ => 0) 0x20000000 damagedDatagram) (0x20000000 + 14)) ∧
      (receive 0x20000000 damagedDatagram zeroFrame idleStack).val.stack.tcp = idleStack.tcp ∧
      (receive 0x20000000 damagedDatagram zeroFrame idleStack).val.stack.udp = idleStack.udp := by
  have hd := damagedDatagram_carries idleStack rfl rfl
  have hproto : ipProtocol (Ring.copyIn idleStack.mem 0x20000000 damagedDatagram) (0x20000000 + 14) = protocolUdp := by
    decide
  exact ⟨hd, (corrupted_unchanged_iff 0x20000000 damagedDatagram zeroFrame idleStack hd.1 hd.2).2
    (Or.inr (Or.inr ⟨hproto, fun t ht => by cases ht⟩))⟩

theorem bound_pos : 0 < 64 := by decide

theorem bound_le : 64 ≤ 2 ^ 31 := by decide

theorem bound_lt : 1 * 64 < 2 ^ 32 := by decide

/-- A socket bound to port 67. -/
def boundSock : Udp.Sock where
  locPort := 67
  rxq := .create 1 64 (fun _ => 0) Nat.one_pos bound_pos bound_le bound_lt
  rxOffs := 0
  rxSize := 0
  rxIp := 0
  rxPort := 0

/-- The damaged datagram is stored. -/
theorem not_unchanged_bound :
    ¬ ∀ (rx : Nat) (bytes : List UInt8) (f : Frame) (s : Stack),
      Carries s.addr (Ring.copyIn s.mem rx bytes) rx bytes.length → Corrupted (Ring.copyIn s.mem rx bytes) (rx + 14) →
        (receive rx bytes f s).val.stack.tcp = s.tcp ∧ (receive rx bytes f s).val.stack.udp = s.udp := by
  intro h
  have hd := damagedDatagram_carries { idleStack with udp := [boundSock] } rfl rfl
  have hsame := (h 0x20000000 damagedDatagram zeroFrame { idleStack with udp := [boundSock] } hd.1 hd.2).2
  have hused := congrArg (List.map fun t => t.rxq.getUsed) hsame
  exact absurd hused (by decide)

end YieldStm32.TCPIP
