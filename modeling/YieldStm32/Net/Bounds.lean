import YieldStm32.Net.Input

/-!
# What the layers read of a frame

* `Access.Within rx n` : a note that stays within the `n` bytes received at `rx`, or a subtraction that does not wrap;
* `TcpFits`, `UdpFits`, `IcmpFits`, `IpFits`, `Fits` : the lengths in the headers fit the bytes received;
* `within_iff` : the two are the same.
-/

namespace YieldStm32.TCPIP

open Traced

/-- The `k` bytes from `p` on are among the `n` received at `rx`. -/
def Inside (rx n p k : Nat) : Prop := ∀ i < k, rx ≤ p + i ∧ p + i < rx + n

/-- The bytes read are bytes received; a subtraction does not wrap. -/
def Access.Within (rx n : Nat) : Access → Prop
  | .field p k => Inside rx n p k
  | .range p k => Inside rx n p k
  | .minus a b => b ≤ a

variable {rx n : Nat}

/-- Bytes given by their offset in the frame. -/
theorem inside_iff (off k : Nat) : Inside rx n (rx + off) k ↔ k = 0 ∨ off + k ≤ n := by
  constructor
  · intro h
    rcases Nat.eq_zero_or_pos k with hk | hk
    · exact Or.inl hk
    · have := h (k - 1) (by omega)
      omega
  · intro h i hi
    omega

theorem within_range (off k : Nat) : (Access.range (rx + off) k).Within rx n ↔ k = 0 ∨ off + k ≤ n := inside_iff off k

theorem within_field (off : Nat) {k : Nat} (hk : 0 < k) : (Access.field (rx + off) k).Within rx n ↔ off + k ≤ n :=
  (inside_iff off k).trans (or_iff_right (Nat.ne_of_gt hk))

theorem within_minus (a b : BitVec 32) : (Access.minus a b).Within rx n ↔ b.toNat ≤ a.toNat := Iff.rfl

/-! ## TCP and UDP -/

theorem zeroExtend_toNat (x : BitVec 16) : (x.zeroExtend 32).toNat = x.toNat := by
  have := x.isLt
  rw [BitVec.toNat_setWidth, Nat.mod_eq_of_lt (by omega)]

/-- The data offset lies in the frame and points into the payload, which lies in the frame as well. -/
def TcpFits (n : Nat) (m : Mem) (rx off pld : Nat) : Prop :=
  off + 14 ≤ n ∧ tcpDataOffs m (rx + off) ≤ pld ∧ (tcpDataOffs m (rx + off) = pld ∨ off + pld ≤ n)

theorem tcpDataOffs_le (m : Mem) (tcp : Nat) : tcpDataOffs m tcp ≤ 60 := by
  have h : ((be16 m (tcp + 12) &&& 0xF000) >>> 12).toNat < 16 := by
    rw [BitVec.toNat_ushiftRight, Nat.shiftRight_eq_div_pow]
    have := (be16 m (tcp + 12) &&& 0xF000).isLt
    omega
  unfold tcpDataOffs
  omega

theorem safe_tcpInput {off : Nat} {f : Frame} {s : Stack} (hptr : f.ptr = rx + off) :
    Safe (Access.Within rx n) (tcpInput f s) ↔ TcpFits n s.mem rx off f.size.toNat := by
  have hle := tcpDataOffs_le s.mem (rx + off)
  have hlt := f.size.isLt
  simp only [tcpInput, field, minus, range, safe_bind, safe_note, safe_pure, hptr, and_true, Nat.add_assoc rx,
    within_field _ Nat.two_pos, within_minus, within_range, BitVec.toNat_sub, BitVec.toNat_ofNat]
  unfold TcpFits
  omega

/-- The length lies in the frame and is at least that of the header, and the payload lies in the frame. -/
def UdpFits (n : Nat) (m : Mem) (rx off : Nat) : Prop :=
  off + 6 ≤ n ∧ 8 ≤ (udpLength m (rx + off)).toNat ∧
    ((udpLength m (rx + off)).toNat = 8 ∨ off + (udpLength m (rx + off)).toNat ≤ n)

theorem safe_udpInput {off : Nat} {f : Frame} {s : Stack} (hptr : f.ptr = rx + off) :
    Safe (Access.Within rx n) (udpInput f s) ↔ UdpFits n s.mem rx off := by
  have hlt := (udpLength s.mem (rx + off)).isLt
  simp only [udpInput, field, minus, range, safe_bind, safe_note, safe_pure, hptr, and_true, Nat.add_assoc rx,
    within_field _ Nat.two_pos, within_minus, within_range, BitVec.toNat_sub, zeroExtend_toNat]
  unfold UdpFits
  simp only [show (8 : BitVec 32).toNat = 8 from rfl]
  omega

/-! ## ICMP -/

/-- The range summed up, from the pointer the descriptor held before, lies in the frame; an echo request is long enough
for its header, and its data lie in the frame. -/
def IcmpFits (n : Nat) (m : Mem) (rx icmp off pld : Nat) : Prop :=
  Inside rx n icmp pld ∧
    (icmpChecksumIsValid m icmp pld → Inside rx n icmp 1 ∧
      (icmpType m icmp = icmpEchoRequest → off + 8 ≤ n ∧ 8 ≤ pld ∧ (pld = 8 ∨ off + pld ≤ n)) ∧
      (icmpType m icmp = icmpEchoReply → off + 8 ≤ n))

theorem safe_icmpProcessEchoRequest {off iph : Nat} {f : Frame} {s : Stack} (htr : f.transport = rx + off)
    (hinet : f.inet = rx + iph) (hsrc : iph + 16 ≤ n) :
    Safe (Access.Within rx n) (icmpProcessEchoRequest f s) ↔
      off + 8 ≤ n ∧ 8 ≤ f.size.toNat ∧ (f.size.toNat = 8 ∨ off + f.size.toNat ≤ n) := by
  have hlt := f.size.isLt
  simp only [icmpProcessEchoRequest, field, minus, range, safe_bind, safe_note, safe_pure, htr, hinet, and_true,
    Nat.add_assoc rx, within_field _ Nat.two_pos, within_field _ (Nat.succ_pos 3), within_minus, within_range, BitVec.toNat_sub]
  simp only [show (4 : BitVec 32).toNat = 4 from rfl]
  omega

theorem safe_icmpProcessEchoResponse {off iph : Nat} {f : Frame} {s : Stack} (htr : f.transport = rx + off)
    (hinet : f.inet = rx + iph) (hsrc : iph + 16 ≤ n) :
    Safe (Access.Within rx n) (icmpProcessEchoResponse f s) ↔ off + 8 ≤ n := by
  simp only [icmpProcessEchoResponse, field, safe_bind, safe_note, safe_ite, safe_pure, htr, hinet, and_true,
    Nat.add_assoc rx, within_field _ Nat.two_pos, within_field _ (Nat.succ_pos 3), ite_self]
  omega

theorem safe_icmpInput {off iph : Nat} {f : Frame} {s : Stack} (hptr : f.ptr = rx + off) (hinet : f.inet = rx + iph)
    (hsrc : iph + 16 ≤ n) :
    Safe (Access.Within rx n) (icmpInput f s) ↔ IcmpFits n s.mem rx f.transport off f.size.toNat := by
  have hreq := @safe_icmpProcessEchoRequest rx n off iph { f with transport := f.ptr } s hptr hinet hsrc
  have hresp := @safe_icmpProcessEchoResponse rx n off iph { f with transport := f.ptr } s hptr hinet hsrc
  have hne : icmpEchoReply ≠ icmpEchoRequest := by decide
  simp only [icmpInput, field, range, safe_bind, safe_note, safe_ite, safe_pure, hreq, hresp]
  unfold IcmpFits icmpChecksumIsValid
  refine and_congr Iff.rfl ?_
  by_cases hv : ~~~ checksum 0 (Ring.copyOut s.mem f.transport f.size.toNat) = 0
  · rw [if_neg (not_not.2 hv)]
    simp only [hv, true_imp_iff]
    refine and_congr Iff.rfl ?_
    by_cases ht : icmpType s.mem f.transport = icmpEchoRequest
    · simp [ht, hne.symm]
    · simp [ht]
  · rw [if_pos hv]
    exact iff_of_true trivial fun h => absurd h hv

/-! ## IP and Ethernet -/

/-- The header behind the IP header fits, by the protocol. -/
def TransportFits (n : Nat) (m : Mem) (rx icmp : Nat) (protocol : UInt8) (off pld : Nat) : Prop :=
  if protocol = protocolIcmp then IcmpFits n m rx icmp off pld
  else if protocol = protocolTcp then TcpFits n m rx off pld
  else if protocol = protocolUdp then UdpFits n m rx off
  else True

/-- The header length fits the frame; where the header is valid, the total length is no less and all fields lie in the
frame; where the datagram is let through, its transport header fits. -/
def IpFits (n : Nat) (s : Stack) (rx off icmp : Nat) : Prop :=
  let ip := rx + off
  off + 1 ≤ n ∧ off + ipHdrLen s.mem ip ≤ n ∧
    (ipChecksumIsValid s.mem ip →
      ipHdrLen s.mem ip ≤ (ipLength s.mem ip).toNat ∧ off + 20 ≤ n ∧
        (s.addr.Passes s.mem ip →
          TransportFits n s.mem rx icmp (ipProtocol s.mem ip) (off + ipHdrLen s.mem ip)
            ((ipLength s.mem ip).toNat - ipHdrLen s.mem ip)))

theorem ipHdrLen_le (m : Mem) (ip : Nat) : ipHdrLen m ip ≤ 60 := by
  have h : (m ip &&& 0x0F).toNat ≤ 15 := by
    rw [UInt8.toNat_and]
    exact Nat.and_le_right
  unfold ipHdrLen
  omega

theorem hdrLen_toNat (m : Mem) (ip : Nat) : (BitVec.ofNat 32 (ipHdrLen m ip)).toNat = ipHdrLen m ip := by
  have := ipHdrLen_le m ip
  rw [BitVec.toNat_ofNat, Nat.mod_eq_of_lt (by omega)]

/-- The payload length, where it does not wrap. -/
theorem ipPldLen_toNat {m : Mem} {ip : Nat} (h : ipHdrLen m ip ≤ (ipLength m ip).toNat) :
    (ipPldLen m ip).toNat = (ipLength m ip).toNat - ipHdrLen m ip := by
  have := (ipLength m ip).isLt
  unfold ipPldLen
  rw [BitVec.toNat_sub, zeroExtend_toNat, hdrLen_toNat]
  omega

theorem safe_transport {off iph pld : Nat} {f : Frame} {s : Stack} (protocol : UInt8) (hptr : f.ptr = rx + off)
    (hinet : f.inet = rx + iph) (hsize : f.size.toNat = pld) (h20 : iph + 20 ≤ n) :
    (if protocol = protocolIcmp then Safe (Access.Within rx n) (icmpInput f s)
      else if protocol = protocolTcp then Safe (Access.Within rx n) (tcpInput f s)
      else if protocol = protocolUdp then Safe (Access.Within rx n) (udpInput f s) else True) ↔
      TransportFits n s.mem rx f.transport protocol off pld := by
  unfold TransportFits
  rw [safe_icmpInput hptr hinet (by omega), safe_tcpInput hptr, safe_udpInput hptr, hsize]

theorem safe_ipInput {off : Nat} {f : Frame} {s : Stack} (hptr : f.ptr = rx + off) :
    Safe (Access.Within rx n) (ipInput f s) ↔ IpFits n s rx off f.transport := by
  simp only [ipInput, ipChecksumCompute, field, range, minus, safe_bind, safe_note, safe_ite, safe_pure, val_bind, val_pure,
    hptr, Nat.add_assoc rx, within_field _ Nat.two_pos, within_field _ Nat.one_pos, within_field _ (Nat.succ_pos 3),
    within_minus, within_range, and_true, zeroExtend_toNat, hdrLen_toNat]
  unfold IpFits ipChecksumIsValid IpConfig.Passes
  dsimp only
  by_cases hv : ~~~ checksum 0 (Ring.copyOut s.mem (rx + off) (ipHdrLen s.mem (rx + off))) = 0
  case neg =>
    rw [if_pos hv, and_true]
    constructor
    · rintro ⟨h1, h2⟩
      exact ⟨h1, by omega, fun h => absurd h hv⟩
    · rintro ⟨h1, h2, -⟩
      exact ⟨h1, Or.inr h2⟩
  rw [if_neg (not_not.2 hv), imp_iff_right hv]
  by_cases hlen : ipHdrLen s.mem (rx + off) ≤ (ipLength s.mem (rx + off)).toNat
  case neg => simp only [hlen, false_and, and_false]
  by_cases h20 : off + 20 ≤ n
  case neg =>
    refine iff_of_false (fun h => ?_) fun h => h20 h.2.2.2.1
    have := h.2.2.2.2.1
    omega
  have htr := @safe_transport rx n (off + ipHdrLen s.mem (rx + off)) off
    ((ipLength s.mem (rx + off)).toNat - ipHdrLen s.mem (rx + off))
    ⟨rx + (off + ipHdrLen s.mem (rx + off)), ipPldLen s.mem (rx + off), f.eth, rx + off, f.transport⟩ s
    (ipProtocol s.mem (rx + off)) rfl rfl (ipPldLen_toNat hlen) h20
  by_cases ha : s.addr.Addressed (ipDstAddr s.mem (rx + off))
  case neg =>
    rw [if_pos ha]
    constructor
    · rintro ⟨⟨h1, h2⟩, -⟩
      exact ⟨h1, by omega, hlen, h20, fun h => absurd h.1 ha⟩
    · rintro ⟨h1, h2, -⟩
      exact ⟨⟨h1, Or.inr h2⟩, h1, by omega, hlen, by omega, trivial⟩
  by_cases hf : ipFlags s.mem (rx + off) &&& 0x8000 ≠ 0 ∨ ipFragmentOffset s.mem (rx + off) ≠ 0
  case pos =>
    rw [if_neg (not_not.2 ha), if_pos hf]
    constructor
    · rintro ⟨⟨h1, h2⟩, -⟩
      exact ⟨h1, by omega, hlen, h20, fun h => absurd hf h.2⟩
    · rintro ⟨h1, h2, -⟩
      exact ⟨⟨h1, Or.inr h2⟩, h1, by omega, hlen, by omega, by omega, by omega, trivial⟩
  rw [if_neg (not_not.2 ha), if_neg hf, imp_iff_right ⟨ha, hf⟩, ← htr]
  constructor
  · rintro ⟨⟨h1, h2⟩, -, -, -, -, -, -, -, h⟩
    exact ⟨h1, by omega, hlen, h20, h⟩
  · rintro ⟨h1, h2, -, -, h⟩
    exact ⟨⟨h1, Or.inr h2⟩, h1, by omega, hlen, by omega, by omega, by omega, by omega, h⟩

/-- The condition on a frame of `n` bytes at `rx`; `icmp` is the transport pointer of the frame before. -/
def Fits (n : Nat) (s : Stack) (rx icmp : Nat) : Prop :=
  14 ≤ n ∧ (ethType s.mem rx = ethtypeIp → IpFits n s rx 14 icmp)

theorem safe_ethInput {f : Frame} {s : Stack} (hptr : f.ptr = rx) (hsize : f.size.toNat = n) :
    Safe (Access.Within rx n) (ethInput f s) ↔ Fits n s rx f.transport := by
  have hip := @safe_ipInput rx n 14 ⟨rx + 14, f.size - 14, rx, f.inet, f.transport⟩ s rfl
  simp only [ethInput, field, minus, safe_bind, safe_note, safe_ite, safe_pure, hip, hptr, within_field _ Nat.two_pos,
    within_minus, hsize]
  unfold Fits
  rw [show (14 : BitVec 32).toNat = 14 from rfl]
  by_cases ht : ethType s.mem rx = ethtypeIp
  · rw [if_pos ht, imp_iff_right ht]
    exact ⟨fun h => ⟨h.1, h.2.2⟩, fun h => ⟨h.1, by omega, h.2⟩⟩
  · rw [if_neg ht, ite_self]
    exact ⟨fun h => ⟨h.1, fun hc => absurd hc ht⟩, fun h => ⟨h.1, by omega, trivial⟩⟩

/-- **Frames are parsed within their bounds** exactly when the lengths in their headers fit the bytes received: all that
the layers read, sum up or hand on are bytes of the frame, and no subtraction of sizes wraps. -/
theorem within_iff (rx : Nat) (bytes : List UInt8) (f : Frame) (s : Stack) (hlen : bytes.length ≤ 1518) :
    Safe (Access.Within rx bytes.length) (receive rx bytes f s) ↔
      Fits bytes.length { s with mem := Ring.copyIn s.mem rx bytes } rx f.transport := by
  apply safe_ethInput rfl
  show (BitVec.ofNat 32 bytes.length).toNat = bytes.length
  rw [BitVec.toNat_ofNat, Nat.mod_eq_of_lt (by omega)]

instance (n : Nat) (m : Mem) (rx off pld : Nat) : Decidable (TcpFits n m rx off pld) :=
  inferInstanceAs (Decidable (_ ∧ _ ∧ (_ ∨ _)))

instance (n : Nat) (m : Mem) (rx off : Nat) : Decidable (UdpFits n m rx off) :=
  inferInstanceAs (Decidable (_ ∧ _ ∧ (_ ∨ _)))

instance (rx n p k : Nat) : Decidable (Inside rx n p k) := Nat.decidableBallLT k fun i _ => rx ≤ p + i ∧ p + i < rx + n

instance (n : Nat) (m : Mem) (rx icmp off pld : Nat) : Decidable (IcmpFits n m rx icmp off pld) :=
  inferInstanceAs (Decidable (_ ∧ (_ → _ ∧ (_ → _) ∧ (_ → _))))

instance (n : Nat) (m : Mem) (rx icmp : Nat) (protocol : UInt8) (off pld : Nat) :
    Decidable (TransportFits n m rx icmp protocol off pld) := by
  unfold TransportFits
  infer_instance

instance (n : Nat) (s : Stack) (rx off icmp : Nat) : Decidable (IpFits n s rx off icmp) :=
  inferInstanceAs (Decidable (_ ∧ _ ∧ (_ → _ ∧ _ ∧ (_ → _))))

instance (n : Nat) (s : Stack) (rx icmp : Nat) : Decidable (Fits n s rx icmp) :=
  inferInstanceAs (Decidable (_ ∧ (_ → _)))

/-- A datagram of one byte from 10.0.0.1 to port 67 of this host. -/
def oneByteDatagram : List UInt8 :=
  [0x00, 0x01, 0x02, 0x03, 0x04, 0x64, 0x02, 0x00, 0x00, 0x00, 0x00, 0x01, 0x08, 0x00,
    0x45, 0x00, 0x00, 0x1d, 0x00, 0x00, 0x00, 0x00, 0xff, 0x11, 0xbe, 0xaa, 0x0a, 0x00, 0x00, 0x01, 0xc0, 0xa8, 0x32, 0x7c,
    0x03, 0xe8, 0x00, 0x43, 0x00, 0x09, 0x00, 0x00, 0x41]

theorem within_iff_oneByte :
    oneByteDatagram.length ≤ 1518 ∧
      Safe (Access.Within 0x20000000 oneByteDatagram.length) (receive 0x20000000 oneByteDatagram zeroFrame idleStack) :=
  ⟨by decide, (within_iff 0x20000000 oneByteDatagram zeroFrame idleStack (by decide)).2 (by decide)⟩

/-- One byte is received, and fourteen are subtracted from its length. -/
theorem not_within_short :
    ¬ ∀ (rx : Nat) (bytes : List UInt8) (f : Frame) (s : Stack), 1 ≤ bytes.length → bytes.length ≤ 1518 →
      Safe (Access.Within rx bytes.length) (receive rx bytes f s) := by
  intro h
  have hsafe := h 0x20000000 [0] zeroFrame idleStack (by decide) (by decide)
  have hfits := (safe_ethInput rfl rfl).1 hsafe
  exact absurd hfits.1 (by decide)

end YieldStm32.TCPIP
