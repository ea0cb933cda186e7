import YieldStm32.Lib.Run
import YieldStm32.Net.Delivery

/-!
# A transmit buffer from frame to frame (`ip_frame.h`, `rxtx.c`)

A buffer is not cleared between frames, and the masks of `TCPIPIpFrame_SetFlags` and `TCPIPIpFrame_SetFragmentOffset` leave
four bits of their word as they were: the bit for more fragments and the upper three bits of the offset.

* `Use` : what is written to a buffer, `Use.apply`;
* `unfragmented` : from a buffer of zeros on, no frame has any of the sixteen bits set.
-/

namespace YieldStm32.TCPIP

open Ring DHCPFrame Transition

/-- What a task does with memory while the buffer is its own, or belongs to nobody: a frame for each of the senders, or
writes elsewhere. -/
inductive Use (buf : Nat) where
  | udp (c : IpConfig) (dst : Ip) (ethDa : Mac) (f : Frame) (srcPort dstPort : BitVec 16) (data : List UInt8)
  | tcp (c : IpConfig) (dst : Ip) (ethDa : Mac) (f : Frame) (srcPort dstPort : BitVec 16) (seq ack : BitVec 32)
      (win : BitVec 16) (flags : Tcp.Flags) (data : List UInt8)
  | echo (c : IpConfig) (dst : Ip) (ethDa : Mac) (f : Frame) (type : UInt8) (id seqno : BitVec 16) (data : List UInt8)
  | arp (ethDa : Mac) (f : Frame) (request : Bool) (sha : Mac) (spa : Ip) (tha : Mac) (tpa : Ip)
  | elsewhere (run : Mem → Mem) (h : ∀ m i, buf ≤ i → i < buf + Tcp.frameSize → run m i = m i)

namespace Use

variable {buf : Nat}

/-- The frame, if one is sent. -/
def out (m : Mem) : Use buf → Option Out
  | udp c dst ethDa f srcPort dstPort data => some (udpSendTo c dst ethDa buf m f srcPort dstPort data)
  | tcp c dst ethDa f srcPort dstPort seq ack win flags data =>
    some (tcpEmit c dst ethDa buf m f srcPort dstPort seq ack win flags data)
  | echo c dst ethDa f type id seqno data => some (icmpEmitEcho c dst ethDa buf m f type id seqno data)
  | arp ethDa f request sha spa tha tpa =>
    some (arpEmit ethDa buf m f (if request then arpOperRequest else arpOperReply) sha spa tha tpa)
  | elsewhere _ _ => none

/-- The memory after it. -/
def apply (m : Mem) (u : Use buf) : Mem :=
  match u with
  | elsewhere run _ => run m
  | u => ((u.out m).map Out.mem).getD m

def step (m : Mem) (u : Use buf) : Option Mem := some (u.apply m)

end Use

/-- Flags and fragment offset, as they lie behind an Ethernet header. -/
def fragmentWord (m : Mem) (eth : Nat) : BitVec 16 := ipFlagsFragmentOffset m (eth + 14)

/-- A frame that carries a datagram says that it is whole, by all of the bits. -/
def Unfragmented {buf : Nat} (m : Mem) (u : Use buf) (_ : Mem) : Prop :=
  ∀ o, u.out m = some o → ethType o.mem o.frame.ptr = ethtypeIp → fragmentWord o.mem o.frame.ptr = 0

/-- The stale bits. -/
def Clean (buf : Nat) (m : Mem) : Prop := fragmentWord m buf &&& 0x3C00 = 0

theorem fragmentWord_ipSend (c : IpConfig) (dst : Ip) (protocol : UInt8) (ethDa : Mac) (m : Mem) (f : Frame)
    (ht : f.transport = f.eth + 34) :
    fragmentWord (ipSend c dst protocol ethDa m f).mem f.eth = fragmentWord m f.eth &&& 0x3C00 := by
  have hset := (ipSendFields_fields c dst protocol f.size m (f.eth + 14)).checksumSet
  have hswitch : Carried (ipSendHeader c dst protocol f.size m (f.eth + 14)) (f.eth + 14)
      (ipSendSwitch protocol (ipSendHeader c dst protocol f.size m (f.eth + 14)) (f.eth + 14) f.transport) (f.eth + 14) 20 :=
    fun i hi => ipSendSwitch_of_ne _ _ _ _ (fun _ => by omega) (fun _ => by omega)
  have hcarried := hswitch.trans (ipSend_carried_switch c dst protocol ethDa m f 20)
  exact (hcarried.be16 (k := 6) (by decide)).trans hset.word

/-- A datagram over a buffer without stale bits. -/
theorem ipSend_unfragmented (c : IpConfig) (dst : Ip) (protocol : UInt8) (ethDa : Mac) {m m1 : Mem} (f : Frame)
    (ht : f.transport = f.eth + 34) (hm : Clean f.eth m) (hcarried : Carried m (f.eth + 20) m1 (f.eth + 20) 2) :
    fragmentWord (ipSend c dst protocol ethDa m1 f).mem f.eth = 0 := by
  rw [fragmentWord_ipSend c dst protocol ethDa m1 f ht]
  have hword : fragmentWord m1 f.eth = fragmentWord m f.eth := hcarried.be16 (k := 0) (by decide)
  rw [hword]
  exact hm

theorem step_unfragmented {buf : Nat} {m : Mem} (u : Use buf) (hm : Clean buf m) :
    Clean buf (u.apply m) ∧ Unfragmented m u (u.apply m) := by
  -- a datagram leaves zeros
  have hip {o : Out} (ho : u.out m = some o) (happly : u.apply m = o.mem) (hptr : o.frame.ptr = buf)
      (hword : fragmentWord o.mem buf = 0) : Clean buf (u.apply m) ∧ Unfragmented m u (u.apply m) := by
    refine ⟨?_, fun o' ho' _ => ?_⟩
    · unfold Clean
      rw [happly, hword]
      exact BitVec.zero_and
    · obtain rfl := Option.some.inj (ho.symm.trans ho')
      rw [hptr]
      exact hword
  cases u with
  | udp c dst ethDa f srcPort dstPort data =>
      refine hip rfl rfl rfl (ipSend_unfragmented c dst protocolUdp ethDa (m := m) { udpAlloc buf f with
        ptr := buf + 34, size := BitVec.ofNat 32 data.length + 8 } rfl hm fun i hi => ?_)
      simp (disch := omega) only [udpSendFields, udpAlloc, ipAlloc, ethAlloc, rxTxAlloc, setBe16_of_ne]
      exact copyIn_of_ne m (.inl (by omega))
  | tcp c dst ethDa f srcPort dstPort seq ack win flags data =>
      refine hip rfl rfl rfl (ipSend_unfragmented c dst protocolTcp ethDa (m := m) { tcpAlloc buf f with
        ptr := buf + 34, size := BitVec.ofNat 32 data.length + 20 } rfl hm fun i hi => ?_)
      simp (disch := omega) only [tcpSendFields, setTcpDataOffs, setTcpFlags, tcpAlloc, ipAlloc, ethAlloc, rxTxAlloc,
        setBe16_of_ne, setBe32_of_ne]
      exact copyIn_of_ne m (.inl (by omega))
  | echo c dst ethDa f type id seqno data =>
      refine hip rfl rfl rfl (ipSend_unfragmented c dst protocolIcmp ethDa (m := m) { ipAlloc buf f with
        transport := buf + 34, size := BitVec.ofNat 32 (data.length + 4 + 4) } rfl hm fun i hi => ?_)
      have hcopy (m : Mem) : copyIn m (buf + 14 + 20 + 8) data (buf + 20 + i) = m (buf + 20 + i) :=
        copyIn_of_ne m (.inl (by omega))
      simp (disch := omega) only [icmpEchoFields, icmpChecksumSet, setChecksum, ipAlloc, ethAlloc, rxTxAlloc,
        setBe16_of_ne, setByte_of_ne, hcopy]
  | arp ethDa f request sha spa tha tpa =>
      have htype : ethType (arpEmit ethDa buf m f (if request then arpOperRequest else arpOperReply) sha spa tha tpa).mem buf =
        ethtypeArp := be16_setBe16_self ..
      have hword : fragmentWord (arpEmit ethDa buf m f (if request then arpOperRequest else arpOperReply) sha spa tha
          tpa).mem buf = if request then arpOperRequest else arpOperReply := by
        show be16 (ethSend ethDa ethtypeArp _ _).mem (buf + 14 + 6) = _
        simp (disch := omega) only [ethSend, arpSendFields, ethAlloc, rxTxAlloc, be16_setBe32_of_disjoint,
          be16_setMac_of_disjoint, be16_setBe16_of_disjoint, be16_setByte_of_disjoint, be16_setBe16_self]
      refine ⟨?_, fun o ho ht => ?_⟩
      · show fragmentWord (arpEmit ethDa buf m f _ sha spa tha tpa).mem buf &&& 0x3C00 = 0
        rw [hword]
        cases request <;> decide
      · obtain rfl := Option.some.inj ho
        exact absurd (htype.symm.trans ht) (by decide)
  | elsewhere run h =>
      have hcarried : Carried m (buf + 20) (run m) (buf + 20) 2 := fun i hi =>
        h m _ (by omega) (by unfold Tcp.frameSize; omega)
      refine ⟨?_, fun o ho _ => ?_⟩
      · unfold Clean fragmentWord ipFlagsFragmentOffset
        have hword : be16 (run m) (buf + 14 + 6) = be16 m (buf + 14 + 6) := hcarried.be16 (k := 0) (by decide)
        show be16 (run m) (buf + 14 + 6) &&& 0x3C00 = 0
        rw [hword]
        exact hm
      · cases ho

/-- **Datagrams are never sent as fragments**: over all that happens to a transmit buffer from zeros on, the bits of the
flags and of the offset stay zero, also those that the masks miss. -/
theorem unfragmented (buf : Nat) (m : Mem) (hm : ∀ i < Tcp.frameSize, m (buf + i) = 0) (us : List (Use buf)) :
    Along Use.step Unfragmented m us := by
  have hzero : fragmentWord m buf = 0 := by
    unfold fragmentWord ipFlagsFragmentOffset be16
    rw [show buf + 14 + 6 = buf + 20 from rfl, Nat.add_assoc, hm 20 (by decide), hm (20 + 1) (by decide)]
    rfl
  have hclean : Clean buf m := by
    unfold Clean
    rw [hzero]
    exact BitVec.zero_and
  refine along_of_meets (I := Clean buf) (G := fun _ _ => True) (fun m u m' hm _ hs => ?_) hclean
    (Meets.of_forall (fun _ _ => True.intro) m us)
  obtain rfl := Option.some.inj hs
  exact step_unfragmented u hm

/-- A reply by ARP, and a datagram behind it in the same buffer. -/
theorem unfragmented_reused :
    Along Use.step Unfragmented (fun _ => 0) [.arp ethBcast zeroFrame false ethAddress 0xc0a8327c ethBcast 0xc0a83201,
      (.udp .default 0xc0a83201 ethBcast zeroFrame 53 1000 [1, 2, 3] : Use 64)] :=
  unfragmented 64 (fun _ => 0) (fun _ _ => rfl) _

/-- A buffer of ones would make a fragment of it. -/
theorem not_unfragmented_ones :
    ¬ Along Use.step Unfragmented (fun _ => 0xff) [(.udp .default 0xc0a83201 ethBcast zeroFrame 53 1000 [] : Use 0)] := by
  intro h
  have hsent := (h _ rfl).1 _ rfl (be16_setBe16_self ..)
  have hword : fragmentWord (udpSendTo .default 0xc0a83201 ethBcast 0 (fun _ => 0xff) zeroFrame 53 1000 []).mem 0 = 0x3C00 :=
    (fragmentWord_ipSend _ _ _ _ _ _ rfl).trans (by decide)
  exact absurd (hword.symm.trans hsent) (by decide)

end YieldStm32.TCPIP
