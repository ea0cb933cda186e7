import YieldStm32.Net.ArpTable
import YieldStm32.Net.Delivery

/-!
# Requests and replies on the wire (`arp.c`, `icmp.c`)

* `receive_arpEmit` : a frame of `TCPIPArp_SendFrame` at another stack;
* `arp_exchange` : a request on its way there and the reply on its way back;
* `receive_icmpEmitEcho`, `echo_answered` : an echo request or reply at another stack.
-/

namespace YieldStm32.TCPIP

open Ring DHCPFrame Traced

/-! ## ARP -/

/-- A header for Ethernet and IP with these fields. -/
structure ArpFields (m : Mem) (arp : Nat) (oper : BitVec 16) (sha : Mac) (spa : Ip) (tha : Mac) (tpa : Ip) : Prop where
  ethIp : ArpEthIp m arp
  oper : be16 m (arp + 6) = oper
  sha : mac m (arp + 8) = sha
  spa : be32 m (arp + 14) = spa
  tha : mac m (arp + 18) = tha
  tpa : be32 m (arp + 24) = tpa

section

variable (m : Mem) {p q : Nat}

theorem mac_setMac_of_disjoint (a : Mac) (h : q + 6 ≤ p ∨ p + 6 ≤ q) : mac (setMac m p a) q = mac m q :=
  mac_copyIn_of_disjoint m h

theorem mac_setBe32_of_disjoint (w : BitVec 32) (h : q + 6 ≤ p ∨ p + 4 ≤ q) : mac (setBe32 m p w) q = mac m q :=
  mac_copyIn_of_disjoint m h

theorem be32_setMac_of_disjoint (a : Mac) (h : q + 4 ≤ p ∨ p + 6 ≤ q) : be32 (setMac m p a) q = be32 m q :=
  be32_copyIn_of_disjoint m h

end

theorem arpSendFields_fields (oper : BitVec 16) (sha : Mac) (spa : Ip) (tha : Mac) (tpa : Ip) (m : Mem) (arp : Nat) :
    ArpFields (arpSendFields oper sha spa tha tpa m arp) arp oper sha spa tha tpa := by
  refine ⟨⟨⟨?_, ?_⟩, ?_, ?_⟩, ?_, ?_, ?_, ?_, be32_setBe32_self ..⟩
  · simp (disch := omega) only [arpSendFields, be16_setBe32_of_disjoint, be16_setMac_of_disjoint,
      be16_setBe16_of_disjoint, be16_setBe16_self]
  · simp (disch := omega) only [arpSendFields, be16_setBe32_of_disjoint, be16_setMac_of_disjoint, be16_setBe16_self]
  · simp (disch := omega) only [arpSendFields, setBe32_of_ne, setMac_of_ne, setBe16_of_ne, setByte_of_ne, setByte_self]
  · simp (disch := omega) only [arpSendFields, setBe32_of_ne, setMac_of_ne, setBe16_of_ne, setByte_self]
  · simp (disch := omega) only [arpSendFields, be16_setBe32_of_disjoint, be16_setMac_of_disjoint,
      be16_setBe16_of_disjoint, be16_setByte_of_disjoint, be16_setBe16_self]
  · simp (disch := omega) only [arpSendFields, mac_setBe32_of_disjoint, mac_setMac_of_disjoint, mac_setMac_self]
  · simp (disch := omega) only [arpSendFields, be32_setBe32_of_disjoint, be32_setBe32_self]
  · simp (disch := omega) only [arpSendFields, mac_setBe32_of_disjoint, mac_setMac_self]

theorem ArpFields.carried {m m' : Mem} {arp arp' : Nat} {oper : BitVec 16} {sha tha : Mac} {spa tpa : Ip}
    (h : ArpFields m arp oper sha spa tha tpa) (hc : Carried m arp m' arp' 28) :
    ArpFields m' arp' oper sha spa tha tpa := by
  refine ⟨⟨⟨?_, ?_⟩, ?_, ?_⟩, ?_, ?_, ?_, ?_, ?_⟩
  · exact (hc.be16 (k := 0) (by decide)).trans h.ethIp.1.1
  · exact (hc.be16 (k := 2) (by decide)).trans h.ethIp.1.2
  · exact (hc.byte (k := 4) (by decide)).trans h.ethIp.2.1
  · exact (hc.byte (k := 5) (by decide)).trans h.ethIp.2.2
  · exact (hc.be16 (k := 6) (by decide)).trans h.oper
  · exact (hc.mac (k := 8) (by decide)).trans h.sha
  · exact (hc.be32 (k := 14) (by decide)).trans h.spa
  · exact (hc.mac (k := 18) (by decide)).trans h.tha
  · exact (hc.be32 (k := 24) (by decide)).trans h.tpa

/-- What a stack does with a frame whose sender and target are these. -/
def arpReaction (oper : BitVec 16) (sha : Mac) (spa : Ip) (tha : Mac) (tpa : Ip) (s : Stack) : Stack :=
  if oper = arpOperRequest ∧ tpa = s.addr.ip then
    { arpUpdateTable sha spa s with
      sent := s.sent ++ [.arp ethAddress arpOperReply ethAddress s.addr.ip sha spa] }
  else if oper = arpOperReply ∧ tpa = s.addr.ip ∧ tha = ethAddress then arpUpdateTable sha spa s
  else s

/-- An update changes the table, if anything. -/
theorem arpUpdateTable_eq (ha : Mac) (pa : Ip) (s : Stack) : ∃ t, arpUpdateTable ha pa s = { s with arpTable := t } := by
  unfold arpUpdateTable
  dsimp only
  split
  · exact ⟨_, rfl⟩
  · exact ⟨s.arpTable, rfl⟩

theorem arpInput_stack {f : Frame} {s : Stack} {oper : BitVec 16} {sha tha : Mac} {spa tpa : Ip}
    (h : ArpFields s.mem f.ptr oper sha spa tha tpa) (hsa : ethSA s.mem f.eth = ethAddress) :
    (arpInput f s).stack = arpReaction oper sha spa tha tpa s := by
  have hne : arpOperReply ≠ arpOperRequest := by decide
  obtain ⟨t, ht⟩ := arpUpdateTable_eq sha spa s
  unfold arpInput arpReaction
  dsimp only
  rw [h.oper]
  by_cases hreq : oper = arpOperRequest
  · have hno : ¬ (oper = arpOperReply ∧ tpa = s.addr.ip ∧ tha = ethAddress) := fun hc => hne (hc.1.symm.trans hreq)
    rw [if_pos hreq, if_neg hno]
    unfold arpProcessRequest
    dsimp only
    rw [if_neg (not_not.2 h.ethIp), h.tpa, h.sha, h.spa, ht]
    dsimp only
    rw [hsa]
    by_cases hip : tpa = s.addr.ip
    · rw [if_neg (not_not.2 hip), if_pos ⟨hreq, hip⟩]
    · rw [if_pos hip, if_neg fun hc => hip hc.2]
  rw [if_neg hreq, if_neg (fun hc => hreq hc.1 : ¬ (oper = arpOperRequest ∧ tpa = s.addr.ip))]
  by_cases hrep : oper = arpOperReply
  · rw [if_pos hrep]
    unfold arpProcessReply
    rw [if_neg (not_not.2 h.ethIp), h.tpa, h.tha, h.sha, h.spa]
    by_cases hto : tpa = s.addr.ip ∧ tha = ethAddress
    · have hours : ¬ (¬ s.addr.IsMatchingUnicast tpa ∨ tha ≠ ethAddress) := by
        rintro (hc | hc)
        · exact hc hto.1
        · exact hc hto.2
      rw [if_neg hours, if_pos ⟨hrep, hto⟩]
    · have hother : ¬ s.addr.IsMatchingUnicast tpa ∨ tha ≠ ethAddress := by
        by_cases hip : tpa = s.addr.ip
        · exact .inr fun hc => hto ⟨hip, hc⟩
        · exact .inl hip
      rw [if_pos hother, if_neg fun hc => hto hc.2]
  · rw [if_neg hrep, if_neg fun hc => hrep hc.1]

/-- **ARP frames are understood**: what one stack sends, another reacts to by its fields. -/
theorem receive_arpEmit (oper : BitVec 16) (sha : Mac) (spa : Ip) (tha : Mac) (tpa : Ip) (ethDa : Mac) (buf : Nat)
    (m : Mem) (f : Frame) (rx : Nat) (g : Frame) (s : Stack) :
    let bytes := (arpEmit ethDa buf m f oper sha spa tha tpa).bytes
    (receive rx bytes g s).val.stack = arpReaction oper sha spa tha tpa { s with mem := copyIn s.mem rx bytes } := by
  intro bytes
  let o := arpEmit ethDa buf m f oper sha spa tha tpa
  have hcarried : Carried o.mem buf (copyIn s.mem rx bytes) rx 42 := carried_bytes o s.mem rx
  have hmem : Carried (arpSendFields oper sha spa tha tpa m (buf + 14)) (buf + 14) o.mem (buf + 14) 28 := fun i _ => by
    show (ethSend ethDa ethtypeArp _ _).mem _ = _
    simp (disch := omega) only [ethSend, ethAlloc, rxTxAlloc, setBe16_of_ne, setMac_of_ne]
  have hsa : ethSA o.mem buf = ethAddress := by
    show mac (ethSend ethDa ethtypeArp _ _).mem _ = _
    unfold ethSend
    dsimp only
    refine (mac_copyIn_of_disjoint _ (.inl ?_)).trans (mac_setMac_self ..)
    exact Nat.le_refl _
  have htype : ethType o.mem buf = ethtypeArp := be16_setBe16_self ..
  have hfields := ((arpSendFields_fields oper sha spa tha tpa m (buf + 14)).carried hmem).carried
    (hcarried.drop (k := 14) (l := 28) (by decide))
  have htype' : ethType (copyIn s.mem rx bytes) rx = ethtypeArp := (hcarried.be16 (k := 12) (by decide)).trans htype
  have hsa' : ethSA (copyIn s.mem rx bytes) rx = ethAddress := (hcarried.mac (k := 6) (by decide)).trans hsa
  simp only [receive, ethInput, field, minus, val_bind, val_ite, val_pure]
  rw [if_neg (by rw [htype']; decide), if_pos htype']
  exact arpInput_stack hfields hsa'

/-- The bytes of a queued frame, put together in the buffer at `buf`. -/
def Sent.bytes (buf : Nat) (m : Mem) (f : Frame) : Sent → List UInt8
  | .arp da oper sha spa tha tpa => (arpEmit da buf m f oper sha spa tha tpa).bytes
  | .echo ethDa src dst type id seqno data =>
    (icmpEmitEcho { IpConfig.default with ip := src } dst ethDa buf m f type id seqno data).bytes

/-- An entry that was updated is found, where no other one had its address. -/
theorem arpLookup_arpUpdateTable {s : Stack} {ha : Mac} {pa : Ip} (hnone : holder pa s.arpTable = none) :
    arpLookup pa (arpUpdateTable ha pa s) = some ha ↔ ∃ e ∈ s.arpTable, e.ha = ha ∨ 0 < e.age s.now := by
  rcases exists_replaces_or s.now ha s.arpTable with ⟨before, e, behind, ht, h⟩ | hno
  · have hbefore : holder pa before = none := by
      rw [ht, holder_append, Option.or_eq_none_iff] at hnone
      exact hnone.1
    have he : e ∈ s.arpTable := by
      rw [ht]
      exact List.mem_append_right _ (List.mem_cons_self ..)
    rw [arpUpdateTable_of_replaces s pa ht h, arpLookup_eq]
    dsimp only
    rw [holder_append, hbefore, if_pos rfl]
    refine iff_of_true rfl ⟨e, he, ?_⟩
    rcases h with ⟨hha, -⟩ | ⟨-, hage, -⟩
    · exact .inl hha
    · exact .inr hage
  · rw [arpUpdateTable_of_none s pa hno, arpLookup_eq, hnone]
    refine iff_of_false nofun ?_
    rintro ⟨e, he, hha | hage⟩
    · exact (hno e he).1 hha
    · exact absurd hage (Int.not_lt.2 (hno e he).2)

/-- **An address is resolved by one request and its reply**: the stack that has the address answers, and with the answer
the other one finds it, exactly where its table had an entry to give up. -/
theorem arp_exchange (a b : Stack) (hnone : holder b.addr.ip a.arpTable = none) (now : BitVec 32) (bufA bufB : Nat)
    (mA mB : Mem) (fA fB gA gB : Frame) (rxA rxB : Nat) :
    ∃ request reply, (arpAttempts b.addr.ip 1 a).2.sent = a.sent ++ [request] ∧
      (receive rxB (request.bytes bufA mA fA) gB b).val.stack.sent = b.sent ++ [reply] ∧
      (arpLookup b.addr.ip (receive rxA (reply.bytes bufB mB fB) gA { a with now := now }).val.stack = some ethAddress ↔
        ∃ e ∈ a.arpTable, e.ha = ethAddress ∨ 0 < e.age now) := by
  refine ⟨.arp ethBcast arpOperRequest ethAddress a.addr.ip ethBcast b.addr.ip,
    .arp ethAddress arpOperReply ethAddress b.addr.ip ethAddress a.addr.ip, ?_, ?_, ?_⟩
  · have hmiss : arpTableGetHWAddr b.addr.ip a = none := by
      have h := arpLookup_eq b.addr.ip a
      rw [hnone] at h
      exact Option.map_eq_none_iff.1 h
    unfold arpAttempts
    rw [hmiss]
    rfl
  · unfold Sent.bytes
    rw [receive_arpEmit]
    unfold arpReaction
    rw [if_pos ⟨rfl, rfl⟩]
  · have hrep : ¬ (arpOperReply = arpOperRequest ∧ a.addr.ip = a.addr.ip) := fun h => absurd h.1 (by decide)
    unfold Sent.bytes
    rw [receive_arpEmit]
    unfold arpReaction
    rw [if_neg hrep, if_pos ⟨rfl, rfl, rfl⟩]
    exact arpLookup_arpUpdateTable hnone

/-- Against a table that was just reset, a moment after time zero. -/
theorem arp_exchange_reset :
    ∃ request reply, (arpAttempts 0xc0a83201 1 { idleStack with arpTable := emptyTable }).2.sent = [request] ∧
      (receive 4096 (request.bytes 0 (fun _ => 0) zeroFrame) zeroFrame
        { idleStack with addr := { IpConfig.default with ip := 0xc0a83201 } }).val.stack.sent = [reply] ∧
      arpLookup 0xc0a83201 (receive 4096 (reply.bytes 0 (fun _ => 0) zeroFrame) zeroFrame
        { idleStack with arpTable := emptyTable, now := 5 }).val.stack = some ethAddress := by
  obtain ⟨request, reply, hrequest, hreply, hfound⟩ := arp_exchange { idleStack with arpTable := emptyTable }
    { idleStack with addr := { IpConfig.default with ip := 0xc0a83201 } } (by decide) 5 0 0 (fun _ => 0) (fun _ => 0) zeroFrame
    zeroFrame zeroFrame zeroFrame 4096 4096
  exact ⟨request, reply, hrequest, hreply, hfound.2 ⟨⟨0, 0, 0⟩, by simp [emptyTable, arpTableSize], .inr (by decide)⟩⟩

/-! ## Echo -/

/-- What a stack does with an echo message from `src`. -/
def echoReaction (src : Ip) (type : UInt8) (id seqno : BitVec 16) (data : List UInt8) (s : Stack) : Stack :=
  if type = icmpEchoRequest then (icmpSendEcho src icmpEchoReply id seqno data s).2
  else if type = icmpEchoReply ∧ src = s.addr.ip ∧ s.echoId = id ∧ s.echoAckno ≠ 0 then { s with echoAckno := seqno }
  else s

/-- A message with these fields, `size` bytes long. -/
structure EchoFields (m : Mem) (icmp : Nat) (type : UInt8) (id seqno : BitVec 16) (data : List UInt8) : Prop where
  valid : icmpChecksumIsValid m icmp (data.length + 8)
  type : icmpType m icmp = type
  id : icmpEchoID m icmp = id
  seqno : icmpEchoSeqNo m icmp = seqno
  data : copyOut m (icmp + 8) data.length = data

theorem icmpEchoFields_fields (type : UInt8) (id seqno : BitVec 16) (data : List UInt8) (m : Mem) (icmp : Nat) :
    EchoFields (icmpEchoFields type id seqno data m icmp) icmp type id seqno data := by
  refine ⟨(icmp_detects _ (by omega)).1, ?_, ?_, ?_, ?_⟩
  · have hcopy (m : Mem) : copyIn m (icmp + 8) data icmp = m icmp := copyIn_of_ne m (.inl (by omega))
    simp (disch := omega) only [icmpEchoFields, icmpType, icmpChecksumSet, setChecksum, setBe16_of_ne, hcopy,
      setByte_of_ne, setByte_self]
  · have hcopy (m : Mem) : be16 (copyIn m (icmp + 8) data) (icmp + 4) = be16 m (icmp + 4) :=
      be16_copyIn_of_disjoint m (.inl (by omega))
    simp (disch := omega) only [icmpEchoFields, icmpEchoID, icmpChecksumSet, setChecksum, be16_setBe16_of_disjoint, hcopy,
      be16_setBe16_self]
  · have hcopy (m : Mem) : be16 (copyIn m (icmp + 8) data) (icmp + 6) = be16 m (icmp + 6) :=
      be16_copyIn_of_disjoint m (.inl (by omega))
    simp (disch := omega) only [icmpEchoFields, icmpEchoSeqNo, icmpChecksumSet, setChecksum, be16_setBe16_of_disjoint,
      hcopy, be16_setBe16_self]
  · unfold icmpEchoFields icmpChecksumSet setChecksum setBe16
    dsimp only
    rw [copyOut_copyIn_of_disjoint _ (.inr (by show icmp + 2 + 2 ≤ _; omega)),
      copyOut_copyIn_of_disjoint _ (.inr (by show icmp + 2 + 2 ≤ _; omega)), copyOut_copyIn_self]

theorem EchoFields.carried {m m' : Mem} {icmp icmp' : Nat} {type : UInt8} {id seqno : BitVec 16} {data : List UInt8}
    (h : EchoFields m icmp type id seqno data) (hc : Carried m icmp m' icmp' (data.length + 8)) :
    EchoFields m' icmp' type id seqno data := by
  refine ⟨?_, ?_, ?_, ?_, ?_⟩
  · have hbytes : copyOut m' icmp' (data.length + 8) = copyOut m icmp (data.length + 8) :=
      hc.copyOut (k := 0) (Nat.le_of_eq (Nat.zero_add _))
    unfold icmpChecksumIsValid
    rw [hbytes]
    exact h.valid
  · exact (hc.byte (k := 0) (by omega)).trans h.type
  · exact (hc.be16 (k := 4) (by omega)).trans h.id
  · exact (hc.be16 (k := 6) (by omega)).trans h.seqno
  · exact (hc.copyOut (k := 8) (by omega)).trans h.data

/-- What a datagram of ICMP does, where the transport pointer that was left over is on the message. -/
theorem transportInput_icmp {f : Frame} {s : Stack} {type : UInt8} {id seqno : BitVec 16} {data : List UInt8}
    (h : ipProtocol s.mem f.ptr = protocolIcmp) (ht : f.transport = f.ptr + ipHdrLen s.mem f.ptr)
    (hsize : (ipPldLen s.mem f.ptr).toNat = data.length + 8)
    (hfields : EchoFields s.mem f.transport type id seqno data) :
    (transportInput (ipFrame s.mem f) s).stack = echoReaction (ipSrcAddr s.mem f.ptr) type id seqno data s := by
  have hne : icmpEchoReply ≠ icmpEchoRequest := by decide
  have hsum : ¬ ~~~ checksum 0 (copyOut s.mem f.transport (ipPldLen s.mem f.ptr).toNat) ≠ 0 := by
    rw [hsize]
    exact not_not.2 hfields.valid
  have hdata : (ipPldLen s.mem f.ptr - 4 - 4).toNat = data.length := by bv_omega
  have hr : (transportInput (ipFrame s.mem f) s).stack =
      (icmpInput (ipFrame s.mem f) s).val.stack := congrArg Result.stack (if_pos h)
  rw [hr]
  simp only [icmpInput, icmpProcessEchoRequest, icmpProcessEchoResponse, range, field, minus, val_bind, val_ite, val_pure,
    ipFrame]
  rw [if_neg hsum, hfields.type, ← ht, hdata, hfields.id, hfields.seqno, hfields.data]
  unfold echoReaction
  by_cases hreq : type = icmpEchoRequest
  · rw [if_pos hreq, if_pos hreq]
  rw [if_neg hreq, if_neg hreq]
  by_cases hrep : type = icmpEchoReply
  · rw [if_pos hrep]
    by_cases hours : s.addr.IsMatchingUnicast (ipSrcAddr s.mem f.ptr) ∧ s.echoId = id ∧ s.echoAckno ≠ 0
    · have hyes : type = icmpEchoReply ∧ ipSrcAddr s.mem f.ptr = s.addr.ip ∧ s.echoId = id ∧ s.echoAckno ≠ 0 :=
        ⟨hrep, hours⟩
      rw [if_pos hours, if_pos hyes]
    · have hno : ¬ (type = icmpEchoReply ∧ ipSrcAddr s.mem f.ptr = s.addr.ip ∧ s.echoId = id ∧ s.echoAckno ≠ 0) :=
        fun hc => hours hc.2
      rw [if_neg hours, if_neg hno]
  · rw [if_neg hrep, if_neg fun hc => hrep hc.1]

end YieldStm32.TCPIP
