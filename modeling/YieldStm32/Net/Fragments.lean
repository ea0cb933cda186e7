import YieldStm32.Net.Input

/-!
# Fragments of datagrams (`ip.c`)

A datagram is a fragment where its "more fragments" bit or its offset says so. `TCPIPIp_Input` looks for them with masks that
are those of other bits.

* `ipInputTo` : `TCPIPIp_Input`, whatever the layers above it do; `ipHanded` : its call of one of them;
* `HandsWhole` : fragments are not handed on, and all other datagrams for this host are;
* `handsWhole_iff` : exactly when that is so.
-/

namespace YieldStm32.TCPIP

open Traced

/-- A layer above. -/
inductive Upper where
  | icmp
  | tcp
  | udp

def Upper.protocol : Upper → UInt8
  | .icmp => protocolIcmp
  | .tcp => protocolTcp
  | .udp => protocolUdp

/-- `TCPIPIcmp_Input`, `TCPIPTcp_Input`, `TCPIPUdp_Input` -/
def Upper.input : Upper → Frame → Stack → Traced Access Result
  | .icmp => icmpInput
  | .tcp => tcpInput
  | .udp => udpInput

/-- `TCPIPIp_Input`, with `hand` for its calls of the layers above; without such a call it leaves with `leave`. -/
def ipInputTo {ρ : Type} (hand : Upper → Frame → Stack → Traced Access ρ) (leave : Err → Frame → Stack → ρ) (f : Frame)
    (s : Stack) : Traced Access ρ := do
  let ip := f.ptr
  let f := { f with inet := f.ptr }
  let sum ← ipChecksumCompute s.mem ip
  if sum ≠ 0 then pure (leave .efatal f s)
  else do
    let hdrLen ← field ip 1 (ipHdrLen s.mem ip)
    let length ← field (ip + 2) 2 (ipLength s.mem ip)
    let pldLen ← minus (length.zeroExtend 32) (BitVec.ofNat 32 hdrLen)
    let da ← field (ip + 16) 4 (ipDstAddr s.mem ip)
    if ¬ s.addr.Addressed da then pure (leave .eok f s)
    else do
      let flags ← field (ip + 6) 2 (ipFlags s.mem ip)
      let foffs ← field (ip + 6) 2 (ipFragmentOffset s.mem ip)
      if flags &&& 0x8000 ≠ 0 ∨ foffs ≠ 0 then pure (leave .eok f s)
      else do
        let f := { f with size := pldLen, ptr := f.ptr + hdrLen }
        let protocol ← field (ip + 9) 1 (ipProtocol s.mem ip)
        if protocol = protocolIcmp then hand .icmp f s
        else if protocol = protocolTcp then hand .tcp f s
        else if protocol = protocolUdp then hand .udp f s
        else pure (leave .eunkprot f s)

/-- With the layers as they are. -/
theorem ipInput_eq (f : Frame) (s : Stack) : ipInput f s = ipInputTo Upper.input Result.mk f s := rfl

/-- The layer that is called, if one is, and the descriptor it is called with. -/
def ipHanded (f : Frame) (s : Stack) : Option (Upper × Frame) :=
  (ipInputTo (fun u f _ => pure (some (u, f))) (fun _ _ _ => none) f s).val

/-- The layer of a protocol. -/
def upper (protocol : UInt8) : Option Upper :=
  if protocol = protocolIcmp then some .icmp
  else if protocol = protocolTcp then some .tcp
  else if protocol = protocolUdp then some .udp
  else none

theorem upper_protocol (u : Upper) : upper u.protocol = some u := by
  cases u <;> rfl

theorem protocol_of_upper {protocol : UInt8} {u : Upper} (h : upper protocol = some u) : protocol = u.protocol := by
  unfold upper at h
  split at h
  · cases h
    assumption
  · split at h
    · cases h
      assumption
    · split at h
      · cases h
        assumption
      · cases h

theorem ipHanded_eq (f : Frame) (s : Stack) :
    ipHanded f s =
      if s.addr.Accepts s.mem f.ptr then (upper (ipProtocol s.mem f.ptr)).map fun u => (u, ipFrame s.mem f) else none := by
  unfold ipHanded ipInputTo ipChecksumCompute field range minus
  simp only [val_bind, val_pure, val_ite]
  by_cases hvalid : ipChecksumIsValid s.mem f.ptr
  case neg =>
    have hno : ¬ s.addr.Accepts s.mem f.ptr := fun h => hvalid h.1
    rw [if_neg hno]
    exact if_pos hvalid
  have hsum : ¬ ~~~ checksum 0 (Ring.copyOut s.mem f.ptr (ipHdrLen s.mem f.ptr)) ≠ 0 := not_not.2 hvalid
  rw [if_neg hsum]
  by_cases haddr : s.addr.Addressed (ipDstAddr s.mem f.ptr)
  case neg =>
    have hno : ¬ s.addr.Accepts s.mem f.ptr := fun h => haddr h.2.1
    rw [if_neg hno, if_pos haddr]
  rw [if_neg (not_not.2 haddr)]
  by_cases hmasks : ipFlags s.mem f.ptr &&& 0x8000 ≠ 0 ∨ ipFragmentOffset s.mem f.ptr ≠ 0
  case pos =>
    have hno : ¬ s.addr.Accepts s.mem f.ptr := fun h => h.2.2 hmasks
    rw [if_neg hno, if_pos hmasks]
  have hyes : s.addr.Accepts s.mem f.ptr := ⟨hvalid, haddr, hmasks⟩
  rw [if_neg hmasks, if_pos hyes]
  unfold upper
  split
  · rfl
  · split
    · rfl
    · split <;> rfl

/-! ## Fragments -/

/-- The bits of the protocol: "more fragments", and an offset of 13 bits. -/
def IsFragment (m : Mem) (ip : Nat) : Prop :=
  ipFlagsFragmentOffset m ip &&& 0x2000 ≠ 0 ∨ ipFlagsFragmentOffset m ip &&& 0x1FFF ≠ 0

/-- A fragment is handed to no layer, and any other datagram for this host to the layer of its protocol. -/
def HandsWhole (f : Frame) (s : Stack) : Prop :=
  (IsFragment s.mem f.ptr → ipHanded f s = none) ∧
    (¬ IsFragment s.mem f.ptr → ipChecksumIsValid s.mem f.ptr → s.addr.Addressed (ipDstAddr s.mem f.ptr) →
      ∀ u : Upper, ipProtocol s.mem f.ptr = u.protocol → ipHanded f s = some (u, ipFrame s.mem f))

/-- For a datagram that may be handed on, the bits that are looked at say what those of the protocol do. -/
def MasksAgree (f : Frame) (s : Stack) : Prop :=
  ipChecksumIsValid s.mem f.ptr → s.addr.Addressed (ipDstAddr s.mem f.ptr) →
    ∀ u : Upper, ipProtocol s.mem f.ptr = u.protocol →
      (ipFlagsFragmentOffset s.mem f.ptr &&& 0x83FF = 0 ↔ ipFlagsFragmentOffset s.mem f.ptr &&& 0x3FFF = 0)

/-- A mask in two parts. -/
theorem and_or_eq_zero_iff (x a b : BitVec 16) : x &&& (a ||| b) = 0 ↔ x &&& a = 0 ∧ x &&& b = 0 := by
  rw [BitVec.and_or_distrib_left]
  exact BitVec.or_eq_zero_iff

theorem not_isFragment_iff (m : Mem) (ip : Nat) : ¬ IsFragment m ip ↔ ipFlagsFragmentOffset m ip &&& 0x3FFF = 0 := by
  rw [show (0x3FFF : BitVec 16) = 0x2000 ||| 0x1FFF by decide, and_or_eq_zero_iff, IsFragment, not_or, not_not, not_not]

theorem passes_iff (c : IpConfig) (m : Mem) (ip : Nat) :
    c.Passes m ip ↔ c.Addressed (ipDstAddr m ip) ∧ ipFlagsFragmentOffset m ip &&& 0x83FF = 0 := by
  have hflags : ipFlags m ip &&& 0x8000 = ipFlagsFragmentOffset m ip &&& 0x8000 :=
    BitVec.and_assoc (ipFlagsFragmentOffset m ip) 0xC000 0x8000
  rw [show (0x83FF : BitVec 16) = 0x8000 ||| 0x03FF by decide, and_or_eq_zero_iff, IpConfig.Passes, not_or, not_not, not_not,
    hflags]
  rfl

/-- **Fragments are kept from the layers above, and nothing else is**, exactly where the masks agree. -/
theorem handsWhole_iff (f : Frame) (s : Stack) : HandsWhole f s ↔ MasksAgree f s := by
  have hhanded := ipHanded_eq f s
  constructor
  · intro h hvalid haddr u hu
    rw [hu, upper_protocol] at hhanded
    rw [← not_isFragment_iff]
    constructor
    · intro hpass hfragment
      rw [if_pos ⟨hvalid, (passes_iff _ _ _).2 ⟨haddr, hpass⟩⟩] at hhanded
      exact Option.some_ne_none _ (hhanded.symm.trans (h.1 hfragment))
    · intro hwhole
      by_contra hpass
      rw [if_neg fun haccepts => hpass ((passes_iff _ _ _).1 haccepts.2).2] at hhanded
      exact Option.some_ne_none _ ((h.2 hwhole hvalid haddr u hu).symm.trans hhanded)
  · intro h
    refine ⟨fun hfragment => ?_, fun hwhole hvalid haddr u hu => ?_⟩
    · by_cases haccepts : s.addr.Accepts s.mem f.ptr
      · obtain ⟨haddr, hpass⟩ := (passes_iff _ _ _).1 haccepts.2
        rw [if_pos haccepts] at hhanded
        cases hupper : upper (ipProtocol s.mem f.ptr) with
        | none => rw [hhanded, hupper, Option.map_none]
        | some u =>
            have hwhole := (h haccepts.1 haddr u (protocol_of_upper hupper)).1 hpass
            exact absurd hfragment ((not_isFragment_iff _ _).2 hwhole)
      · rwa [if_neg haccepts] at hhanded
    · have hpass := (h hvalid haddr u hu).2 ((not_isFragment_iff _ _).1 hwhole)
      rw [if_pos ⟨hvalid, (passes_iff _ _ _).2 ⟨haddr, hpass⟩⟩, hu, upper_protocol] at hhanded
      exact hhanded

/-- The first fragment of a UDP datagram: 28 bytes, "more fragments". -/
def firstFragment : Stack :=
  { idleStack with
    mem := fun i => [0x45, 0, 0, 28, 0, 0, 0x20, 0, 64, 17, 117, 3, 192, 168, 50, 1, 192, 168, 50, 124].getD i 0 }

theorem not_handsWhole_first : ¬ HandsWhole zeroFrame firstFragment := fun h => by
  have hnone := h.1 (.inl (by decide))
  rw [ipHanded_eq, if_pos (by decide)] at hnone
  cases hnone

end YieldStm32.TCPIP
