import Mathlib.Data.BitVec
import YieldStm32.Net.Input

/-!
# The link-layer destination (`TCPIPIp_Send`)

The hardware address that a datagram goes to, for a task that sleeps in `TCPIPArp_GetHWAddr` while the other tasks run.

* `ipDestination` : the address selected;
* `IpConfig.Destined` : what a host on an Ethernet selects;
* `IpConfig.Selects` : the destinations for which the two agree, `sendsTo_iff`.

`TCPIPIpAddr_IsMatchingBroadcast` compares the network part of the destination with the whole own address, and a group
address gives 24 bits to its hardware address.
-/

namespace YieldStm32.TCPIP

/-! ## The selection -/

/-- The loop of `TCPIPArp_GetHWAddr`; `others i` is what the other tasks do during the sleep before the last `i` attempts. -/
def arpPoll (others : Nat → Stack → Stack) (pa : Ip) : Nat → Stack → Option Mac × Stack
  | 0, s => (none, s)
  | n + 1, s =>
    match arpTableGetHWAddr pa s with
    | some (ha, s) => (some ha, s)
    | none =>
      arpPoll others pa n
        (others n { s with sent := s.sent ++ [.arp ethBcast arpOperRequest ethAddress s.addr.ip ethBcast pa] })

/-- `TCPIPArp_GetHWAddr` -/
def arpObtain (others : Nat → Stack → Stack) (pa : Ip) (s : Stack) : Option Mac × Stack :=
  if pa = ipAny ∨ s.addr.IsMatchingBroadcast pa then (some ethBcast, s) else arpPoll others pa 5 s

/-- `eth_da` of `TCPIPIp_Send` -/
def ipDestination (others : Nat → Stack → Stack) (dst : Ip) (s : Stack) : Option Mac × Stack :=
  if s.addr.IsMatchingBroadcast dst then (some ethBcast, s)
  else if IsMatchingMulticast dst then (some (0x01005e#24 ++ dst.truncate 24), s)
  else arpObtain others (if s.addr.IsWithinSubnet dst then dst else s.addr.gway) s

theorem arpPoll_id (pa : Ip) (n : Nat) (s : Stack) : arpPoll (fun _ s => s) pa n s = arpAttempts pa n s := by
  induction n generalizing s with
  | zero => rfl
  | succ n ih =>
      rw [arpPoll, arpAttempts]
      cases arpTableGetHWAddr pa s with
      | none => exact ih _
      | some found => rfl

/-- The task that receives changes nothing while it sleeps. -/
theorem ipDestination_id (dst : Ip) (s : Stack) : ipDestination (fun _ s => s) dst s = ipResolve dst s := by
  unfold ipDestination ipResolve arpObtain arpGetHWAddr
  rw [arpPoll_id]

/-! ## The addresses of a network -/

/-- The directed broadcast address of the own subnet: its network part, and ones behind it. -/
def IpConfig.directed (c : IpConfig) : Ip := c.ip &&& c.mask ||| ~~~ c.mask

/-- 224.0.0.0/4 -/
def IsGroup (a : Ip) : Prop := a >>> 28 = 0xe

instance (a : Ip) : Decidable (IsGroup a) := inferInstanceAs (Decidable (_ = _))

/-- 01:00:5e, a zero bit, and the low 23 bits of the group's address. -/
def groupMac (a : Ip) : Mac := 0x01005e#24 ++ BitVec.cons false (a.truncate 23)

/-- What the destination selects, with ARP for the hosts of the own subnet and for the gateway. -/
def IpConfig.Destined (c : IpConfig) (arp : Ip → Stack → Option Mac × Stack) (dst : Ip) (s : Stack) :
    Option Mac × Stack :=
  if dst = 0xffffffff ∨ dst = c.directed then (some ethBcast, s)
  else if IsGroup dst then (some (groupMac dst), s)
  else arp (if dst &&& c.mask = c.ip &&& c.mask then dst else c.gway) s

/-- Every datagram to `dst` goes where it is destined, from any state of the stack with these own addresses, and whatever
the other tasks do meanwhile. -/
def IpConfig.SendsTo (c : IpConfig) (dst : Ip) : Prop :=
  ∀ others s, s.addr = c → ipDestination others dst s = c.Destined (arpObtain others) dst s

/-- The own address is its network part when the directed broadcast is sent to, and the highest of the 24 bits that are
taken of a group's address is zero. -/
structure IpConfig.Selects (c : IpConfig) (dst : Ip) : Prop where
  network : dst = c.directed → dst ≠ 0xffffffff → c.ip &&& c.mask = c.ip
  group : IsGroup dst → dst ≠ 0xffffffff → dst ≠ c.directed → dst.getLsbD 23 = false

theorem and_or_not_and {w : Nat} (a m : BitVec w) : (a &&& m ||| ~~~ m) &&& m = a &&& m := by
  ext i hi
  simp only [BitVec.getElem_or, BitVec.getElem_and, BitVec.getElem_not]
  cases a[i] <;> cases m[i] <;> rfl

theorem and_or_not_and_not {w : Nat} (a m : BitVec w) : (a &&& m ||| ~~~ m) &&& ~~~ m = ~~~ m := by
  ext i hi
  simp only [BitVec.getElem_or, BitVec.getElem_and, BitVec.getElem_not]
  cases a[i] <;> cases m[i] <;> rfl

theorem and_or_and_not {w : Nat} (a m : BitVec w) : a &&& m ||| a &&& ~~~ m = a := by
  ext i hi
  simp only [BitVec.getElem_or, BitVec.getElem_and, BitVec.getElem_not]
  cases a[i] <;> cases m[i] <;> rfl

/-- Only an own address that ends in zeros has its subnet's directed broadcast recognised. -/
theorem IpConfig.isMatchingBroadcast_iff (c : IpConfig) (a : Ip) :
    c.IsMatchingBroadcast a ↔ a = 0xffffffff ∨ c.ip &&& c.mask = c.ip ∧ a = c.directed := by
  refine or_congr Iff.rfl ⟨?_, ?_⟩
  · rintro ⟨hnet, hhost⟩
    have hmasked : c.ip &&& c.mask = c.ip := by
      rw [← hnet, BitVec.and_assoc, BitVec.and_self]
    refine ⟨hmasked, ?_⟩
    rw [directed, hmasked, ← hnet, ← hhost, and_or_and_not]
  · rintro ⟨hmasked, rfl⟩
    exact ⟨(and_or_not_and c.ip c.mask).trans hmasked, and_or_not_and_not c.ip c.mask⟩

theorem isMatchingMulticast_iff (a : Ip) : IsMatchingMulticast a ↔ IsGroup a := by
  unfold IsMatchingMulticast IsGroup
  rw [← BitVec.toNat_inj, BitVec.le_def, BitVec.le_def, BitVec.toNat_ushiftRight, Nat.shiftRight_eq_div_pow]
  have hlow : (0xe0000000 : Ip).toNat = 3758096384 := rfl
  have hhigh : (0xefffffff : Ip).toNat = 4026531839 := rfl
  have hclass : (0xe : Ip).toNat = 14 := rfl
  omega

/-- 24 bits of the group's address are 23 where the one above them is zero. -/
theorem append_truncate_eq_groupMac_iff (a : Ip) : 0x01005e#24 ++ a.truncate 24 = groupMac a ↔ a.getLsbD 23 = false := by
  have hsucc : a.truncate 24 = BitVec.cons (a.getLsbD 23) (a.truncate 23) := BitVec.setWidth_succ a
  rw [groupMac, BitVec.append_right_inj, hsucc]
  constructor
  · intro h
    have hmsb := congrArg BitVec.msb h
    rwa [BitVec.msb_cons, BitVec.msb_cons] at hmsb
  · intro h
    rw [h]

/-! ## What is sent where -/

/-- No address is known, and none comes in. -/
theorem arpPoll_of_empty (pa : Ip) (n : Nat) {s : Stack} (hs : s.arpTable = []) :
    (arpPoll (fun _ s => s) pa n s).1 = none := by
  induction n generalizing s with
  | zero => rfl
  | succ n ih =>
      have hnone : arpTableGetHWAddr pa s = none := by
        rw [arpTableGetHWAddr, hs]
        rfl
      rw [arpPoll, hnone]
      exact ih hs

/-- A directed broadcast that is not recognised is not a broadcast: not to a group, and not through ARP. -/
theorem ipDestination_ne_of_directed {c : IpConfig} (hne : c.directed ≠ 0xffffffff) (hip : c.ip &&& c.mask ≠ c.ip) :
    (ipDestination (fun _ s => s) c.directed { idleStack with addr := c }).1 ≠ some ethBcast := by
  have hbcast : ¬ c.IsMatchingBroadcast c.directed := by
    rw [IpConfig.isMatchingBroadcast_iff]
    exact fun h => h.elim hne fun h => hip h.1
  rw [ipDestination, if_neg hbcast]
  by_cases hmulti : IsMatchingMulticast c.directed
  · rw [if_pos hmulti]
    intro h
    have hhigh := congrArg (BitVec.extractLsb' 24 24) (Option.some.inj h)
    rw [BitVec.extractLsb'_append_eq_left] at hhigh
    exact absurd hhigh (by decide)
  · have hwithin : c.IsWithinSubnet c.directed := and_or_not_and c.ip c.mask
    have hany : c.directed ≠ ipAny := by
      intro h
      -- no host bits, so the mask is all ones, and the own address its network part
      have hmask : ~~~ c.mask = 0 := by
        rw [← and_or_not_and_not c.ip c.mask]
        exact (congrArg (· &&& ~~~ c.mask) h).trans BitVec.zero_and
      have hones : c.mask = BitVec.allOnes 32 := by
        rw [← BitVec.not_not (b := c.mask), hmask]
        rfl
      exact hip (by rw [hones, BitVec.and_allOnes])
    rw [if_neg hmulti, if_pos hwithin, arpObtain, if_neg (not_or.2 ⟨hany, hbcast⟩), arpPoll_of_empty _ _ rfl]
    exact fun h => nomatch h

theorem IpConfig.sendsTo_iff (c : IpConfig) (dst : Ip) : c.SendsTo dst ↔ c.Selects dst := by
  constructor
  · intro h
    have hidle := h (fun _ s => s) { idleStack with addr := c } rfl
    refine ⟨?_, fun hgroup hones hdirected => ?_⟩
    · rintro rfl hones
      by_contra hip
      apply ipDestination_ne_of_directed hones hip
      rw [hidle, Destined, if_pos (Or.inr rfl)]
    · have hbcast : ¬ c.IsMatchingBroadcast dst := by
        rw [isMatchingBroadcast_iff]
        exact fun h => h.elim hones fun h => hdirected h.2
      rw [ipDestination, if_neg hbcast, if_pos ((isMatchingMulticast_iff dst).2 hgroup), Destined,
        if_neg (not_or.2 ⟨hones, hdirected⟩), if_pos hgroup] at hidle
      exact (append_truncate_eq_groupMac_iff dst).1 (Option.some.inj (congrArg Prod.fst hidle))
  · rintro ⟨hnetwork, hgroup⟩ others s rfl
    by_cases hbcast : dst = 0xffffffff ∨ dst = s.addr.directed
    · have hmatch : s.addr.IsMatchingBroadcast dst := by
        rw [isMatchingBroadcast_iff]
        by_cases hones : dst = 0xffffffff
        · exact Or.inl hones
        · exact Or.inr ⟨hnetwork (hbcast.resolve_left hones) hones, hbcast.resolve_left hones⟩
      rw [ipDestination, if_pos hmatch, Destined, if_pos hbcast]
    · have hmatch : ¬ s.addr.IsMatchingBroadcast dst := by
        rw [isMatchingBroadcast_iff]
        exact fun h => hbcast (h.imp_right And.right)
      rw [ipDestination, if_neg hmatch, Destined, if_neg hbcast]
      by_cases hg : IsGroup dst
      · have hmac := (append_truncate_eq_groupMac_iff dst).2
          (hgroup hg (fun h => hbcast (Or.inl h)) fun h => hbcast (Or.inr h))
        rw [if_pos ((isMatchingMulticast_iff dst).2 hg), if_pos hg, hmac]
      · rw [if_neg fun h => hg ((isMatchingMulticast_iff dst).1 h), if_neg hg]
        rfl

/-- The default addresses are 192.168.50.124/24, and 192.168.50.255 is asked for by ARP. -/
theorem not_sendsTo_directed :
    IpConfig.default.directed = 0xc0a832ff ∧ ¬ IpConfig.default.SendsTo 0xc0a832ff := by
  refine ⟨by decide, fun h => ?_⟩
  have hidle := congrArg Prod.fst (h (fun _ s => s) idleStack rfl)
  exact absurd hidle (by decide)

end YieldStm32.TCPIP
