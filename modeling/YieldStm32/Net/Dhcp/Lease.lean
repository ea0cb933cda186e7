import YieldStm32.Lib.Run
import YieldStm32.Net.Dhcp.Server

/-!
# Leases over a run of the DHCP server

The server handles one message after another; `time(0)` is the low 32 bits of a clock that never goes back. Ghost state:
the ACKs sent since the last reset.

* `Settled` : every record is blank or holds the second address of the range, which is what the scan stores;
* `processDiscover_eq` : a DISCOVER overwrites its target record with that address;
* `leases_unique_iff` : leases stay unique exactly as long as no DISCOVER is answered beside another client's record.
-/

namespace YieldStm32.DHCPSrv

open Transition

/-! ## The lookups -/

/-- A lookup by address leaves the book alone and returns the first match. -/
theorem findRecord_addr (now : BitVec 32) {ha : Option Mac} {ip : Option Ip} (h : ¬ (ha = none ∧ ip = none))
    (recs : List Record) :
    findRecord now ha ip recs =
      (recs.findIdx? fun r => (ha = none ∨ ha = some r.mac) ∧ (ip = none ∨ ip = some r.ip), recs) := by
  induction recs with
  | nil => rfl
  | cons r rs ih =>
      rw [findRecord, if_neg h, ih, List.findIdx?_cons]
      split <;> simp_all

/-- A record that the search for an empty one stops at. -/
def Record.vacant (now : BitVec 32) (r : Record) : Bool := r.state = .free || r.old now

/-- The search for an empty record stops at the first vacant one and frees it. -/
theorem findRecord_vacant (now : BitVec 32) (recs : List Record) :
    findRecord now none none recs =
      match recs.findIdx? (Record.vacant now) with
      | none => (none, recs)
      | some i => (some i, recs.modify i fun r => { r with state := .free }) := by
  induction recs with
  | nil => rfl
  | cons r rs ih =>
      rw [findRecord, if_pos ⟨rfl, rfl⟩, ih, List.findIdx?_cons]
      by_cases hold : r.old now = true
      · simp [Record.vacant, hold]
      · by_cases hfree : r.state = .free
        · have hr : { r with state := .free } = r := by rw [← hfree]
          simp [Record.vacant, hold, hfree, hr]
        · cases hrest : rs.findIdx? (Record.vacant now) <;> simp [Record.vacant, hold, hfree]

/-! ## What a message does to the book -/

/-- The address the scan ends at in every reachable book. -/
def leaseIp : Ip := nextIp ipRangeStart

/-- Every record is blank or holds `leaseIp`. -/
def Settled (recs : List Record) : Prop := ∀ r ∈ recs, (r.mac = 0 ∧ r.ip = 0) ∨ r.ip = leaseIp

/-- The start of the range is never recorded: the scan stops there, and stores the address after it. -/
theorem scan_eq {recs : List Record} (h : Settled recs) (now : BitVec 32) :
    scan now recs (ipRangeEnd - ipRangeStart).toNat ipRangeStart = some leaseIp := by
  have hnone : (findRecord now none (some ipRangeStart) recs).1 = none := by
    rw [findRecord_addr now (by simp)]
    refine List.findIdx?_eq_none_iff.2 fun r hr => decide_eq_false fun hip => ?_
    have hstart : ipRangeStart = r.ip := by simpa using hip.2
    rcases h r hr with ⟨-, h0⟩ | h1
    · exact absurd (hstart.trans h0) (by decide)
    · exact absurd (hstart.trans h1) (by decide)
  rw [show (ipRangeEnd - ipRangeStart).toNat = 9 + 1 by decide, scan, if_neg (by decide), if_pos hnone, leaseIp]

/-- The record reserved for a MAC: the first one with it, else the first vacant one. -/
def target (now : BitVec 32) (hw : Mac) (recs : List Record) : Option Nat :=
  (recs.findIdx? fun r => r.mac = hw).or (recs.findIdx? (Record.vacant now))

/-- The record an accepted DISCOVER fills and the client it is for. -/
def Msg.target (now : BitVec 32) (m : Msg) (recs : List Record) : Option (Nat × Mac) :=
  if m.xid = 0 then none else m.ch.bind fun ch => (DHCPSrv.target now ch recs).map fun i => (i, ch)

theorem findRecord_mac (now : BitVec 32) (hw : Mac) (recs : List Record) :
    findRecord now (some hw) none recs = (recs.findIdx? fun r => r.mac = hw, recs) := by
  rw [findRecord_addr now (by simp)]
  simp [eq_comm]

theorem modify_at {recs : List Record} {i : Nat} {r : Record} (h : recs[i]? = some r) (f : Record → Record) :
    recs.modify i f = recs.set i (f r) := by
  rw [List.modify_eq_set_getElem?, h]
  rfl

theorem fill_eq {recs : List Record} (h : Settled recs) (now : BitVec 32) (hw : Mac) (i : Nat) :
    reserveAddress.fill now hw (some i, recs) =
      (some (i, leaseIp), recs.modify i fun r => { r with ip := leaseIp, mac := hw }) := by
  rw [reserveAddress.fill, scan_eq h]

/-- Without a record for the MAC the reservation goes on with an empty one. -/
theorem reserveAddress_new {recs : List Record} {hw : Mac} (h : (recs.findIdx? fun r => r.mac = hw) = none)
    (now : BitVec 32) :
    reserveAddress now hw recs = reserveAddress.fill now hw (findRecord now none none recs) := by
  simp only [reserveAddress, recordFor, findRecord_mac, h, Option.bind_none]

/-- A reservation fails where there is no target. -/
theorem reserveAddress_none {recs : List Record} {now : BitVec 32} {hw : Mac} (h : target now hw recs = none) :
    reserveAddress now hw recs = (none, recs) := by
  obtain ⟨hmac, hvac⟩ := Option.or_eq_none_iff.1 h
  rw [reserveAddress_new hmac, findRecord_vacant, hvac]
  rfl

/-- A reservation gives the target `leaseIp`; the update in `DHCPSrv_ProcessDiscover` completes the record. -/
theorem reserveAddress_some {recs : List Record} {now : BitVec 32} {hw : Mac} {i : Nat} (h : Settled recs)
    (ht : target now hw recs = some i) :
    ∃ recs', reserveAddress now hw recs = (some (i, leaseIp), recs') ∧
      (recs'.modify i fun r => { r with ts := now, state := .offer }) = recs.set i ⟨.offer, now, hw, leaseIp⟩ := by
  rcases Option.or_eq_some_iff.1 ht with hmac | ⟨hmac, hvac⟩
  · obtain ⟨hi, hmaci, -⟩ := List.findIdx?_eq_some_iff_getElem.1 hmac
    have hget : recs[i]? = some recs[i] := List.getElem?_eq_getElem hi
    simp only [reserveAddress, recordFor, findRecord_mac, hmac, Option.bind_some, hget, Option.map_some]
    by_cases hip : recs[i].ip = 0
    · -- a blank record answers to the MAC 0
      rw [if_neg (not_not.2 hip), fill_eq h]
      refine ⟨_, rfl, ?_⟩
      rw [List.modify_modify_eq, modify_at hget]
      rfl
    · have hlease : recs[i].ip = leaseIp := (h _ (List.getElem_mem hi)).resolve_left fun h0 => hip h0.2
      rw [if_pos hip, hlease]
      refine ⟨recs, rfl, ?_⟩
      rw [modify_at hget, hlease, of_decide_eq_true hmaci]
  · obtain ⟨hi, -⟩ := List.findIdx?_eq_some_iff_getElem.1 hvac
    have hget : recs[i]? = some recs[i] := List.getElem?_eq_getElem hi
    have hfreed : Settled (recs.modify i fun r => { r with state := .free }) := by
      rw [modify_at hget]
      intro r hr
      rcases List.mem_or_eq_of_mem_set hr with hr | rfl
      · exact h r hr
      · exact h recs[i] (List.getElem_mem hi)
    rw [reserveAddress_new hmac, findRecord_vacant, hvac]
    refine ⟨_, fill_eq hfreed now hw i, ?_⟩
    rw [List.modify_modify_eq, List.modify_modify_eq, modify_at hget]
    rfl

/-- **A DISCOVER** that is accepted overwrites its target with an offer of `leaseIp`. -/
theorem processDiscover_eq {recs : List Record} (h : Settled recs) (now : BitVec 32) (m : Msg) :
    (processDiscover now m recs).2 =
      match m.target now recs with
      | none => recs
      | some (i, ch) => recs.set i ⟨.offer, now, ch, leaseIp⟩ := by
  unfold processDiscover Msg.target
  cases m.ch with
  | none => simp
  | some ch =>
      by_cases hx : m.xid = 0
      · simp [hx]
      · rw [if_neg hx, Option.bind_some]
        simp only [if_neg hx]
        cases ht : target now ch recs with
        | none => rw [reserveAddress_none ht, Option.map_none]
        | some i =>
            obtain ⟨recs', hres, hset⟩ := reserveAddress_some h ht
            rw [hres, Option.map_some]
            exact hset

theorem processRequest_cases (now : BitVec 32) (m : Msg) (sent : Sent) (recs : List Record) :
    (∃ reply, processRequest now m sent recs = (reply, recs) ∧ ∀ yi ch lease, reply ≠ some (.ack yi ch lease)) ∨
      ∃ i r, recs[i]? = some r ∧ r.state ≠ .free ∧ sent ≠ .failed ∧
        processRequest now m sent recs = (some (.ack r.ip r.mac (15 * 60)),
          (if sent = .okAfterReset then reset recs else recs).modify i
            fun r => { r with state := .assigned, ts := now }) := by
  unfold processRequest
  split
  case h_2 => exact Or.inl ⟨none, rfl, fun _ _ _ => nofun⟩
  case h_1 ch reqAddr _ _ =>
    split
    · exact Or.inl ⟨none, rfl, fun _ _ _ => nofun⟩
    · rw [findRecord_addr now (by simp)]
      split
      · exact Or.inl ⟨_, rfl, fun _ _ _ => nofun⟩
      · rename_i i r hfind
        obtain ⟨j, hj, hget⟩ := Option.bind_eq_some_iff.1 hfind
        obtain ⟨r', hr, heq⟩ := Option.map_eq_some_iff.1 hget
        obtain ⟨rfl, rfl⟩ := Prod.mk.inj heq
        obtain ⟨hlt, hmatch, -⟩ := List.findIdx?_eq_some_iff_getElem.1 hj
        have hmac : r'.mac = ch := by
          rw [← (List.getElem?_eq_some_iff.1 hr).2]
          simpa [eq_comm] using (of_decide_eq_true hmatch).1
        split
        · rename_i hst
          have hnfree : r'.state ≠ .free := by
            intro hfree
            simp [hfree] at hst
          subst hmac
          cases sent with
          | failed => exact Or.inl ⟨none, rfl, fun _ _ _ => nofun⟩
          | ok => exact Or.inr ⟨j, r', hr, hnfree, nofun, rfl⟩
          | okAfterReset => exact Or.inr ⟨j, r', hr, hnfree, nofun, rfl⟩
        · exact Or.inl ⟨_, rfl, fun _ _ _ => nofun⟩

/-! ## Runs -/

/-- An ACK sent at `time` (ms) with a lease time in seconds. -/
structure Ack where
  mac : Mac
  ip : Ip
  time : Nat
  lease : Nat
deriving DecidableEq, Repr

/-- The server: the time since start in milliseconds, the record book, and the ACKs since the last reset, newest
first. -/
structure Srv where
  clock : Nat
  recs : List Record
  acks : List Ack
deriving DecidableEq, Repr

inductive Event where
  | discover (dt : Nat) (m : Msg)
  | request (dt : Nat) (m : Msg) (sent : Sent)
  | reset
deriving DecidableEq, Repr

/-- The ACKs after a reply. A reset that ran while the ACK was sent comes after it. -/
def noteAck (clock : Nat) (sent : Sent) (acks : List Ack) : Option Reply → List Ack
  | some (.ack yi ch lease) => if sent = .okAfterReset then [] else ⟨ch, yi, clock, lease⟩ :: acks
  | _ => acks

/-- `dt` milliseconds pass, and the message is processed. -/
def step (s : Srv) : Event → Option Srv
  | .discover dt m =>
    let clock := s.clock + dt
    some { s with clock := clock, recs := (processDiscover (BitVec.ofNat 32 clock) m s.recs).2 }
  | .request dt m sent =>
    let clock := s.clock + dt
    let (reply, recs) := processRequest (BitVec.ofNat 32 clock) m sent s.recs
    some ⟨clock, recs, noteAck clock sent s.acks reply⟩
  | .reset => some { s with recs := reset s.recs, acks := [] }

/-- After `DHCPSrv_Init`. -/
def start : Srv := ⟨0, List.replicate recordbookCapacity Record.zero, []⟩

/-- Addresses are in range, no two occupied records of different clients hold the same one, and no address is
acknowledged to two clients while the first lease runs. -/
structure LeaseSafe (s : Srv) : Prop where
  range : ∀ r ∈ s.recs, r.ip ≠ 0 → ipRangeStart ≤ r.ip ∧ r.ip < ipRangeEnd
  unique : ∀ r ∈ s.recs, ∀ q ∈ s.recs, r.state ≠ .free → q.state ≠ .free → r.mac ≠ q.mac → r.ip ≠ q.ip
  acks : s.acks.Pairwise fun new old => new.mac ≠ old.mac → new.ip = old.ip → old.time + 1000 * old.lease < new.time

/-- A DISCOVER is only answered while no other occupied record belongs to another client. -/
def Alone (s : Srv) : Event → Prop
  | .discover dt m => ∀ t ∈ m.target (BitVec.ofNat 32 (s.clock + dt)) s.recs,
      ∀ r ∈ s.recs.eraseIdx t.1, r.state ≠ .free → r.ip ≠ 0 → r.mac = t.2
  | _ => True

/-- A record that stands for an acknowledged lease: made out at a time `T` not before the ACK. -/
def Backs (clock : Nat) (a : Ack) (r : Record) : Prop :=
  r.state ≠ .free ∧ r.mac = a.mac ∧ r.ip = a.ip ∧ ∃ T, a.time ≤ T ∧ T ≤ clock ∧ r.ts = BitVec.ofNat 32 T

/-- Every lease still running has its record. -/
def Backed (s : Srv) : Prop :=
  ∀ a ∈ s.acks, a.lease = 15 * 60 ∧
    ((a.mac = 0 ∧ a.ip = 0) ∨ a.time + recordLife < s.clock ∨ ∃ r ∈ s.recs, Backs s.clock a r)

structure Inv (s : Srv) : Prop where
  settled : Settled s.recs
  safe : LeaseSafe s
  backed : Backed s

theorem mem_set_iff {recs : List Record} {i : Nat} (hi : i < recs.length) (x r : Record) :
    r ∈ recs.set i x ↔ r = x ∨ r ∈ recs.eraseIdx i := by
  rw [List.set_eq_take_append_cons_drop, if_pos hi, List.eraseIdx_eq_take_drop_succ]
  simp only [List.mem_append, List.mem_cons]
  tauto

theorem mem_at_or {recs : List Record} {i : Nat} (hi : i < recs.length) {r : Record} (h : r ∈ recs) :
    r = recs[i] ∨ r ∈ recs.eraseIdx i := by
  rw [← mem_set_iff hi, List.set_getElem_self]
  exact h

/-- A record that backs a lease and is seen as old has outlived it. -/
theorem Backs.expired {clock clock' : Nat} {a : Ack} {r : Record} (h : Backs clock a r) (hle : clock ≤ clock')
    (hold : r.old (BitVec.ofNat 32 clock') = true) : a.time + recordLife < clock' := by
  obtain ⟨-, -, -, T, h1, h2, h3⟩ := h
  have h4 := of_decide_eq_true (Bool.and_eq_true_iff.1 hold).2
  rw [h3, BitVec.toInt_eq_toNat_cond, BitVec.toNat_sub, BitVec.toNat_ofNat, BitVec.toNat_ofNat] at h4
  have : recordLife = 900000 := rfl
  split at h4 <;> omega

theorem Settled.range {recs : List Record} (h : Settled recs) :
    ∀ r ∈ recs, r.ip ≠ 0 → ipRangeStart ≤ r.ip ∧ r.ip < ipRangeEnd := by
  intro r hr hip
  rw [(h r hr).resolve_left fun h0 => hip h0.2]
  decide

theorem Inv.tick {s : Srv} (h : Inv s) (dt : Nat) : Inv { s with clock := s.clock + dt } := by
  refine ⟨h.settled, ⟨h.safe.range, h.safe.unique, h.safe.acks⟩, fun a ha => ?_⟩
  obtain ⟨hlease, hzero | hexp | ⟨r, hr, h1, h2, h3, T, h4, h5, h6⟩⟩ := h.backed a ha
  · exact ⟨hlease, Or.inl hzero⟩
  · exact ⟨hlease, Or.inr (Or.inl (Nat.lt_add_right _ hexp))⟩
  · exact ⟨hlease, Or.inr (Or.inr ⟨r, hr, h1, h2, h3, T, h4, Nat.le_add_right_of_le h5, h6⟩)⟩

/-! ### DISCOVER -/

section Discover

variable {s : Srv} {i : Nat} {ch : Mac}

/-- The book after an offer of `leaseIp` to `ch` in record `i`. -/
def Srv.offer (s : Srv) (i : Nat) (ch : Mac) : Srv :=
  { s with recs := s.recs.set i ⟨.offer, BitVec.ofNat 32 s.clock, ch, leaseIp⟩ }

theorem target_lt {now : BitVec 32} {recs : List Record} (h : target now ch recs = some i) : i < recs.length := by
  rcases Option.or_eq_some_iff.1 h with h | ⟨-, h⟩ <;> exact (List.findIdx?_eq_some_iff_getElem.1 h).1

theorem offer_settled (h : Settled s.recs) : Settled (s.offer i ch).recs := by
  intro r hr
  rcases List.mem_or_eq_of_mem_set hr with hr | rfl
  · exact h r hr
  · exact Or.inr rfl

/-- The offer is safe exactly where no other occupied record belongs to another client. -/
theorem offer_safe_iff (h : Inv s) (ch : Mac) (hi : i < s.recs.length) :
    LeaseSafe (s.offer i ch) ↔ ∀ r ∈ s.recs.eraseIdx i, r.state ≠ .free → r.ip ≠ 0 → r.mac = ch := by
  constructor
  · intro hsafe r hr hst hip
    by_contra hmac
    have hlease : r.ip = leaseIp := (h.settled r (List.mem_of_mem_eraseIdx hr)).resolve_left fun h0 => hip h0.2
    exact hsafe.unique r ((mem_set_iff hi _ r).2 (Or.inr hr)) _ ((mem_set_iff hi _ _).2 (Or.inl rfl)) hst nofun hmac
      hlease
  · intro halone
    have hnew : ∀ r ∈ s.recs.eraseIdx i, r.state ≠ .free → r.mac ≠ ch → r.ip ≠ leaseIp := by
      intro r hr hst hmac hip
      exact hmac (halone r hr hst (hip ▸ by decide))
    refine ⟨(offer_settled h.settled).range, fun r hr q hq hrs hqs hmac => ?_, h.safe.acks⟩
    rcases (mem_set_iff hi _ _).1 hr with rfl | hr <;> rcases (mem_set_iff hi _ _).1 hq with rfl | hq
    · exact absurd rfl hmac
    · exact (hnew q hq hqs hmac.symm).symm
    · exact hnew r hr hrs hmac
    · exact h.safe.unique r (List.mem_of_mem_eraseIdx hr) q (List.mem_of_mem_eraseIdx hq) hrs hqs hmac

/-- An overwritten record was vacant, or was the client's own. -/
theorem offer_backed (h : Inv s) (ht : target (BitVec.ofNat 32 s.clock) ch s.recs = some i) :
    Backed (s.offer i ch) := by
  intro a ha
  have hi := target_lt ht
  obtain ⟨hlease, hzero | hexp | ⟨r, hr, hback⟩⟩ := h.backed a ha
  · exact ⟨hlease, Or.inl hzero⟩
  · exact ⟨hlease, Or.inr (Or.inl hexp)⟩
  refine ⟨hlease, ?_⟩
  rcases mem_at_or hi hr with rfl | hr
  · rcases Option.or_eq_some_iff.1 ht with hmac | ⟨-, hvac⟩
    · obtain ⟨_, hmaci, -⟩ := List.findIdx?_eq_some_iff_getElem.1 hmac
      have hch := of_decide_eq_true hmaci
      obtain ⟨-, h2, h3, T, h4, h5, -⟩ := hback
      rcases h.settled _ (List.getElem_mem hi) with ⟨h0, h0'⟩ | hip
      · exact Or.inl ⟨h2.symm.trans h0, h3.symm.trans h0'⟩
      · exact Or.inr (Or.inr ⟨_, (mem_set_iff hi _ _).2 (Or.inl rfl), nofun, hch.symm.trans h2, hip.symm.trans h3,
          s.clock, Nat.le_trans h4 h5, Nat.le_refl _, rfl⟩)
    · obtain ⟨_, hvaci, -⟩ := List.findIdx?_eq_some_iff_getElem.1 hvac
      rcases Bool.or_eq_true_iff.1 hvaci with hfree | hold
      · exact absurd (of_decide_eq_true hfree) hback.1
      · exact Or.inr (Or.inl (hback.expired (Nat.le_refl _) hold))
  · exact Or.inr (Or.inr ⟨r, (mem_set_iff hi _ _).2 (Or.inr hr), hback⟩)

theorem step_discover {s' : Srv} {dt : Nat} {m : Msg} (h : Inv s) (hs : step s (.discover dt m) = some s') :
    (LeaseSafe s' ↔ Alone s (.discover dt m)) ∧ (Alone s (.discover dt m) → Inv s') := by
  have htick := h.tick dt
  obtain rfl := Option.some.inj hs
  rw [processDiscover_eq h.settled, Alone]
  cases hm : m.target (BitVec.ofNat 32 (s.clock + dt)) s.recs with
  | none => exact ⟨⟨fun _ => nofun, fun _ => htick.safe⟩, fun _ => htick⟩
  | some t =>
      obtain ⟨i, ch⟩ := t
      have ht : target (BitVec.ofNat 32 (s.clock + dt)) ch s.recs = some i := by
        unfold Msg.target at hm
        split at hm
        · cases hm
        · obtain ⟨c, -, hc⟩ := Option.bind_eq_some_iff.1 hm
          obtain ⟨j, hj, heq⟩ := Option.map_eq_some_iff.1 hc
          obtain ⟨rfl, rfl⟩ := Prod.mk.inj heq
          exact hj
      have hiff := offer_safe_iff htick ch (target_lt ht)
      simp only [Option.mem_some_iff, forall_eq']
      exact ⟨hiff, fun halone => ⟨offer_settled htick.settled, hiff.2 halone, offer_backed htick ht⟩⟩

end Discover

/-! ### REQUEST and reset -/

theorem mem_reset {recs : List Record} {r : Record} (h : r ∈ reset recs) : r = Record.zero := by
  obtain ⟨_, -, rfl⟩ := List.mem_map.1 h
  rfl

/-- A book without a MAC or an address, and no ACK outstanding. -/
theorem inv_blank {s : Srv} (h : ∀ r ∈ s.recs, r.mac = 0 ∧ r.ip = 0) (hacks : s.acks = []) : Inv s := by
  have hset : Settled s.recs := fun r hr => Or.inl (h r hr)
  refine ⟨hset, ⟨hset.range, fun r hr q hq _ _ hmac => ?_, hacks ▸ List.Pairwise.nil⟩, fun a ha => ?_⟩
  · exact absurd ((h r hr).1.trans (h q hq).1.symm) hmac
  · rw [hacks] at ha
    cases ha

section Request

variable {s : Srv} {i : Nat} {r : Record}

/-- The book and the ACKs after record `i`, which is `r`, is acknowledged. -/
def Srv.ack (s : Srv) (i : Nat) (r : Record) : Srv :=
  { s with
    recs := s.recs.set i { r with state := .assigned, ts := BitVec.ofNat 32 s.clock }
    acks := ⟨r.mac, r.ip, s.clock, 15 * 60⟩ :: s.acks }

/-- Every record after the ACK is one from before with the same MAC and address, and no more occupied. -/
theorem mem_ack (hr : s.recs[i]? = some r) (hst : r.state ≠ .free) :
    ∀ q ∈ (s.ack i r).recs, ∃ p ∈ s.recs, p.mac = q.mac ∧ p.ip = q.ip ∧ (q.state ≠ .free → p.state ≠ .free) := by
  intro q hq
  rcases List.mem_or_eq_of_mem_set hq with hq | rfl
  · exact ⟨q, hq, rfl, rfl, id⟩
  · exact ⟨r, List.mem_of_getElem? hr, rfl, rfl, fun _ => hst⟩

/-- A lease of another client for the same address has run out. -/
theorem ack_expired (h : Inv s) (hr : s.recs[i]? = some r) (hst : r.state ≠ .free) {a : Ack} (ha : a ∈ s.acks)
    (hmac : r.mac ≠ a.mac) (hip : r.ip = a.ip) : a.time + 1000 * a.lease < s.clock := by
  have hmem := List.mem_of_getElem? hr
  obtain ⟨hlease, ⟨hz, hz'⟩ | hexp | ⟨q, hq, hqs, hqm, hqi, -⟩⟩ := h.backed a ha
  · rcases h.settled r hmem with ⟨h0, -⟩ | hip'
    · exact absurd (h0.trans hz.symm) hmac
    · exact absurd (hz'.symm.trans (hip.symm.trans hip')) (by decide)
  · rw [hlease]
    exact hexp
  · exact absurd (hip.trans hqi.symm) (h.safe.unique r hmem q hq hst hqs (hqm ▸ hmac))

theorem ack_backed (h : Inv s) (hr : s.recs[i]? = some r) : Backed (s.ack i r) := by
  obtain ⟨hi, rfl⟩ := List.getElem?_eq_some_iff.1 hr
  have hnew : ∀ a : Ack, s.recs[i].mac = a.mac → s.recs[i].ip = a.ip → a.time ≤ s.clock →
      ∃ q ∈ (s.ack i s.recs[i]).recs, Backs s.clock a q := fun a hmac hip ht =>
    ⟨_, (mem_set_iff hi _ _).2 (Or.inl rfl), nofun, hmac, hip, s.clock, ht, Nat.le_refl _, rfl⟩
  refine List.forall_mem_cons.2 ⟨⟨rfl, Or.inr (Or.inr (hnew _ rfl rfl (Nat.le_refl _)))⟩, fun a ha => ?_⟩
  obtain ⟨hlease, hzero | hexp | ⟨q, hq, hback⟩⟩ := h.backed a ha
  · exact ⟨hlease, Or.inl hzero⟩
  · exact ⟨hlease, Or.inr (Or.inl hexp)⟩
  · refine ⟨hlease, Or.inr (Or.inr ?_)⟩
    rcases mem_at_or hi hq with rfl | hq
    · obtain ⟨-, hmac, hip, T, h1, h2, -⟩ := hback
      exact hnew a hmac hip (Nat.le_trans h1 h2)
    · exact ⟨q, (mem_set_iff hi _ _).2 (Or.inr hq), hback⟩

/-- An ACK for an occupied record renews it. -/
theorem inv_ack (h : Inv s) (hr : s.recs[i]? = some r) (hst : r.state ≠ .free) : Inv (s.ack i r) := by
  have hset : Settled (s.ack i r).recs := by
    intro q hq
    obtain ⟨p, hp, hmac, hip, -⟩ := mem_ack hr hst q hq
    rw [← hmac, ← hip]
    exact h.settled p hp
  refine ⟨hset, ⟨hset.range, fun q hq q' hq' hs hs' => ?_, ?_⟩, ack_backed h hr⟩
  · obtain ⟨p, hp, hm, hip, hps⟩ := mem_ack hr hst q hq
    obtain ⟨p', hp', hm', hip', hps'⟩ := mem_ack hr hst q' hq'
    rw [← hm, ← hm', ← hip, ← hip']
    exact h.safe.unique p hp p' hp' (hps hs) (hps' hs')
  · exact List.pairwise_cons.2 ⟨fun a ha => ack_expired h hr hst ha, h.safe.acks⟩

theorem step_request {s' : Srv} {dt : Nat} {m : Msg} {sent : Sent} (h : Inv s)
    (hs : step s (.request dt m sent) = some s') : Inv s' := by
  have htick := h.tick dt
  obtain ⟨reply, heq, hnack⟩ | ⟨i, r, hr, hst, hsent, heq⟩ :=
    processRequest_cases (BitVec.ofNat 32 (s.clock + dt)) m sent s.recs
  · rw [step, heq] at hs
    obtain rfl := Option.some.inj hs
    have hnote : noteAck (s.clock + dt) sent s.acks reply = s.acks := by
      unfold noteAck
      split
      · exact absurd rfl (hnack _ _ _)
      · rfl
    rw [hnote]
    exact htick
  · rw [step, heq] at hs
    obtain rfl := Option.some.inj hs
    by_cases hreset : sent = .okAfterReset
    · refine inv_blank (fun q hq => ?_) (by simp [noteAck, hreset])
      have hzero : (reset s.recs)[i]? = some Record.zero := by
        rw [reset, List.getElem?_map, hr]
        rfl
      rw [if_pos hreset, modify_at hzero] at hq
      rcases List.mem_or_eq_of_mem_set hq with hq | rfl
      · rw [mem_reset hq]
        decide
      · exact ⟨rfl, rfl⟩
    · rw [if_neg hreset, modify_at hr, noteAck, if_neg hreset]
      exact inv_ack htick hr hst

end Request

theorem inv_start : Inv start := inv_blank (fun r hr => by rw [List.eq_of_mem_replicate hr]; decide) rfl

theorem inv_step {s s' : Srv} {e : Event} (h : Inv s) (hs : step s e = some s') :
    (LeaseSafe s' ↔ Alone s e) ∧ (Alone s e → Inv s') := by
  cases e with
  | discover dt m => exact step_discover h hs
  | request dt m sent =>
      have hinv := step_request h hs
      exact ⟨⟨fun _ => trivial, fun _ => hinv.safe⟩, fun _ => hinv⟩
  | reset =>
      obtain rfl := Option.some.inj hs
      have hinv : Inv { s with recs := reset s.recs, acks := [] } :=
        inv_blank (fun r hr => by rw [mem_reset hr]; decide) rfl
      exact ⟨⟨fun _ => trivial, fun _ => hinv.safe⟩, fun _ => hinv⟩

theorem step_isSome (s : Srv) (e : Event) : step s e ≠ none := by
  cases e <;> exact Option.some_ne_none _

/-- **Leases are unique** in every state of a run exactly when every DISCOVER of the run that is answered finds no other
occupied record of another client. -/
theorem leases_unique_iff (es : List Event) :
    Along step (fun _ _ s => LeaseSafe s) start es ↔ Meets step Alone start es :=
  along_iff_meets (fun s e _ hs => absurd hs (step_isSome s e)) (fun _ _ _ => inv_step) inv_start

/-- A message from `mac` about `ip`. -/
def Msg.from (mac : Mac) (ip : Option Ip) : Msg := ⟨1, some mac, none, ip⟩

/-- Two clients on the fresh server: both are offered, and acknowledged, 192.168.50.101 at the same time. -/
theorem leases_not_unique : ¬ ∀ es : List Event, Along step (fun _ _ s => LeaseSafe s) start es := by
  intro h
  have hrun := h [.discover 1 (.from 1 none), .request 0 (.from 1 (some leaseIp)) .ok, .discover 0 (.from 2 none),
    .request 0 (.from 2 (some leaseIp)) .ok]
  obtain ⟨-, hrun⟩ := hrun ⟨1, [⟨.offer, 1, 1, leaseIp⟩, .zero, .zero, .zero], []⟩ (by decide)
  obtain ⟨-, hrun⟩ := hrun ⟨1, [⟨.assigned, 1, 1, leaseIp⟩, .zero, .zero, .zero], [⟨1, leaseIp, 1, 900⟩]⟩ (by decide)
  obtain ⟨-, hrun⟩ := hrun
    ⟨1, [⟨.assigned, 1, 1, leaseIp⟩, ⟨.offer, 1, 2, leaseIp⟩, .zero, .zero], [⟨1, leaseIp, 1, 900⟩]⟩ (by decide)
  obtain ⟨hsafe, -⟩ := hrun
    ⟨1, [⟨.assigned, 1, 1, leaseIp⟩, ⟨.assigned, 1, 2, leaseIp⟩, .zero, .zero],
      [⟨2, leaseIp, 1, 900⟩, ⟨1, leaseIp, 1, 900⟩]⟩ (by decide)
  exact absurd hsafe.acks (by decide)

end YieldStm32.DHCPSrv
