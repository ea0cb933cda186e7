import YieldStm32.Net.Dhcp.RoundTrip

/-!
# What the option parser reads (`DHCPFrame_ParseOptions`)

* `Parses` : the loop over the records, to its end;
* `Filled` : bytes that are whole records, and no end mark behind them;
* `confined_iff` : when parsing depends only on the option area.

Each record is checked against what is left of the area, but the end mark is looked for before anything is: behind a record
that ends with the area, the byte behind it is read.
-/

namespace YieldStm32.DHCPFrame

open Ring TCPIP

/-! ## The loop to its end -/

/-- The loop, at `p` with the option set `o`, ends and returns `r`. -/
inductive Parses (m : Mem) (ptr : Nat) (size : BitVec 32) : Nat → OptSet → Option Nat × OptSet → Prop where
  | end {p : Nat} {o : OptSet} (hend : m p = 0xff) : Parses m ptr size p o (some (p + 1), o.mark .end)
  | stop {p : Nat} {o : OptSet} (hend : m p ≠ 0xff)
      (hstop : getOptionHdr m p (size - BitVec.ofNat 32 (p - ptr)) = none) : Parses m ptr size p o (none, o)
  | record {p next : Nat} {code : UInt8} {o : OptSet} {r : Option Nat × OptSet} (hend : m p ≠ 0xff)
      (hrecord : getOptionHdr m p (size - BitVec.ofNat 32 (p - ptr)) = some (code, next))
      (hrest : Parses m ptr size next (parseOption m p code o) r) : Parses m ptr size p o r

section Loop

variable {m : Mem} {ptr p : Nat} {size : BitVec 32}

theorem getOptionHdr_eq_some {code : UInt8} {next : Nat} {size : BitVec 32} (h : getOptionHdr m p size = some (code, next)) :
    2 + (m (p + 1)).toNat ≤ size.toNat ∧ code = m p ∧ next = p + (2 + (m (p + 1)).toNat) := by
  unfold getOptionHdr at h
  split at h
  case isTrue => cases h
  case isFalse hroom =>
    split at h
    · cases h
    · obtain ⟨rfl, rfl⟩ := Prod.mk.inj (Option.some.inj h)
      exact ⟨by omega, rfl, by omega⟩

/-- Each record takes two bytes of the area or more. -/
theorem parses_parseLoop {n : Nat} {o : OptSet} (hp : ptr ≤ p) (hle : p - ptr ≤ size.toNat)
    (hn : size.toNat < p - ptr + 2 * n) : Parses m ptr size p o (parseLoop m ptr size n p o) := by
  induction n generalizing p o with
  | zero => omega
  | succ n ih =>
      rw [parseLoop]
      by_cases hend : m p = 0xff
      · rw [if_pos hend]
        exact .end hend
      · rw [if_neg hend]
        cases hhdr : getOptionHdr m p (size - BitVec.ofNat 32 (p - ptr)) with
        | none => exact .stop hend hhdr
        | some r =>
            obtain ⟨hroom, -, hnext⟩ := getOptionHdr_eq_some hhdr
            rw [room_behind size hle] at hroom
            exact .record hend hhdr (ih (by omega) (by omega) (by omega))

/-- The loop ends in one way. -/
theorem Parses.unique {o : OptSet} {r r' : Option Nat × OptSet} (h : Parses m ptr size p o r)
    (h' : Parses m ptr size p o r') : r = r' := by
  induction h with
  | «end» hend =>
      cases h' with
      | «end» => rfl
      | stop hne => exact absurd hend hne
      | record hne => exact absurd hend hne
  | stop hne hstop =>
      cases h' with
      | «end» hend => exact absurd hend hne
      | stop => rfl
      | record _ hrecord => exact nomatch hstop.symm.trans hrecord
  | record hne hrecord _ ih =>
      cases h' with
      | «end» hend => exact absurd hend hne
      | stop _ hstop => exact nomatch hstop.symm.trans hrecord
      | record _ hrecord' hrest' =>
          obtain ⟨rfl, rfl⟩ := Prod.mk.inj (Option.some.inj (hrecord.symm.trans hrecord'))
          exact ih hrest'

end Loop

/-! ## Records that fill the area -/

/-- Whole records, none of them with the code of the end mark. -/
inductive Filled : List UInt8 → Prop where
  | nil : Filled []
  | record {code len : UInt8} {pld rest : List UInt8} (hcode : code ≠ 0xff) (hlen : pld.length = len.toNat)
      (hrest : Filled rest) : Filled (code :: len :: (pld ++ rest))

theorem copyOut_record (m : Mem) (p : Nat) {k : Nat} (h : 2 + (m (p + 1)).toNat ≤ k) :
    copyOut m p k = m p :: m (p + 1) :: (copyOut m (p + 2) (m (p + 1)).toNat ++
      copyOut m (p + (2 + (m (p + 1)).toNat)) (k - (2 + (m (p + 1)).toNat))) := by
  have hk : k = 2 + ((m (p + 1)).toNat + (k - (2 + (m (p + 1)).toNat))) := by omega
  conv_lhs => rw [hk]
  rw [copyOut_add, copyOut_add, Nat.add_assoc]
  rfl

theorem filled_copyOut_iff (m : Mem) (p k : Nat) :
    Filled (copyOut m p k) ↔ k = 0 ∨ m p ≠ 0xff ∧ 2 + (m (p + 1)).toNat ≤ k ∧
      Filled (copyOut m (p + (2 + (m (p + 1)).toNat)) (k - (2 + (m (p + 1)).toNat))) := by
  constructor
  · intro h
    have hlength := length_copyOut m p k
    generalize hbytes : copyOut m p k = bytes at h hlength
    cases h with
    | nil => exact Or.inl hlength.symm
    | @record code len pld rest hcode hlen hrest =>
        rw [List.length_cons, List.length_cons, List.length_append, hlen] at hlength
        have hk : k = 2 + (len.toNat + rest.length) := by omega
        rw [hk, copyOut_add] at hbytes
        have happ : copyOut m p 2 ++ copyOut m (p + 2) (len.toNat + rest.length) = [code, len] ++ (pld ++ rest) := hbytes
        obtain ⟨hhdr, hbehind⟩ := List.append_inj happ (length_copyOut ..)
        have hcells : m p = code ∧ m (p + 1) = len := by
          have h0 := cell_of_copyOut hhdr (i := 0) (by decide)
          have h1 := cell_of_copyOut hhdr (i := 1) (by decide)
          exact ⟨(Option.some.inj h0).symm, (Option.some.inj h1).symm⟩
        rw [copyOut_add] at hbehind
        obtain ⟨-, hlast⟩ := List.append_inj hbehind ((length_copyOut ..).trans hlen.symm)
        rw [hcells.1, hcells.2]
        refine Or.inr ⟨hcode, by omega, ?_⟩
        have hleft : k - (2 + len.toNat) = rest.length := by omega
        rw [hleft, ← Nat.add_assoc, hlast]
        exact hrest
  · rintro (rfl | ⟨hcode, hroom, hrest⟩)
    · exact .nil
    · rw [copyOut_record m p hroom]
      exact .record hcode (length_copyOut ..) hrest

/-! ## What is read -/

section Agree

variable {m m' : Mem} {p : Nat}

theorem be32_congr {q : Nat} (h : ∀ i < 4, m' (q + i) = m (q + i)) : be32 m' q = be32 m q := by
  have h0 := h 0 (by decide)
  rw [Nat.add_zero] at h0
  unfold be32 be16
  rw [h0, h 1 (by decide), h 2 (by decide), Nat.add_assoc, h 3 (by decide)]

/-- The readers of an option stay inside its record. -/
theorem parseOption_congr (h : ∀ i < 2 + (m (p + 1)).toNat, m' (p + i) = m (p + i)) (code : UInt8) (o : OptSet) :
    parseOption m' p code o = parseOption m p code o := by
  have hcode : m' p = m p := h 0 (by omega)
  have hlen : m' (p + 1) = m (p + 1) := h 1 (by omega)
  have hmsg : getMessageType m' p = getMessageType m p := by
    unfold getMessageType
    rw [hcode, hlen]
    split
    · rfl
    case isFalse hshape =>
      have hone : m (p + 1) = 1 := not_not.1 (not_or.1 hshape).2
      rw [h 2 (by rw [hone]; decide)]
  have hu32 (option : UInt8) : getU32 option m' p = getU32 option m p := by
    unfold getU32
    rw [hcode, hlen]
    split
    · rfl
    case isFalse hshape =>
      have hfour : m (p + 1) = 4 := not_not.1 (not_or.1 hshape).2
      rw [be32_congr fun i hi => ?_]
      rw [Nat.add_assoc]
      exact h (2 + i) (by rw [hfour]; exact Nat.add_lt_add_left hi 2)
  have hdns : getDNSServerIP m' p = getDNSServerIP m p := by
    funext index
    unfold getDNSServerIP
    rw [hcode, hlen]
    split
    · rfl
    · split
      · rfl
      · rw [be32_congr fun i hi => ?_]
        rw [Nat.add_assoc p, Nat.add_assoc p]
        exact h _ (by omega)
  have hlist : getParameterRequestList m' p = getParameterRequestList m p := by
    funext index
    unfold getParameterRequestList
    rw [hcode, hlen]
    split
    · rfl
    · rw [Nat.add_assoc, h _ (by omega)]
  unfold parseOption getRequestedIP getSubnetMask getRouterIP getLeaseTime getDHCPServerIP
  rw [hmsg, hu32, hu32, hu32, hu32, hu32, hdns, hlist]

theorem getOptionHdr_congr {size : BitVec 32} (h : ∀ i < size.toNat, m' (p + i) = m (p + i)) :
    getOptionHdr m' p size = getOptionHdr m p size := by
  unfold getOptionHdr
  by_cases hsize : size.toNat < 2
  · rw [if_pos (Or.inl hsize), if_pos (Or.inl hsize)]
  · have hcode : m' p = m p := h 0 (by omega)
    rw [hcode, h 1 (by omega)]

/-- Where the records do not end with the area, the loop ends inside it. -/
theorem Parses.congr {ptr : Nat} {size : BitVec 32} (hagree : ∀ i < size.toNat, m' (ptr + i) = m (ptr + i)) {o : OptSet}
    {r : Option Nat × OptSet} (h : Parses m ptr size p o r) (hp : ptr ≤ p) (hle : p - ptr ≤ size.toNat)
    (hfilled : ¬ Filled (copyOut m p (size.toNat - (p - ptr)))) : Parses m' ptr size p o r := by
  have hcells {q : Nat} (hq : ptr ≤ q) : ∀ i < size.toNat - (q - ptr), m' (q + i) = m (q + i) := by
    intro i hi
    have hcell := hagree (q - ptr + i) (by omega)
    rwa [← Nat.add_assoc, Nat.add_sub_cancel' hq] at hcell
  -- the area goes on, or it would be filled with no record
  have hpos {q : Nat} (hfilled : ¬ Filled (copyOut m q (size.toNat - (q - ptr)))) : 0 < size.toNat - (q - ptr) := by
    rw [filled_copyOut_iff] at hfilled
    exact Nat.pos_of_ne_zero (not_or.1 hfilled).1
  induction h with
  | «end» hend => exact .end ((hcells hp 0 (hpos hfilled)).trans hend)
  | stop hne hstop =>
      refine .stop (fun h => hne ((hcells hp 0 (hpos hfilled)).symm.trans h)) ?_
      rw [getOptionHdr_congr (by rw [room_behind size hle]; exact hcells hp)]
      exact hstop
  | @record q next code o r hne hrecord hrest ih =>
      have hhdr : getOptionHdr m' q (size - BitVec.ofNat 32 (q - ptr)) = some (code, next) := by
        rw [getOptionHdr_congr (by rw [room_behind size hle]; exact hcells hp)]
        exact hrecord
      obtain ⟨hroom, -, rfl⟩ := getOptionHdr_eq_some hrecord
      rw [room_behind size hle] at hroom
      refine .record (fun h => hne ((hcells hp 0 (hpos hfilled)).symm.trans h)) hhdr ?_
      rw [parseOption_congr fun i hi => hcells hp i (by omega)]
      refine ih (by omega) (by omega) fun hrest => hfilled ((filled_copyOut_iff ..).2 (Or.inr ⟨hne, hroom, ?_⟩))
      have hleft : size.toNat - (q + (2 + (m (q + 1)).toNat) - ptr) = size.toNat - (q - ptr) - (2 + (m (q + 1)).toNat) := by
        omega
      rwa [hleft] at hrest

/-- Where they do, the byte behind the area is taken for an end mark, or not. -/
theorem Parses.of_filled {ptr : Nat} {size : BitVec 32} {o : OptSet} {r : Option Nat × OptSet} (h : Parses m ptr size p o r)
    (hp : ptr ≤ p) (hle : p - ptr ≤ size.toNat) (hfilled : Filled (copyOut m p (size.toNat - (p - ptr)))) :
    r.1.isSome ↔ m (ptr + size.toNat) = 0xff := by
  have hbehind {q : Nat} (hq : ptr ≤ q) (hqle : q - ptr ≤ size.toNat) (h : size.toNat - (q - ptr) = 0) :
      q = ptr + size.toNat := by omega
  induction h with
  | «end» hend =>
      rcases (filled_copyOut_iff ..).1 hfilled with hzero | ⟨hne, -⟩
      · rw [← hbehind hp hle hzero]
        exact iff_of_true rfl hend
      · exact absurd hend hne
  | stop hne hstop =>
      rcases (filled_copyOut_iff ..).1 hfilled with hzero | ⟨-, hroom, -⟩
      · rw [← hbehind hp hle hzero]
        exact iff_of_false (fun h => nomatch h) hne
      · rw [← room_behind size hle] at hroom
        unfold getOptionHdr at hstop
        rw [if_neg (by omega), if_neg hne] at hstop
        exact nomatch hstop
  | @record q next code o r hne hrecord hrest ih =>
      obtain ⟨hroom, -, rfl⟩ := getOptionHdr_eq_some hrecord
      rw [room_behind size hle] at hroom
      rcases (filled_copyOut_iff ..).1 hfilled with hzero | ⟨-, -, hfilled⟩
      · omega
      · refine ih (by omega) (by omega) ?_
        have hleft : size.toNat - (q + (2 + (m (q + 1)).toNat) - ptr) = size.toNat - (q - ptr) - (2 + (m (q + 1)).toNat) := by
          omega
        rwa [hleft]

end Agree

/-! ## Parsing and the option area -/

/-- The option set with no flags. -/
def OptSet.cleared (o : OptSet) : OptSet := { o with optflags := fun _ => false }

/-- `DHCPFrame_ParseOptions` ends, and any memory with the same option area gives the same pointer and the same set. -/
structure Confined (m : Mem) (ptr : Nat) (size : BitVec 32) (o : OptSet) : Prop where
  ends : parseOptions m ptr size o = (none, o.cleared) ∧ size = 0 ∨
    Parses m ptr size ptr o.cleared (parseOptions m ptr size o)
  same : ∀ m' : Mem, (∀ i < size.toNat, m' (ptr + i) = m (ptr + i)) → parseOptions m' ptr size o = parseOptions m ptr size o

theorem parses_parseOptions (m : Mem) (ptr : Nat) {size : BitVec 32} (o : OptSet) (hsize : size ≠ 0) :
    Parses m ptr size ptr o.cleared (parseOptions m ptr size o) := by
  have hpos : 0 < size.toNat := by
    rw [Nat.pos_iff_ne_zero]
    exact fun h => hsize (BitVec.eq_of_toNat_eq h)
  unfold parseOptions
  dsimp only
  rw [if_neg hsize]
  exact parses_parseLoop (Nat.le_refl _) (by omega) (by omega)

theorem confined_iff (m : Mem) (ptr : Nat) (size : BitVec 32) (o : OptSet) :
    Confined m ptr size o ↔ size = 0 ∨ ¬ Filled (copyOut m ptr size.toNat) := by
  by_cases hsize : size = 0
  · subst hsize
    exact iff_of_true ⟨Or.inl ⟨rfl, rfl⟩, fun _ _ => rfl⟩ (Or.inl rfl)
  have hleft : size.toNat - (ptr - ptr) = size.toNat := by omega
  rw [or_iff_right hsize]
  constructor
  · intro hconfined hfilled
    have hparses (m' : Mem) (hagree : ∀ i < size.toNat, m' (ptr + i) = m (ptr + i)) :
        (parseOptions m' ptr size o).1.isSome ↔ m' (ptr + size.toNat) = 0xff := by
      refine (parses_parseOptions m' ptr o hsize).of_filled (Nat.le_refl _) (by omega) ?_
      rwa [hleft, copyOut_congr hagree]
    -- the same area, and the other kind of byte behind it
    have hother (b : UInt8) : m (ptr + size.toNat) = 0xff ↔ b = 0xff := by
      have hagree : ∀ i < size.toNat, Function.update m (ptr + size.toNat) b (ptr + i) = m (ptr + i) :=
        fun i hi => Function.update_of_ne (by omega) ..
      rw [← hparses m fun _ _ => rfl, ← hconfined.same _ hagree, hparses _ hagree, Function.update_self]
    exact absurd ((hother 0).1 ((hother 0xff).2 rfl)) (by decide)
  · intro hfilled
    refine ⟨Or.inr (parses_parseOptions m ptr o hsize), fun m' hagree => ?_⟩
    have hparses := (parses_parseOptions m ptr o hsize).congr hagree (Nat.le_refl _) (by omega) (by rwa [hleft])
    exact (parses_parseOptions m' ptr o hsize).unique hparses

/-- A set with nothing in it. -/
def noOptions : OptSet where
  optflags := fun _ => false
  msgType := 0
  subnet := 0
  router := 0
  server := 0
  dns := fun _ => 0
  dnsCnt := 0
  leaseTime := 0
  reqList := fun _ => 0
  reqListCnt := 0
  reqIp := 0

/-- A message type, and no end mark: a byte of 0xff behind it is taken for one. -/
theorem not_confined_message_type : ¬ Confined (copyIn (fun _ => 0) 0 [53, 1, 5]) 0 3 noOptions := by
  intro h
  have hsame := congrArg Prod.fst (h.same (copyIn (fun _ => 0) 0 [53, 1, 5, 0xff]) (by decide))
  exact absurd hsame (by decide)

end YieldStm32.DHCPFrame
