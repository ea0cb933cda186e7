import YieldStm32.Lib.Run
import YieldStm32.Net.Input

/-!
# The ARP table (`arp_table.c`)

Entries are found by hardware address when they are updated and by protocol address when they are looked up, and the one of
the greatest age is given up.

* `Replaces` : the entry that an update overwrites, `arpUpdateTable_of_replaces`;
* `ArpTable.step` : the calls, with the latest hardware address that each protocol address was updated with;
* `ArpTable.writesInside_iff` : when updates write into the table;
* `ArpTable.servesNewest_iff` : when lookups of a protocol address give its latest hardware address.
-/

namespace YieldStm32.TCPIP

open Transition

/-- `TCPIP_ARP_TABLE_SIZE` -/
def arpTableSize : Nat := 5

/-- The table of `TCPIPArpTable_ResetTable` -/
def emptyTable : List ArpEntry := List.replicate arpTableSize ⟨0, 0, 0⟩

/-! ## The entry to be updated -/

/-- `dtime(time(0), e->ts)` -/
def ArpEntry.age (now : BitVec 32) (e : ArpEntry) : Int := (now - e.ts).toInt

/-- The entry between `before` and `behind` is the one to be updated: the last one with the hardware address, or, where no
entry has it, the first one of the greatest age, if that is positive. -/
def Replaces (now : BitVec 32) (ha : Mac) (before : List ArpEntry) (e : ArpEntry) (behind : List ArpEntry) : Prop :=
  e.ha = ha ∧ (∀ x ∈ behind, x.ha ≠ ha) ∨
    (∀ x ∈ before ++ e :: behind, x.ha ≠ ha) ∧ 0 < e.age now ∧ (∀ x ∈ before, x.age now < e.age now) ∧
      ∀ x ∈ behind, x.age now ≤ e.age now

section Scan

variable (now : BitVec 32) (ha : Mac)

theorem arpScan_cons (e : ArpEntry) (es : List ArpEntry) (i : Nat) (oldestId haId : Option Nat) (d : Int) :
    arpScan now ha (e :: es) i oldestId haId d =
      if d < e.age now then arpScan now ha es (i + 1) (some i) (if ha = e.ha then some i else haId) (e.age now)
      else arpScan now ha es (i + 1) oldestId (if ha = e.ha then some i else haId) d := rfl

theorem arpScan_haId_of_ne {es : List ArpEntry} (h : ∀ x ∈ es, x.ha ≠ ha) (i : Nat) (oldestId haId : Option Nat) (d : Int) :
    (arpScan now ha es i oldestId haId d).2 = haId := by
  induction es generalizing i oldestId d with
  | nil => rfl
  | cons e es ih =>
      obtain ⟨he, hes⟩ := List.forall_mem_cons.1 h
      rw [arpScan_cons, if_neg (Ne.symm he)]
      split
      · exact ih hes ..
      · exact ih hes ..

theorem arpScan_haId {e : ArpEntry} {behind : List ArpEntry} (he : e.ha = ha) (h : ∀ x ∈ behind, x.ha ≠ ha)
    (before : List ArpEntry) (i : Nat) (oldestId haId : Option Nat) (d : Int) :
    (arpScan now ha (before ++ e :: behind) i oldestId haId d).2 = some (i + before.length) := by
  induction before generalizing i oldestId haId d with
  | nil =>
      rw [List.nil_append, arpScan_cons, if_pos he.symm]
      split
      · exact arpScan_haId_of_ne now ha h ..
      · exact arpScan_haId_of_ne now ha h ..
  | cons x before ih =>
      rw [List.cons_append, arpScan_cons, List.length_cons, Nat.add_comm before.length 1, ← Nat.add_assoc]
      split
      · exact ih ..
      · exact ih ..

theorem arpScan_oldestId_of_le {es : List ArpEntry} {d : Int} (h : ∀ x ∈ es, x.age now ≤ d) (i : Nat)
    (oldestId haId : Option Nat) : (arpScan now ha es i oldestId haId d).1 = oldestId := by
  induction es generalizing i haId with
  | nil => rfl
  | cons e es ih =>
      obtain ⟨he, hes⟩ := List.forall_mem_cons.1 h
      rw [arpScan_cons, if_neg (Int.not_lt.2 he)]
      exact ih hes ..

theorem arpScan_oldestId {e : ArpEntry} {before behind : List ArpEntry} (hbefore : ∀ x ∈ before, x.age now < e.age now)
    (hbehind : ∀ x ∈ behind, x.age now ≤ e.age now) {d : Int} (hd : d < e.age now) (i : Nat) (oldestId haId : Option Nat) :
    (arpScan now ha (before ++ e :: behind) i oldestId haId d).1 = some (i + before.length) := by
  induction before generalizing i oldestId haId d with
  | nil =>
      rw [List.nil_append, arpScan_cons, if_pos hd]
      exact arpScan_oldestId_of_le now ha hbehind ..
  | cons x before ih =>
      obtain ⟨hx, hrest⟩ := List.forall_mem_cons.1 hbefore
      rw [List.cons_append, arpScan_cons, List.length_cons, Nat.add_comm before.length 1, ← Nat.add_assoc]
      split
      · exact ih hrest hx ..
      · exact ih hrest hd ..

/-- The last entry with a hardware address. -/
theorem exists_last_or_forall_ne (t : List ArpEntry) :
    (∃ before e behind, t = before ++ e :: behind ∧ e.ha = ha ∧ ∀ x ∈ behind, x.ha ≠ ha) ∨ ∀ x ∈ t, x.ha ≠ ha := by
  induction t with
  | nil => exact Or.inr fun x hx => absurd hx List.not_mem_nil
  | cons y t ih =>
      rcases ih with ⟨before, e, behind, rfl, he⟩ | hne
      · exact Or.inl ⟨y :: before, e, behind, rfl, he⟩
      · by_cases hy : y.ha = ha
        · exact Or.inl ⟨[], y, t, rfl, hy, hne⟩
        · exact Or.inr (List.forall_mem_cons.2 ⟨hy, hne⟩)

/-- The first entry of the greatest age above `d`. -/
theorem exists_oldest_or_forall_le (t : List ArpEntry) (d : Int) :
    (∃ before e behind, t = before ++ e :: behind ∧ d < e.age now ∧ (∀ x ∈ before, x.age now < e.age now) ∧
        ∀ x ∈ behind, x.age now ≤ e.age now) ∨ ∀ x ∈ t, x.age now ≤ d := by
  induction t generalizing d with
  | nil => exact Or.inr fun x hx => absurd hx List.not_mem_nil
  | cons y t ih =>
      by_cases hy : d < y.age now
      · left
        rcases ih (y.age now) with ⟨before, e, behind, rfl, he, hbefore, hbehind⟩ | hle
        · exact ⟨y :: before, e, behind, rfl, hy.trans he, List.forall_mem_cons.2 ⟨he, hbefore⟩, hbehind⟩
        · exact ⟨[], y, t, rfl, hy, fun x hx => absurd hx List.not_mem_nil, hle⟩
      · rcases ih d with ⟨before, e, behind, rfl, he, hbefore, hbehind⟩ | hle
        · exact Or.inl ⟨y :: before, e, behind, rfl, he,
            List.forall_mem_cons.2 ⟨Int.lt_of_le_of_lt (Int.not_lt.1 hy) he, hbefore⟩, hbehind⟩
        · exact Or.inr (List.forall_mem_cons.2 ⟨Int.not_lt.1 hy, hle⟩)

/-- An entry qualifies, or none has the hardware address, and none a positive age. -/
theorem exists_replaces_or (t : List ArpEntry) :
    (∃ before e behind, t = before ++ e :: behind ∧ Replaces now ha before e behind) ∨
      ∀ x ∈ t, x.ha ≠ ha ∧ x.age now ≤ 0 := by
  rcases exists_last_or_forall_ne ha t with ⟨before, e, behind, rfl, he, hbehind⟩ | hne
  · exact Or.inl ⟨before, e, behind, rfl, Or.inl ⟨he, hbehind⟩⟩
  · rcases exists_oldest_or_forall_le now t 0 with ⟨before, e, behind, rfl, hage⟩ | hle
    · exact Or.inl ⟨before, e, behind, rfl, Or.inr ⟨hne, hage⟩⟩
    · exact Or.inr fun x hx => ⟨hne x hx, hle x hx⟩

end Scan

/-- An index of the search, `-1` where nothing was found. -/
def entryId (i : Option Nat) : Int := i.elim (-1) Int.ofNat

/-- `ha_id >= 0 ? ha_id : oldest_id` -/
def arpUpdateId (now : BitVec 32) (ha : Mac) (t : List ArpEntry) : Int :=
  let (oldestId, haId) := arpScan now ha t 0 none none 0
  if 0 ≤ entryId haId then entryId haId else entryId oldestId

theorem arpScan_of_replaces {now : BitVec 32} {ha : Mac} {before behind : List ArpEntry} {e : ArpEntry}
    (h : Replaces now ha before e behind) :
    let ids := arpScan now ha (before ++ e :: behind) 0 none none 0
    ids.2 = some before.length ∨ ids.2 = none ∧ ids.1 = some before.length := by
  rcases h with ⟨he, hbehind⟩ | ⟨hne, hage, hbefore, hbehind⟩
  · exact Or.inl ((arpScan_haId now ha he hbehind ..).trans (by rw [Nat.zero_add]))
  · exact Or.inr ⟨arpScan_haId_of_ne now ha hne .., (arpScan_oldestId now ha hbefore hbehind hage ..).trans (by rw [Nat.zero_add])⟩

theorem arpScan_of_none {now : BitVec 32} {ha : Mac} {t : List ArpEntry} (h : ∀ x ∈ t, x.ha ≠ ha ∧ x.age now ≤ 0) :
    arpScan now ha t 0 none none 0 = (none, none) :=
  Prod.ext (arpScan_oldestId_of_le now ha (fun x hx => (h x hx).2) ..)
    (arpScan_haId_of_ne now ha (fun x hx => (h x hx).1) ..)

theorem arpUpdateId_of_replaces {now : BitVec 32} {ha : Mac} {before behind : List ArpEntry} {e : ArpEntry}
    (h : Replaces now ha before e behind) : arpUpdateId now ha (before ++ e :: behind) = before.length := by
  have hlen : 0 ≤ entryId (some before.length) := Int.natCast_nonneg _
  have hnone : ¬ 0 ≤ entryId none := by decide
  unfold arpUpdateId
  dsimp only
  rcases arpScan_of_replaces h with hha | ⟨hha, holdest⟩
  · rw [hha, if_pos hlen]
    rfl
  · rw [hha, if_neg hnone, holdest]
    rfl

theorem arpUpdateId_of_none {now : BitVec 32} {ha : Mac} {t : List ArpEntry}
    (h : ∀ x ∈ t, x.ha ≠ ha ∧ x.age now ≤ 0) : arpUpdateId now ha t = -1 := by
  unfold arpUpdateId
  rw [arpScan_of_none h]
  rfl

theorem arpUpdateTable_of_replaces (s : Stack) {ha : Mac} {before behind : List ArpEntry} {e : ArpEntry} (pa : Ip)
    (ht : s.arpTable = before ++ e :: behind) (h : Replaces s.now ha before e behind) :
    arpUpdateTable ha pa s = { s with arpTable := before ++ ⟨ha, pa, s.now⟩ :: behind } := by
  have hset : (before ++ e :: behind).set before.length ⟨ha, pa, s.now⟩ = before ++ ⟨ha, pa, s.now⟩ :: behind := by
    rw [List.set_append_right _ _ (Nat.le_refl _), Nat.sub_self, List.set_cons_zero]
  unfold arpUpdateTable
  dsimp only
  rw [ht]
  rcases arpScan_of_replaces h with hha | ⟨hha, holdest⟩
  · rw [hha]
    exact congrArg (fun t => { s with arpTable := t }) hset
  · rw [hha, holdest]
    exact congrArg (fun t => { s with arpTable := t }) hset

theorem arpUpdateTable_of_none (s : Stack) {ha : Mac} (pa : Ip) (h : ∀ x ∈ s.arpTable, x.ha ≠ ha ∧ x.age s.now ≤ 0) :
    arpUpdateTable ha pa s = s := by
  unfold arpUpdateTable
  rw [arpScan_of_none h]
  rfl

/-! ## Lookups -/

/-- The first entry with a protocol address. -/
def holder (pa : Ip) (t : List ArpEntry) : Option ArpEntry := t.find? fun e => decide (e.pa = pa)

theorem holder_append (pa : Ip) (before : List ArpEntry) (e : ArpEntry) (behind : List ArpEntry) :
    holder pa (before ++ e :: behind) =
      (holder pa before).or (if e.pa = pa then some e else holder pa behind) := by
  unfold holder
  rw [List.find?_append, List.find?_cons]
  by_cases h : e.pa = pa
  · rw [decide_eq_true h, if_pos h]
  · rw [decide_eq_false h, if_neg h]

/-- The hardware address that `TCPIPArpTable_GetHWAddr` gives. -/
def arpLookup (pa : Ip) (s : Stack) : Option Mac := (arpTableGetHWAddr pa s).map Prod.fst

theorem arpLookup_eq (pa : Ip) (s : Stack) : arpLookup pa s = (holder pa s.arpTable).map ArpEntry.ha := by
  unfold arpLookup arpTableGetHWAddr holder
  rw [List.find?_eq_bind_findIdx?_getElem?]
  cases hi : s.arpTable.findIdx? fun e => decide (e.pa = pa) with
  | none => rfl
  | some i =>
      dsimp only [Option.bind_some]
      rw [Option.map_map]
      rfl

/-- What lookups compare, and what they give. -/
def ArpEntry.key (e : ArpEntry) : Ip × Mac := (e.pa, e.ha)

theorem arpLookup_eq_of_key {s s' : Stack} (h : s'.arpTable.map ArpEntry.key = s.arpTable.map ArpEntry.key) (pa : Ip) :
    arpLookup pa s' = arpLookup pa s := by
  have hkey (t : List ArpEntry) :
      (holder pa t).map ArpEntry.ha = ((t.map ArpEntry.key).find? fun k => decide (k.1 = pa)).map Prod.snd := by
    rw [List.find?_map, Option.map_map]
    rfl
  rw [arpLookup_eq, arpLookup_eq, hkey, hkey, h]

/-- A lookup sets no more than the time of an entry. -/
theorem arpTableGetHWAddr_key {pa : Ip} {s s' : Stack} {ha : Mac} (h : arpTableGetHWAddr pa s = some (ha, s')) :
    s'.arpTable.map ArpEntry.key = s.arpTable.map ArpEntry.key := by
  unfold arpTableGetHWAddr at h
  cases hi : s.arpTable.findIdx? fun e => decide (e.pa = pa) with
  | none => simp [hi] at h
  | some i =>
      rw [hi] at h
      obtain ⟨e, he, heq⟩ := Option.map_eq_some_iff.1 h
      obtain ⟨rfl, rfl⟩ := Prod.mk.inj heq
      obtain ⟨hlt, rfl⟩ := List.getElem?_eq_some_iff.1 he
      have hlt' : i < (s.arpTable.map ArpEntry.key).length := (List.length_map ..).symm ▸ hlt
      have hsame : ArpEntry.key { s.arpTable[i] with ts := s.now } = (s.arpTable.map ArpEntry.key)[i] := by
        rw [List.getElem_map]
        rfl
      rw [List.map_set, hsame, List.set_getElem_self]

/-! ## Runs -/

namespace ArpTable

/-- The stack, with the hardware address of the latest update for each protocol address. -/
structure Node where
  stack : Stack
  latest : Ip → Option Mac

/-- The calls, with the reading of the clock. -/
inductive Event where
  | update (now : BitVec 32) (ha : Mac) (pa : Ip)
  | lookup (now : BitVec 32) (pa : Ip)
  | reset

def Node.step (n : Node) : Event → Option Node
  | .update now ha pa =>
    some ⟨arpUpdateTable ha pa { n.stack with now := now }, Function.update n.latest pa (some ha)⟩
  | .lookup now pa =>
    some ⟨((arpTableGetHWAddr pa { n.stack with now := now }).map Prod.snd).getD { n.stack with now := now }, n.latest⟩
  | .reset => some ⟨{ n.stack with arpTable := emptyTable }, fun _ => none⟩

/-- After a reset. -/
def Node.start (s : Stack) : Node := ⟨{ s with arpTable := emptyTable }, fun _ => none⟩

/-- Lookups leave the addresses as they are. -/
theorem key_lookup {n n' : Node} {now : BitVec 32} {pa : Ip} (h : n.step (.lookup now pa) = some n') :
    n'.stack.arpTable.map ArpEntry.key = n.stack.arpTable.map ArpEntry.key ∧ n'.latest = n.latest := by
  obtain rfl := Option.some.inj h
  refine ⟨?_, rfl⟩
  dsimp only
  cases hfound : arpTableGetHWAddr pa { n.stack with now := now } with
  | none => rfl
  | some found =>
      have hkey := arpTableGetHWAddr_key hfound
      exact hkey

/-! ## Where updates write -/

/-- An update writes to an entry of the table. -/
def WritesInside (n : Node) (e : Event) (_ : Node) : Prop :=
  ∀ now ha pa, e = .update now ha pa →
    0 ≤ arpUpdateId now ha n.stack.arpTable ∧ arpUpdateId now ha n.stack.arpTable ≤ (arpTableSize : Int) - 1

/-- At an update, an entry has the hardware address, or was touched in the last `2 ^ 31 - 1` milliseconds, and before this
one. -/
def Qualifies (n : Node) : Event → Prop
  | .update now ha _ => ∃ x ∈ n.stack.arpTable, x.ha = ha ∨ 0 < x.age now
  | .lookup .. | .reset => True

theorem length_step {n n' : Node} {e : Event} (h : n.step e = some n') (hn : n.stack.arpTable.length = arpTableSize) :
    n'.stack.arpTable.length = arpTableSize := by
  cases e with
  | update now ha pa =>
      obtain rfl := Option.some.inj h
      rw [← hn]
      dsimp only [arpUpdateTable]
      split
      · exact List.length_set ..
      · rfl
  | lookup now pa =>
      have hlen := congrArg List.length (key_lookup h).1
      rw [List.length_map, List.length_map] at hlen
      exact hlen.trans hn
  | reset =>
      obtain rfl := Option.some.inj h
      exact List.length_replicate ..

theorem writesInside_step {n n' : Node} {e : Event} (hn : n.stack.arpTable.length = arpTableSize) :
    WritesInside n e n' ↔ Qualifies n e := by
  cases e with
  | update now ha pa =>
      have hevent : WritesInside n (.update now ha pa) n' ↔
          0 ≤ arpUpdateId now ha n.stack.arpTable ∧ arpUpdateId now ha n.stack.arpTable ≤ (arpTableSize : Int) - 1 := by
        refine ⟨fun h => h now ha pa rfl, fun h now' ha' pa' heq => ?_⟩
        obtain ⟨rfl, rfl, -⟩ := Event.update.inj heq
        exact h
      rw [hevent]
      rcases exists_replaces_or now ha n.stack.arpTable with ⟨before, e, behind, ht, hrep⟩ | hnone
      · rw [ht, List.length_append, List.length_cons] at hn
        rw [ht, arpUpdateId_of_replaces hrep]
        refine iff_of_true ⟨Int.natCast_nonneg _, by omega⟩ ⟨e, ?_, ?_⟩
        · rw [ht]
          exact List.mem_append_right _ List.mem_cons_self
        · exact hrep.imp And.left fun h => h.2.1
      · rw [arpUpdateId_of_none hnone]
        refine iff_of_false (fun h => absurd h.1 (by decide)) ?_
        rintro ⟨x, hx, hha | hage⟩
        · exact (hnone x hx).1 hha
        · exact absurd hage (Int.not_lt.2 (hnone x hx).2)
  | lookup now pa => exact iff_of_true (fun _ _ _ h => nomatch h) True.intro
  | reset => exact iff_of_true (fun _ _ _ h => nomatch h) True.intro

theorem writesInside_iff (s : Stack) (es : List Event) :
    Along Node.step WritesInside (.start s) es ↔ Meets Node.step Qualifies (.start s) es := by
  refine along_iff_meets (I := fun n => n.stack.arpTable.length = arpTableSize) ?_ ?_ (List.length_replicate ..)
  · intro n e _ hnone
    cases e <;> exact nomatch hnone
  · intro n e n' hn h
    exact ⟨writesInside_step hn, fun _ => length_step h hn⟩

/-- Empty entries, which have the time 0, are of no age when the clock reads `2 ^ 31`. -/
theorem not_writesInside_late : ¬ Along Node.step WritesInside (.start idleStack) [.update 0x80000000 0x020000000001 0xc0a83201] := by
  intro h
  have hwrites := (h _ rfl).1 _ _ _ rfl
  exact absurd hwrites.1 (by decide)

/-! ## What lookups give -/

/-- A lookup gives, if anything, the hardware address of the latest update. -/
def Node.AnswersLatest (pa : Ip) (n : Node) : Prop := ∀ ha, arpLookup pa n.stack = some ha → n.latest pa = some ha

/-- So it does after the step, and right after an update it gives the address of that. -/
def Newest (pa : Ip) (_ : Node) (e : Event) (n' : Node) : Prop :=
  (∀ now ha, e = .update now ha pa → arpLookup pa n'.stack = some ha) ∧ n'.AnswersLatest pa

/-- In every run after a reset. -/
def ServesNewest (pa : Ip) (s : Stack) (es : List Event) : Prop :=
  (Node.start s).AnswersLatest pa ∧ Along Node.step (Newest pa) (.start s) es

/-- An update for `pa` replaces an entry, and none before it holds `pa` for another host. An update for another address
does not replace the first of two entries that hold `pa` for different hosts. -/
def Settles (pa : Ip) (n : Node) : Event → Prop
  | .update now ha pa' =>
    if pa' = pa then
      ∃ before e behind, n.stack.arpTable = before ++ e :: behind ∧ Replaces now ha before e behind ∧
        ∀ x, holder pa before = some x → x.ha = ha
    else
      ∀ before e behind, n.stack.arpTable = before ++ e :: behind → Replaces now ha before e behind → e.pa = pa →
        holder pa before = none → ∀ x, holder pa behind = some x → x.ha = e.ha
  | .lookup .. | .reset => True

theorem arpLookup_of_split {s : Stack} {before behind : List ArpEntry} {e : ArpEntry} (ht : s.arpTable = before ++ e :: behind)
    (pa : Ip) :
    arpLookup pa s = ((holder pa before).or (if e.pa = pa then some e else holder pa behind)).map ArpEntry.ha := by
  rw [arpLookup_eq, ht, holder_append]

/-- The update of the address itself. -/
theorem newest_update_self {pa : Ip} {n : Node} {now : BitVec 32} {ha : Mac} {n' : Node}
    (h : n.step (.update now ha pa) = some n') :
    Newest pa n (.update now ha pa) n' ↔ Settles pa n (.update now ha pa) := by
  obtain rfl := Option.some.inj h
  rw [Settles, if_pos rfl]
  have hlatest : Function.update n.latest pa (some ha) pa = some ha := Function.update_self ..
  have hevent : Newest pa n (.update now ha pa) ⟨arpUpdateTable ha pa { n.stack with now := now },
      Function.update n.latest pa (some ha)⟩ ↔ arpLookup pa (arpUpdateTable ha pa { n.stack with now := now }) = some ha := by
    refine ⟨fun h => h.1 now ha rfl, fun h => ⟨?_, fun ha' hlookup => ?_⟩⟩
    · intro now' ha' heq
      obtain ⟨-, rfl, -⟩ := Event.update.inj heq
      exact h
    · exact hlatest.trans (h.symm.trans hlookup)
  rw [hevent]
  have hsplit {before behind : List ArpEntry} {e : ArpEntry} (ht : n.stack.arpTable = before ++ e :: behind)
      (hrep : Replaces now ha before e behind) :
      arpLookup pa (arpUpdateTable ha pa { n.stack with now := now }) = some ha ↔
        ∀ x, holder pa before = some x → x.ha = ha := by
    rw [arpUpdateTable_of_replaces { n.stack with now := now } pa ht hrep, arpLookup_of_split rfl, if_pos rfl]
    cases holder pa before with
    | none => exact iff_of_true rfl fun x hx => nomatch hx
    | some y => exact ⟨fun h x hx => Option.some.inj hx ▸ Option.some.inj h, fun h => congrArg some (h y rfl)⟩
  constructor
  · intro hlookup
    rcases exists_replaces_or now ha n.stack.arpTable with ⟨before, e, behind, ht, hrep⟩ | hnone
    · exact ⟨before, e, behind, ht, hrep, (hsplit ht hrep).1 hlookup⟩
    · -- nothing is written, and no entry has the hardware address
      rw [arpUpdateTable_of_none { n.stack with now := now } pa hnone, arpLookup_eq] at hlookup
      obtain ⟨x, hx, hha⟩ := Option.map_eq_some_iff.1 hlookup
      exact absurd hha (hnone x (List.mem_of_find?_eq_some hx)).1
  · rintro ⟨before, e, behind, ht, hrep, hbefore⟩
    exact (hsplit ht hrep).2 hbefore

/-- The update of another address. -/
theorem newest_update_other {pa pa' : Ip} {n : Node} {now : BitVec 32} {ha : Mac} {n' : Node} (hne : pa' ≠ pa)
    (hn : n.AnswersLatest pa) (h : n.step (.update now ha pa') = some n') :
    Newest pa n (.update now ha pa') n' ↔ Settles pa n (.update now ha pa') := by
  obtain rfl := Option.some.inj h
  rw [Settles, if_neg hne]
  have hlatest : Function.update n.latest pa' (some ha) pa = n.latest pa := Function.update_of_ne (Ne.symm hne) ..
  have hevent : Newest pa n (.update now ha pa') ⟨arpUpdateTable ha pa' { n.stack with now := now },
      Function.update n.latest pa' (some ha)⟩ ↔
        ∀ ha', arpLookup pa (arpUpdateTable ha pa' { n.stack with now := now }) = some ha' → n.latest pa = some ha' := by
    rw [← hlatest]
    exact ⟨And.right, fun h => ⟨fun _ _ heq => absurd (Event.update.inj heq).2.2 hne, h⟩⟩
  rw [hevent]
  have hsplit {before behind : List ArpEntry} {e : ArpEntry} (ht : n.stack.arpTable = before ++ e :: behind)
      (hrep : Replaces now ha before e behind) :
      arpLookup pa (arpUpdateTable ha pa' { n.stack with now := now }) =
        ((holder pa before).or (holder pa behind)).map ArpEntry.ha := by
    rw [arpUpdateTable_of_replaces { n.stack with now := now } pa' ht hrep, arpLookup_of_split rfl, if_neg hne]
  constructor
  · intro hserves before e behind ht hrep hpa hbefore x hx
    have hold : n.latest pa = some e.ha := by
      apply hn
      rw [arpLookup_of_split ht, hbefore, if_pos hpa]
      rfl
    have hnew : n.latest pa = some x.ha := by
      apply hserves
      rw [hsplit ht hrep, hbefore, hx]
      rfl
    exact Option.some.inj (hnew.symm.trans hold)
  · intro hsettles ha' hlookup
    rcases exists_replaces_or now ha n.stack.arpTable with ⟨before, e, behind, ht, hrep⟩ | hnone
    · rw [hsplit ht hrep] at hlookup
      cases hbefore : holder pa before with
      | some y =>
          apply hn
          rw [arpLookup_of_split ht, hbefore]
          rwa [hbefore] at hlookup
      | none =>
          rw [hbefore, Option.none_or] at hlookup
          obtain ⟨x, hx, rfl⟩ := Option.map_eq_some_iff.1 hlookup
          apply hn
          rw [arpLookup_of_split ht, hbefore, Option.none_or]
          by_cases hpa : e.pa = pa
          · rw [if_pos hpa, Option.map_some, hsettles before e behind ht hrep hpa hbefore x hx]
          · rw [if_neg hpa, hx, Option.map_some]
    · rw [arpUpdateTable_of_none { n.stack with now := now } pa' hnone] at hlookup
      have hsame : arpLookup pa { n.stack with now := now } = arpLookup pa n.stack := by
        rw [arpLookup_eq, arpLookup_eq]
      exact hn ha' (hsame.symm.trans hlookup)

theorem answersLatest_of_empty {pa : Ip} (hpa : pa ≠ 0) {n : Node} (hn : n.stack.arpTable = emptyTable) :
    n.AnswersLatest pa := by
  intro ha hlookup
  rw [arpLookup_eq, hn] at hlookup
  obtain ⟨x, hx, -⟩ := Option.map_eq_some_iff.1 hlookup
  obtain rfl := List.eq_of_mem_replicate (List.mem_of_find?_eq_some hx)
  exact absurd (of_decide_eq_true (List.find?_some (p := fun e : ArpEntry => decide (e.pa = pa)) hx)).symm hpa

theorem newest_step {pa : Ip} (hpa : pa ≠ 0) {n n' : Node} {e : Event} (hn : n.AnswersLatest pa) (h : n.step e = some n') :
    Newest pa n e n' ↔ Settles pa n e := by
  cases e with
  | update now ha pa' =>
      by_cases heq : pa' = pa
      · subst heq
        exact newest_update_self h
      · exact newest_update_other heq hn h
  | lookup now pa' =>
      obtain ⟨hkey, hlatest⟩ := key_lookup h
      refine iff_of_true ⟨fun _ _ h => (nomatch h), fun ha hlookup => ?_⟩ True.intro
      rw [hlatest]
      exact hn ha ((arpLookup_eq_of_key hkey pa).symm.trans hlookup)
  | reset =>
      obtain rfl := Option.some.inj h
      exact iff_of_true ⟨fun _ _ h => (nomatch h), answersLatest_of_empty hpa rfl⟩ True.intro

theorem servesNewest_iff (pa : Ip) (s : Stack) (es : List Event) :
    ServesNewest pa s es ↔ pa ≠ 0 ∧ Meets Node.step (Settles pa) (.start s) es := by
  by_cases hpa : pa = 0
  · subst hpa
    -- an empty entry holds 0.0.0.0, which was never updated
    exact iff_of_false (fun h => nomatch h.1 0 rfl) fun h => h.1 rfl
  · have hstart : (Node.start s).AnswersLatest pa := answersLatest_of_empty hpa rfl
    unfold ServesNewest
    rw [and_iff_right hstart, and_iff_right hpa]
    refine along_iff_meets (I := Node.AnswersLatest pa) ?_ ?_ hstart
    · intro n e _ hnone
      cases e <;> exact nomatch hnone
    · intro n e n' hn h
      exact ⟨newest_step hpa hn h, fun hg => ((newest_step hpa hn h).2 hg).2⟩

/-- The address moves to a second host, the table has both, and the first one is found. -/
theorem not_servesNewest_moved :
    ¬ ServesNewest 0xc0a83201 idleStack
      [.update 1 0x020000000001 0xc0a83201, .update 2 0x020000000002 0xc0a83201] := by
  intro h
  have hmoved := ((h.2 _ rfl).2 _ rfl).1.1 2 0x020000000002 rfl
  exact absurd hmoved (by decide)

end ArpTable

end YieldStm32.TCPIP
