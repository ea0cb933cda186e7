import Mathlib.Data.List.Range
import Mathlib.Data.List.TakeWhile
import YieldStm32.Lib.Ring
import YieldStm32.Net.Mdns.Frame

/-!
# The room that `MDNSFrame_EncodeName` takes

`dst_size` is counted down for the bytes of the labels, and not for the bytes that say how long they are: behind `j` labels
it is `j` too large.

* `labels` : the labels of a name, with a principle of induction;
* `pass_spec` : what a pass does with a label;
* `Fits` : the names for which the destination is not left;
* `respects_iff` : no other name is encoded as it should be.
-/

namespace YieldStm32.Mdns

open Loop Ring

/-! ## Labels -/

/-- What the dots of a name separate; nothing behind the last dot is no label. -/
def labels : List UInt8 → List (List UInt8)
  | [] => []
  | c :: s =>
      if c = dot then [] :: labels s
      else
        match labels s with
        | [] => [[c]]
        | l :: ls => (c :: l) :: ls

variable {l r name : List UInt8}

/-- The first label, and the dot behind it with the rest of the name. -/
theorem labels_append (hl : dot ∉ l) (hr : ∀ c ∈ r.head?, c = dot) (hne : l ++ r ≠ []) :
    labels (l ++ r) = l :: labels r.tail := by
  induction l with
  | nil =>
      cases r with
      | nil => exact absurd rfl hne
      | cons c s =>
          rw [List.nil_append, labels, if_pos (hr c rfl)]
          rfl
  | cons c l ih =>
      rw [List.mem_cons, not_or] at hl
      rw [List.cons_append, labels, if_neg (Ne.symm hl.1)]
      by_cases hnil : l ++ r = []
      · obtain ⟨rfl, rfl⟩ := List.append_eq_nil_iff.1 hnil
        rfl
      · rw [ih hl.2 hnil]

theorem exists_append (name : List UInt8) : ∃ l r, name = l ++ r ∧ dot ∉ l ∧ ∀ c ∈ r.head?, c = dot := by
  induction name with
  | nil => exact ⟨[], [], rfl, List.not_mem_nil, fun c hc => by cases hc⟩
  | cons c s ih =>
      by_cases hc : c = dot
      · exact ⟨[], c :: s, rfl, List.not_mem_nil, fun c' hc' => by cases hc'; exact hc⟩
      · obtain ⟨l, r, rfl, hl, hr⟩ := ih
        exact ⟨c :: l, r, rfl, List.not_mem_cons_of_ne_of_not_mem (Ne.symm hc) hl, hr⟩

/-- Induction over the labels of a name. -/
theorem labels_induction {P : List UInt8 → Prop} (nil : P [])
    (label : ∀ l r, dot ∉ l → (∀ c ∈ r.head?, c = dot) → l ++ r ≠ [] → P r.tail → P (l ++ r)) (name : List UInt8) : P name := by
  induction hn : name.length using Nat.strong_induction_on generalizing name with
  | _ n ih =>
      by_cases hne : name = []
      · rw [hne]
        exact nil
      · have hpos := List.length_pos_iff.2 hne
        obtain ⟨l, r, rfl, hl, hr⟩ := exists_append name
        rw [List.length_append] at hn hpos
        refine label l r hl hr hne (ih r.tail.length ?_ r.tail rfl)
        rw [List.length_tail]
        omega

/-! ## Copying a label -/

namespace Encoder

/-- `n` bytes of the name are copied. -/
def copied (e : Encoder) (dl n : Nat) : Encoder :=
  { e with
    s := e.s.drop n
    dst := copyIn e.dst dl (e.s.take n)
    dstSize := e.dstSize - n
    log := e.log ++ List.range' dl n }

variable {e : Encoder}

theorem copied_zero (e : Encoder) (dl : Nat) : e.copied dl 0 = e := by
  unfold copied
  rw [List.take_zero, copyIn_nil, List.range'_zero, List.append_nil]
  rfl

theorem copied_succ {c : UInt8} {s : List UInt8} (hs : e.s = c :: s) (dl n : Nat) :
    ({ e.write dl c with s := s, dstSize := e.dstSize - 1 } : Encoder).copied (dl + 1) n = e.copied dl (n + 1) := by
  unfold copied write
  dsimp only
  rw [hs, List.drop_succ_cons, List.take_succ_cons, copyIn_update, List.range'_succ, List.append_assoc, Nat.sub_sub,
    Nat.add_comm 1 n]
  rfl

/-- As many bytes of the label are copied as there is room for, one byte apart. -/
theorem copy_eq (hzero : 0 ∉ l) (hl : dot ∉ l) (hr : ∀ c ∈ r.head?, c = dot) (dl : Nat) (hs : e.s = l ++ r) :
    copy (l ++ r) dl e = (dl + min l.length (e.dstSize - 1), e.copied dl (min l.length (e.dstSize - 1))) := by
  induction l generalizing e dl with
  | nil =>
      rw [List.length_nil, Nat.zero_min, copied_zero, List.nil_append]
      cases r with
      | nil => rfl
      | cons c s =>
          rw [copy, if_neg fun h => h.2.1 (hr c rfl)]
          rfl
  | cons c l ih =>
      rw [List.mem_cons, not_or] at hzero hl
      rw [List.cons_append, copy]
      by_cases hroom : e.dstSize - 1 = 0
      · rw [if_neg fun h => h.2.2 hroom, hroom, Nat.min_zero, copied_zero]
        rfl
      · have hmin : min (c :: l).length (e.dstSize - 1) = min l.length (e.dstSize - 1 - 1) + 1 := by
          rw [List.length_cons]
          omega
        rw [if_pos ⟨Ne.symm hzero.1, Ne.symm hl.1, hroom⟩, hmin]
        refine (ih hzero.2 hl.2 (dl + 1) rfl).trans (Prod.ext ?_ (copied_succ hs dl _))
        exact Nat.add_right_comm dl 1 _

/-! ## One pass -/

/-- A label is encoded. -/
def labelled (e : Encoder) (l r : List UInt8) : Encoder :=
  { e with
    s := r.tail
    d := e.d + (l.length + 1)
    dst := copyIn e.dst e.d (UInt8.ofNat l.length :: l)
    dstSize := e.dstSize - l.length
    log := e.log ++ List.range' (e.d + 1) l.length ++ [e.d] }

/-- What a pass does with a label `l` that `r` follows. -/
inductive Encodes (l r : List UInt8) (e : Encoder) : Option Int → Encoder → Prop
  | full (hroom : e.dstSize = 0) : Encodes l r e (some efatal) e
  | cut (n : Nat) (hn : n < l.length) (hroom : e.dstSize = n + 1) : Encodes l r e (some efatal) (e.copied (e.d + 1) n)
  | bad (hl : l.length = 0 ∨ 63 < l.length) (hroom : l.length < e.dstSize) :
      Encodes l r e (some efatal) (e.copied (e.d + 1) l.length)
  | label (hpos : 0 < l.length) (hl : l.length ≤ 63) (hroom : l.length < e.dstSize) : Encodes l r e none (e.labelled l r)

/-- Behind a label there is the end of the name or a dot. -/
theorem headD_eq_zero_iff (hr : ∀ c ∈ r.head?, c = dot) : r.headD 0 = 0 ↔ r = [] := by
  cases r with
  | nil => exact ⟨fun _ => rfl, fun _ => rfl⟩
  | cons c s => exact ⟨fun h => absurd ((hr c rfl).symm.trans h) (by decide), fun h => by cases h⟩

theorem char_copied (e : Encoder) (dl n : Nat) : (e.copied dl n).char = e.s[n]?.getD 0 := by
  unfold char copied
  rw [List.headD_eq_head?_getD, List.head?_drop]

/-- The length of the label is written, and the dot skipped. -/
theorem labelled_eq (hr : ∀ c ∈ r.head?, c = dot) (hs : e.s = l ++ r) :
    (let e' := { (e.copied (e.d + 1) l.length).write e.d (UInt8.ofNat (l.length + 1 - 1)) with d := e.d + 1 + l.length }
      if e'.char ≠ 0 then { e' with s := e'.s.tail } else e') = e.labelled l r := by
  have htake : (l ++ r).take l.length = l := List.take_left
  have hdrop : (l ++ r).drop l.length = r := List.drop_left
  unfold copied write char labelled
  dsimp only
  rw [hs, htake, hdrop, update_copyIn, Nat.add_assoc, Nat.add_comm 1]
  cases r with
  | nil => rfl
  | cons c s =>
      have hc : c ≠ 0 := by
        rw [hr c rfl]
        decide
      exact if_pos hc

theorem pass_spec (hzero : 0 ∉ l) (hl : dot ∉ l) (hr : ∀ c ∈ r.head?, c = dot) (hne : l ++ r ≠ []) (hs : e.s = l ++ r) :
    Encodes l r e (pass e).1 (pass e).2 := by
  have hchar : e.char ≠ 0 := by
    unfold char
    rw [hs]
    cases l with
    | cons c l =>
        intro h
        rw [show c = 0 from h] at hzero
        exact hzero List.mem_cons_self
    | nil =>
        cases r with
        | nil => exact absurd rfl hne
        | cons c s => exact fun h => by cases (headD_eq_zero_iff hr).1 h
  unfold pass
  rw [if_neg hchar]
  by_cases hroom : e.dstSize < 1
  · rw [if_pos hroom]
    exact .full (by omega)
  · rw [if_neg hroom, hs, copy_eq hzero hl hr (e.d + 1) hs]
    dsimp only
    rcases Nat.lt_or_ge (e.dstSize - 1) l.length with hcut | hfits
    · rw [Nat.min_eq_right hcut.le]
      have hmem : (e.copied (e.d + 1) (e.dstSize - 1)).char ∈ l := by
        rw [char_copied, hs, List.getElem?_append_left hcut, List.getElem?_eq_getElem hcut]
        exact List.getElem_mem hcut
      rw [if_pos (Or.inl ⟨fun h => hzero (h ▸ hmem), fun h => hl (h ▸ hmem)⟩)]
      exact .cut _ hcut (by omega)
    · rw [Nat.min_eq_left hfits]
      have hnext : (e.copied (e.d + 1) l.length).char = r.headD 0 := by
        rw [char_copied, hs, List.getElem?_append_right (Nat.le_refl _), Nat.sub_self, ← List.head?_eq_getElem?,
          List.headD_eq_head?_getD]
      have hd : e.d + 1 + l.length - (e.copied (e.d + 1) l.length).d = l.length + 1 := by
        show e.d + 1 + l.length - e.d = l.length + 1
        omega
      rw [hd, hnext]
      have hend : r.headD 0 = 0 ∨ r.headD 0 = dot := by
        cases r with
        | nil => exact Or.inl rfl
        | cons c s => exact Or.inr (hr c rfl)
      by_cases hbad : l.length = 0 ∨ 63 < l.length
      · rw [if_pos ?_]
        · exact .bad hbad (by omega)
        · rcases hbad with hbad | hbad
          · refine Or.inr (Or.inr ⟨fun h => ?_, by omega⟩)
            exact hne (List.append_eq_nil_iff.2 ⟨List.length_eq_zero_iff.1 hbad, (headD_eq_zero_iff hr).1 h⟩)
          · exact Or.inr (Or.inl (by omega))
      · rw [if_neg ?_]
        · have hlabelled : Encodes l r e none (e.labelled l r) := .label (by omega) (by omega) (by omega)
          rw [← labelled_eq hr hs] at hlabelled
          exact hlabelled
        · rintro (⟨h, h'⟩ | h | ⟨-, h⟩)
          · exact hend.elim h h'
          · omega
          · omega

theorem encodes_of_eq {o : Option Int} {e' : Encoder} (hzero : 0 ∉ l) (hl : dot ∉ l) (hr : ∀ c ∈ r.head?, c = dot)
    (hne : l ++ r ≠ []) (hs : e.s = l ++ r) (h : pass e = (o, e')) : Encodes l r e o e' := by
  have hspec := pass_spec hzero hl hr hne hs
  rw [h] at hspec
  exact hspec

theorem not_mem_tail (h : 0 ∉ l ++ r) : (0 : UInt8) ∉ r.tail := fun hmem =>
  h (List.mem_append_right l (List.mem_of_mem_tail hmem))

/-- Behind the last label. -/
theorem pass_nil (hs : e.s = []) :
    pass e = if e.dstSize = 0 then (some efatal, e) else (some (e.d + 1), e.write e.d 0) := by
  have hchar : e.char = 0 := by
    unfold char
    rw [hs]
    rfl
  unfold pass
  rw [if_pos hchar]

/-! ## What is written -/

/-- The loop ends, and what was written before stays written. -/
theorem passes_of_not_mem (hname : 0 ∉ name) (hs : e.s = name) :
    ∃ ec e', passes pass (name.length + 1) e = (some ec, e') ∧ ∀ i ∈ e.log, i ∈ e'.log := by
  induction name using labels_induction generalizing e with
  | nil =>
      have h := pass_nil hs
      split at h
      · exact ⟨_, _, passes_of_ends 0 h, fun _ hi => hi⟩
      · exact ⟨_, _, passes_of_ends 0 h, fun _ hi => List.mem_append_left _ hi⟩
  | label l r hl hr hne ih =>
      obtain ⟨o, e', h⟩ : ∃ o e', pass e = (o, e') := ⟨_, _, rfl⟩
      cases encodes_of_eq (fun h => hname (List.mem_append_left r h)) hl hr hne hs h with
      | full => exact ⟨_, _, passes_of_ends _ h, fun _ hi => hi⟩
      | cut => exact ⟨_, _, passes_of_ends _ h, fun _ hi => List.mem_append_left _ hi⟩
      | bad => exact ⟨_, _, passes_of_ends _ h, fun _ hi => List.mem_append_left _ hi⟩
      | label hpos =>
          obtain ⟨ec, e', hpasses, hlog⟩ := ih (e := e.labelled l r) (not_mem_tail hname) rfl
          have hle : r.tail.length + 1 ≤ (l ++ r).length := by
            rw [List.length_tail, List.length_append]
            omega
          exact ⟨ec, e', (passes_of_goes _ h).trans (passes_mono hle hpasses),
            fun i hi => hlog i (List.mem_append_left _ (List.mem_append_left _ hi))⟩

/-- Nothing outside of the destination has been written, and the value that is returned, if it is no error, is the number of
bytes that were. -/
structure Kept (n : Nat) (ec : Int) (e : Encoder) : Prop where
  inside : ∀ i ∈ e.log, i < n
  count : e.log.length ≤ n
  value : 0 ≤ ec → ec = e.log.length ∧ ec ≤ n

/-- The bytes before `n` have been written. -/
def Filled (log : List Nat) (n : Nat) : Prop := log.Perm (List.range n)

theorem Filled.append {log : List Nat} {n : Nat} (h : Filled log n) (k : Nat) :
    Filled (log ++ List.range' n k) (n + k) := by
  unfold Filled at h ⊢
  rw [List.range_eq_range'] at h ⊢
  have happend := @List.range'_append_1 0 n k
  rw [Nat.zero_add] at happend
  rw [← happend]
  exact h.append_right _

theorem Filled.lt_iff {log : List Nat} {n : Nat} (h : Filled log n) (i : Nat) : i ∈ log ↔ i < n := by
  rw [h.mem_iff, List.mem_range]

theorem Filled.length {log : List Nat} {n : Nat} (h : Filled log n) : log.length = n := by
  rw [h.length_eq, List.length_range]

/-- Bytes of a label that were copied before an error. -/
theorem kept_copied_iff {n k : Nat} (hfilled : Filled e.log e.d) (hd : e.d ≤ n) :
    Kept n efatal (e.copied (e.d + 1) k) ↔ k = 0 ∨ e.d + k < n := by
  have hlen : (e.log ++ List.range' (e.d + 1) k).length = e.d + k := by
    rw [List.length_append, hfilled.length, List.length_range']
  constructor
  · intro h
    by_cases hk : k = 0
    · exact Or.inl hk
    · refine Or.inr (h.inside _ (List.mem_append_right _ (List.mem_range'_1.2 ?_)))
      omega
  · intro h
    refine ⟨fun i hi => ?_, ?_, fun hec => absurd hec (by decide)⟩
    · rcases List.mem_append.1 hi with hi | hi
      · exact ((hfilled.lt_iff i).1 hi).trans_le hd
      · rw [List.mem_range'_1] at hi
        omega
    · unfold copied
      dsimp only
      omega

theorem kept_of_filled {n : Nat} (hfilled : Filled e.log e.d) (hd : e.d ≤ n) : Kept n efatal e :=
  ⟨fun i hi => ((hfilled.lt_iff i).1 hi).trans_le hd, hfilled.length.trans_le hd, fun hec => absurd hec (by decide)⟩

/-- The terminator. -/
theorem kept_write_iff {n : Nat} (hfilled : Filled e.log e.d) :
    Kept n (e.d + 1 : Nat) (e.write e.d 0) ↔ e.d + 1 ≤ n := by
  have hfilled' : Filled (e.write e.d 0).log (e.d + 1) := hfilled.append 1
  constructor
  · exact fun h => h.inside e.d ((hfilled'.lt_iff _).2 (Nat.lt_succ_self _))
  · intro h
    refine ⟨fun i hi => ((hfilled'.lt_iff i).1 hi).trans_le h, hfilled'.length.trans_le h, fun _ => ?_⟩
    rw [hfilled'.length]
    exact ⟨rfl, Int.ofNat_le.2 h⟩

theorem filled_labelled (hfilled : Filled e.log e.d) (l r : List UInt8) :
    Filled (e.labelled l r).log (e.labelled l r).d := by
  have h : Filled (e.log ++ List.range' e.d (l.length + 1)) (e.d + (l.length + 1)) := hfilled.append _
  refine List.Perm.trans ?_ h
  unfold labelled
  dsimp only
  rw [List.range'_succ, List.append_assoc]
  exact (List.perm_append_singleton e.d _).append_left _

end Encoder

/-- The names that are encoded in `n` bytes without leaving them, where `q` bytes hold the `j` labels before. -/
def Fits (n : Nat) : Nat → Nat → List (List UInt8) → Prop
  | _, q, [] => q + 1 ≤ n ∨ n = 0
  | j, q, l :: ls =>
      if q + (l.length + 1) ≤ n then l.length = 0 ∨ 63 < l.length ∨ Fits n (j + 1) (q + (l.length + 1)) ls
      else l.length = 0 ∨ j = 0 ∨ (j = 1 ∧ q = n)

namespace Encoder

variable {n : Nat} {e : Encoder}

/-- `dstSize` is `j` larger than what is left of `n` bytes. -/
theorem kept_iff_fits (j : Nat) (hname : 0 ∉ name) (hs : e.s = name) (hsize : e.dstSize + e.d = n + j) (hd : e.d ≤ n)
    (hfirst : j = 0 ↔ e.d = 0) (hfilled : Filled e.log e.d) :
    ∃ ec e', Returns pass e ec e' ∧ (Kept n ec e' ↔ Fits n j e.d (labels name)) := by
  induction name using labels_induction generalizing e j with
  | nil =>
      have h := pass_nil hs
      unfold labels Fits
      split at h
      · exact ⟨_, _, .of_ends h, iff_of_true (kept_of_filled hfilled hd) (by omega)⟩
      · refine ⟨_, _, .of_ends h, (kept_write_iff hfilled).trans ?_⟩
        omega
  | label l r hl hr hne ih =>
      rw [labels_append hl hr hne]
      unfold Fits
      obtain ⟨o, e', h⟩ : ∃ o e', pass e = (o, e') := ⟨_, _, rfl⟩
      cases encodes_of_eq (fun h => hname (List.mem_append_left r h)) hl hr hne hs h with
      | full hroom =>
          refine ⟨_, _, .of_ends h, iff_of_true (kept_of_filled hfilled hd) ?_⟩
          rw [if_neg (by omega)]
          omega
      | cut k hk hroom =>
          refine ⟨_, _, .of_ends h, (kept_copied_iff hfilled hd).trans ?_⟩
          rw [if_neg (by omega)]
          omega
      | bad hl hroom =>
          refine ⟨_, _, .of_ends h, (kept_copied_iff hfilled hd).trans ?_⟩
          split <;> omega
      | label hpos hl hroom =>
          have hfilled' := filled_labelled hfilled l r
          by_cases hfits : e.d + (l.length + 1) ≤ n
          · have hsize' : (e.labelled l r).dstSize + (e.labelled l r).d = n + (j + 1) := by
              show e.dstSize - l.length + (e.d + (l.length + 1)) = n + (j + 1)
              omega
            have hfirst' : j + 1 = 0 ↔ (e.labelled l r).d = 0 := by
              show j + 1 = 0 ↔ e.d + (l.length + 1) = 0
              omega
            obtain ⟨ec, e', hret, hiff⟩ := ih (j + 1) (not_mem_tail hname) rfl hsize' hfits hfirst' hfilled'
            refine ⟨ec, e', .of_goes h hret, hiff.trans ?_⟩
            rw [if_pos hfits]
            exact ⟨fun h => Or.inr (Or.inr h), fun h => (h.resolve_left (by omega)).resolve_left (by omega)⟩
          · -- the label is written over the end of the destination
            obtain ⟨ec, e', hpasses, hlog⟩ := passes_of_not_mem (e := e.labelled l r) (not_mem_tail hname) rfl
            refine ⟨ec, e', .of_goes h ⟨_, hpasses⟩, iff_of_false (fun hkept => hfits ?_) ?_⟩
            · have hlast : e.d + l.length ∈ (e.labelled l r).log := (hfilled'.lt_iff _).2 (Nat.lt_succ_self _)
              exact hkept.inside _ (hlog _ hlast)
            · rw [if_neg hfits]
              omega

end Encoder

/-- The name is encoded, or refused, in the bytes of the destination, and the value that is returned is their number. -/
def Respects (name : List UInt8) (dst : Nat → UInt8) (dstSize : Nat) : Prop :=
  ∃ k ec e, encodeName name dst dstSize k = (some ec, e) ∧ Encoder.Kept dstSize ec e

/-- **When the destination is respected.** -/
theorem respects_iff (name : List UInt8) (hname : 0 ∉ name) (dst : Nat → UInt8) (dstSize : Nat) :
    Respects name dst dstSize ↔ Fits dstSize 0 0 (labels name) := by
  obtain ⟨ec, e, hret, hiff⟩ := @Encoder.kept_iff_fits name dstSize (.start name dst dstSize) 0 hname rfl rfl
    (Nat.zero_le _) (iff_of_true rfl rfl) (List.Perm.refl _)
  refine Iff.trans ⟨?_, ?_⟩ hiff
  · rintro ⟨k, ec', e', h, hkept⟩
    obtain ⟨rfl, rfl⟩ := hret.unique ⟨k, h⟩
    exact hkept
  · obtain ⟨k, hk⟩ := hret
    exact fun hkept => ⟨k, ec, e, hk, hkept⟩

/-- `ab.c` in 6 bytes -/
theorem respects_six : Respects [97, 98, 46, 99] (fun _ => 0) 6 := by
  refine (respects_iff [97, 98, 46, 99] (by decide) (fun _ => 0) 6).2 ?_
  have hlabels : labels [97, 98, 46, 99] = [[97, 98], [99]] := by decide
  rw [hlabels]
  simp [Fits]

/-- `ab.c` in 4 bytes: 6 bytes are written. -/
theorem not_respects_four : ¬ Respects [97, 98, 46, 99] (fun _ => 0) 4 := by
  rintro ⟨k, ec, e, h, hkept⟩
  have hrun : encodeName [97, 98, 46, 99] (fun _ => 0) 4 3 =
    (some 6, (encodeName [97, 98, 46, 99] (fun _ => 0) 4 3).2) := rfl
  obtain ⟨-, rfl⟩ := Returns.unique ⟨k, h⟩ ⟨3, hrun⟩
  exact absurd hkept.count (by decide)

end YieldStm32.Mdns
