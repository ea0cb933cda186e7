import YieldStm32.Util.Print

/-!
# The buffer of `vsnprintf`

The printers of characters, strings and integers cut what they print to the bytes that are left (an integer only as long as
its lengths are no larger than an `int`); a floating point number with a width is printed up to that width. A `%%` counts
one byte down where none is left.

* `Item` : what a format consists of, once the arguments are fetched; its complete length is `Item.length`;
* `Conversion.print_spec` : what a conversion writes, by whether it fits;
* `Keeps` : the formats and arguments for which the buffer is kept;
* `inside_iff_keeps` : no others.
-/

namespace YieldStm32.Stdio

/-! ## Items -/

/-- A character, or a specifier with its arguments. -/
inductive Item where
  | plain (c : UInt8)
  | spec (conversion : Conversion)

/-- What a format consists of. -/
def items (a : Args) (format : List UInt8) (i : Nat) : List Item :=
  match format with
  | [] => []
  | c :: format =>
      if c = 0 then []
      else if c ≠ 37 then .plain c :: items a format i
      else
        let spec := fsProcess format
        let fetched := a.fetch i spec.1
        .spec fetched.1 :: items a spec.2 fetched.2
termination_by format.length
decreasing_by
  · exact Nat.lt_succ_self _
  · exact Nat.lt_succ_of_le (fsProcess_suffix format).length_le

/-- The loop of `vsnprintf`, over items. -/
def printItems : List Item → List (Option UInt8) → Nat → List (Option UInt8)
  | [], out, _ => out
  | .plain c :: items, out, size => printItems items (out ++ printPlain size c) (size - 1)
  | .spec conversion :: items, out, size =>
      let cells := conversion.print size
      printItems items (out ++ cells) (toSize ((size : Int) - cells.length))

theorem printLoop_eq (a : Args) (format : List UInt8) (out : List (Option UInt8)) (size i : Nat) :
    printLoop a format out size i = printItems (items a format i) out size := by
  induction hn : format.length using Nat.strong_induction_on generalizing format out size i with
  | _ n ih =>
      subst hn
      cases format with
      | nil => rw [printLoop, items, printItems]
      | cons c format =>
          rw [printLoop, items]
          by_cases hzero : c = 0
          · rw [if_pos hzero, if_pos hzero, printItems]
          · rw [if_neg hzero, if_neg hzero]
            by_cases hplain : c ≠ 37
            · rw [if_pos hplain, if_pos hplain, printItems]
              exact ih _ (Nat.lt_succ_self _) _ _ _ _ rfl
            · rw [if_neg hplain, if_neg hplain, printItems]
              exact ih _ (Nat.lt_succ_of_le (fsProcess_suffix format).length_le) _ _ _ _ rfl

/-! ## Lengths -/

namespace Fs

/-- The complete length of an integer. -/
def intLength (fs : Fs) (val : BitVec 64) : Nat :=
  let pads := fs.padding (fs.number val).length (fs.sign val).length
  pads.1.toNat + (fs.sign val).length + pads.2.toNat + (fs.number val).length

theorem toInt32_bounds (x : Int) : -2 ^ 31 ≤ toInt32 x ∧ toInt32 x < 2 ^ 31 := by
  unfold toInt32
  omega

theorem number_length (fs : Fs) (val : BitVec 64) : 1 ≤ (fs.number val).length ∧ (fs.number val).length ≤ 25 := by
  unfold number
  rw [List.length_map]
  exact ⟨List.length_pos_iff.2 (Numeral.digits_succ_ne_nil _ 24 _), Numeral.length_digits_le _ 25 _⟩

theorem sign_length (fs : Fs) (val : BitVec 64) : (fs.sign val).length ≤ 2 := by
  unfold sign
  split_ifs <;> decide

theorem padding_bounds (fs : Fs) (n p : Int) :
    (0 ≤ (fs.padding n p).1 ∧ (fs.padding n p).1 < 2 ^ 31) ∧ 0 ≤ (fs.padding n p).2 ∧ (fs.padding n p).2 < 2 ^ 31 := by
  have hzeros : 0 ≤ fs.precisionZeros n ∧ fs.precisionZeros n < 2 ^ 31 := by
    have hbounds := toInt32_bounds (fs.precision - n)
    unfold precisionZeros
    split <;> omega
  have hzero := toInt32_bounds (fs.width - (n + p))
  have hspace := toInt32_bounds (fs.width - toInt32 (n + p + fs.precisionZeros n))
  unfold padding
  dsimp only
  split_ifs <;> dsimp only <;> omega

theorem toInt32_of_bounds {x : Int} (hlow : -2 ^ 31 ≤ x) (hhigh : x < 2 ^ 31) : toInt32 x = x := by
  unfold toInt32
  omega

/-- What is discarded, from the end on, as long as it is no more than an `int` can be lowered by. -/
theorem discard_of_le {excess : Nat} {ls p lz n : Int} (hls : 0 ≤ ls ∧ ls < 2 ^ 31) (hp : 0 ≤ p ∧ p ≤ 2)
    (hlz : 0 ≤ lz ∧ lz < 2 ^ 31) (hn : 1 ≤ n ∧ n ≤ 25) (hle : (excess : Int) ≤ n + 2 ^ 31)
    (hall : (excess : Int) ≤ ls + p + lz + n) :
    (discard excess ls p lz n).2.1 ≤ p ∧
      ((discard excess ls p lz n).1.toNat + (discard excess ls p lz n).2.1.toNat + (discard excess ls p lz n).2.2.1.toNat +
        (discard excess ls p lz n).2.2.2.toNat : Int) = ls + p + lz + n - excess := by
  unfold discard
  dsimp only
  rw [toInt32_of_bounds (by omega) (by omega)]
  by_cases hn' : n - (excess : Int) < 0
  · rw [if_pos hn']
    dsimp only
    rw [toInt32_of_bounds (by omega) (by omega)]
    by_cases hlz' : lz + (n - (excess : Int)) < 0
    · rw [if_pos hlz']
      dsimp only
      rw [toInt32_of_bounds (by omega) (by omega)]
      by_cases hp' : p + (lz + (n - (excess : Int))) < 0
      · rw [if_pos hp', toInt32_of_bounds (by omega) (by omega)]
        dsimp only
        omega
      · rw [if_neg hp']
        dsimp only
        omega
    · have hp' : ¬ p < 0 := by omega
      rw [if_neg hlz', if_neg hp']
      dsimp only
      omega
  · have hlz' : ¬ lz < 0 := by omega
    have hp' : ¬ p < 0 := by omega
    rw [if_neg hn', if_neg hlz', if_neg hp']
    dsimp only
    omega

/-- More than that, and the digits are counted up. -/
theorem discard_of_lt {excess : Nat} {ls p lz n : Int} (hp : 0 ≤ p) (hlz : 0 ≤ lz) (hn : 1 ≤ n ∧ n ≤ 25)
    (hlt : n + 2 ^ 31 < (excess : Int)) (hexcess : excess < 2 ^ 32) :
    discard excess ls p lz n = (ls, p, lz, n - excess + 2 ^ 32) := by
  have hwrap : toInt32 (n - (excess : Int)) = n - excess + 2 ^ 32 := by
    unfold toInt32
    omega
  have hn' : ¬ n - (excess : Int) + 2 ^ 32 < 0 := by omega
  unfold discard
  dsimp only
  rw [hwrap, if_neg hn', if_neg (Int.not_lt.2 hlz), if_neg (Int.not_lt.2 hp)]

/-- The lengths fit, or they are lowered by no more than an `int` can be. -/
def IntFits (fs : Fs) (val : BitVec 64) (size : Nat) : Prop :=
  fs.intLength val ≤ size ∨ (fs.intLength val < 2 ^ 32 ∧ fs.intLength val ≤ size + (fs.number val).length + 2 ^ 31)

theorem one_le_intLength (fs : Fs) (val : BitVec 64) : 1 ≤ fs.intLength val := by
  have hn := (fs.number_length val).1
  unfold intLength
  exact hn.trans (Nat.le_add_left _ _)

theorem length_pieces (ls p lz n : Int) (sign num : List UInt8) :
    (List.replicate ls.toNat (32 : UInt8) ++ sign.take p.toNat ++ List.replicate lz.toNat (48 : UInt8) ++
      (num ++ List.replicate (n.toNat - num.length) (0 : UInt8)).take n.toNat).length =
        ls.toNat + min p.toNat sign.length + lz.toNat + n.toNat := by
  simp only [List.length_append, List.length_replicate, List.length_take]
  omega

/-- An integer is cut to the bytes that are left, if its lengths are no larger than that. -/
theorem length_printInt (fs : Fs) {size : Nat} (hsize : size < 2 ^ 32) (val : BitVec 64) :
    (fs.IntFits val size → (fs.printInt size val).length = min (fs.intLength val) size) ∧
      (¬ fs.IntFits val size → size < (fs.printInt size val).length) := by
  obtain ⟨hls, hlz⟩ := fs.padding_bounds (fs.number val).length (fs.sign val).length
  have hn := fs.number_length val
  have hp := fs.sign_length val
  have hS : fs.intLength val = (fs.padding (fs.number val).length (fs.sign val).length).1 + (fs.sign val).length +
      (fs.padding (fs.number val).length (fs.sign val).length).2 + (fs.number val).length := by
    unfold intLength
    dsimp only
    omega
  unfold IntFits printInt
  dsimp only
  rw [← hS]
  generalize fs.intLength val = S at *
  generalize fs.padding (fs.number val).length (fs.sign val).length = pads at *
  generalize fs.number val = num at *
  generalize fs.sign val = sign at *
  obtain ⟨ls, lz⟩ := pads
  dsimp only at *
  have hprint : toSize (S : Int) = S % 2 ^ 32 := by
    unfold toSize
    omega
  have hmod : S % 2 ^ 32 = S ∧ S < 2 ^ 32 ∨ S % 2 ^ 32 + 2 ^ 32 = S := by omega
  rw [hprint]
  generalize S % 2 ^ 32 = S' at *
  by_cases hcut : size < S'
  · rw [if_pos hcut]
    by_cases hle : ((S' - size : Nat) : Int) ≤ num.length + 2 ^ 31
    · -- what is cut off is `S' - size`, and so it is `S - S'` too little
      obtain ⟨hsign, htotal⟩ := @discard_of_le (S' - size) ls sign.length lz num.length hls (by omega) hlz (by omega) hle
        (by omega)
      generalize discard (S' - size) ls sign.length lz num.length = d at *
      obtain ⟨ls', p', lz', n'⟩ := d
      dsimp only at *
      have hmin : min p'.toNat sign.length = p'.toNat := by
        clear htotal
        omega
      rw [length_pieces, hmin]
      generalize ls'.toNat = ls', p'.toNat = p', lz'.toNat = lz', n'.toNat = n' at *
      have hlength : ls' + p' + lz' + n' + S' = size + S := by omega
      clear htotal hsign hmin hS hls hlz
      exact ⟨fun hfits => by omega, fun hfits => by omega⟩
    · have hcount : ((num.length : Int) - (S' - size : Nat) + 2 ^ 32).toNat + S' = num.length + size + 2 ^ 32 := by omega
      rw [discard_of_lt (by omega) hlz.1 (by omega) (by omega) (by omega), length_pieces]
      dsimp only
      rw [Int.toNat_natCast, Nat.min_self]
      generalize ((num.length : Int) - (S' - size : Nat) + 2 ^ 32).toNat = n' at *
      have hlength : ls.toNat + sign.length + lz.toNat + n' + S' = S + size + 2 ^ 32 := by omega
      generalize ls.toNat + sign.length + lz.toNat + n' = L at *
      clear hcount hS hls hlz
      exact ⟨fun hfits => by omega, fun _ => by omega⟩
  · rw [if_neg hcut, length_pieces]
    dsimp only
    rw [Int.toNat_natCast, Int.toNat_natCast, Nat.min_self]
    have hlength : ls.toNat + sign.length + lz.toNat + num.length = S := by omega
    rw [hlength]
    exact ⟨fun hfits => by omega, fun hfits => by omega⟩

/-- The length of a floating point number: as far as its width goes, where it has one. -/
def doubleLength (fs : Fs) (t : Rendered) : Nat :=
  let numberLen := t.sign.length + t.digits.length
  if fs.width ≠ absent then min (toSize fs.width) (numberLen + (max (toInt32 (fs.width - numberLen)) 0).toNat) else numberLen

theorem length_printDouble (fs : Fs) (size : Nat) (t : Rendered) :
    (fs.printDouble size t).length = if fs.width = absent then min (fs.doubleLength t) size else fs.doubleLength t := by
  unfold printDouble doubleLength
  dsimp only
  rw [List.length_take]
  simp only [List.length_append, List.length_replicate, Int.natCast_add]
  split_ifs <;> omega

end Fs

namespace Conversion

/-- The complete length. -/
def length : Conversion → Nat
  | .char fs _ => if fs.precision ≠ absent then toSize fs.precision else 1
  | .str fs val => if fs.precision ≠ absent then min (toSize fs.precision) (cstring val).length else (cstring val).length
  | .int fs val => fs.intLength val
  | .double fs t => fs.doubleLength t
  | .percent => 1
  | .other => 0

/-- The conversion stays within `size` bytes. -/
def Fits (size : Nat) : Conversion → Prop
  | .int fs val => fs.IntFits val size
  | .double fs t => fs.width = absent ∨ fs.doubleLength t ≤ size
  | .percent => 0 < size
  | .char _ _ | .str _ _ | .other => True

/-- What a conversion writes: it is cut, or goes over what is left. -/
theorem print_spec {c : Conversion} (hc : c ≠ .percent) {size : Nat} (hsize : size < 2 ^ 32) :
    ∃ text : List UInt8, c.print size = text.map some ∧ (c.Fits size → text.length = min c.length size) ∧
      (¬ c.Fits size → size < text.length ∧ 0 < c.length) := by
  cases c with
  | char fs val =>
      refine ⟨_, rfl, fun _ => ?_, fun h => absurd trivial h⟩
      exact List.length_replicate.trans (Nat.min_comm _ _)
  | str fs val =>
      refine ⟨_, rfl, fun _ => ?_, fun h => absurd trivial h⟩
      unfold Fs.printStr length
      dsimp only
      rw [List.length_take]
      split <;> omega
  | int fs val =>
      obtain ⟨hfits, hlong⟩ := fs.length_printInt hsize val
      exact ⟨_, rfl, hfits, fun h => ⟨hlong h, fs.one_le_intLength val⟩⟩
  | double fs t =>
      have hlen := fs.length_printDouble size t
      refine ⟨_, rfl, fun h => ?_, fun h => ?_⟩
      · unfold Fits at h
        rw [hlen]
        by_cases hw : fs.width = absent
        · rw [if_pos hw]
          rfl
        · rw [if_neg hw]
          exact (Nat.min_eq_left (h.resolve_left hw)).symm
      · unfold Fits at h
        rw [not_or, Nat.not_le] at h
        rw [hlen, if_neg h.1]
        exact ⟨h.2, Nat.zero_lt_of_lt h.2⟩
  | percent => exact absurd rfl hc
  | other => exact ⟨[], rfl, fun _ => (Nat.zero_min size).symm, fun h => absurd trivial h⟩

end Conversion

/-! ## The buffer -/

/-- The complete length of an item. -/
def Item.length : Item → Nat
  | .plain _ => 1
  | .spec c => c.length

/-- The formats for which a buffer of `size` bytes is kept, where `left` of them are left: what is not cut by its printer
fits, and so does every `%%`. -/
def Keeps (size : Nat) : List Item → Nat → Prop
  | [], _ => True
  | .plain _ :: items, left => Keeps size items (left - 1)
  | .spec .percent :: items, left =>
      -- without a buffer nothing is written as long as nothing is printed behind the `%%`
      if 0 < left then Keeps size items (left - 1) else size = 0 ∧ ∀ item ∈ items, item.length = 0
  | .spec c :: items, left => c.Fits left ∧ Keeps size items (left - c.length)

/-- Writes are in the buffer, the terminator too; and every cell before it was written. -/
structure Inside (size : Nat) (out : List (Option UInt8)) : Prop where
  cells : ∀ i c, out[i]? = some (some c) → i < size
  terminator : 0 < size → out.length < size
  text : 0 < size → none ∉ out

/-- What was written stays written. -/
theorem printItems_extends (items : List Item) (out : List (Option UInt8)) (size : Nat) :
    out <+: printItems items out size := by
  induction items generalizing out size with
  | nil => exact List.prefix_refl out
  | cons item items ih =>
      cases item with
      | plain c => exact (List.prefix_append _ _).trans (ih _ _)
      | spec c => exact (List.prefix_append _ _).trans (ih _ _)

theorem Inside.of_extends {size : Nat} {out out' : List (Option UInt8)} (h : Inside size out') (hout : out <+: out') :
    Inside size out := by
  obtain ⟨rest, rfl⟩ := hout
  refine ⟨fun i c hi => h.cells i c ?_, fun hpos => ?_, fun hpos hmem => h.text hpos (List.mem_append_left _ hmem)⟩
  · have hlt := (List.getElem?_eq_some_iff.1 hi).1
    rwa [List.getElem?_append_left hlt]
  · have hlen := h.terminator hpos
    rw [List.length_append] at hlen
    omega

/-- The cells before the pointer are written, and with those that are left they are all but the last. -/
structure Kept (size : Nat) (out : List (Option UInt8)) (left : Nat) : Prop where
  written : none ∉ out
  count : out.length + left = size - 1

section

variable {size left : Nat} {out : List (Option UInt8)} {text : List UInt8}

theorem Kept.inside (h : Kept size out left) : Inside size out := by
  have hcount := h.count
  refine ⟨fun i c hi => ?_, fun hpos => by omega, fun _ => h.written⟩
  have hlt := (List.getElem?_eq_some_iff.1 hi).1
  omega

theorem Kept.append (h : Kept size out left) (htext : text.length ≤ left) :
    Kept size (out ++ text.map some) (left - text.length) := by
  have hcount := h.count
  refine ⟨fun hmem => ?_, ?_⟩
  · rcases List.mem_append.1 hmem with hmem | hmem
    · exact h.written hmem
    · obtain ⟨c, -, hc⟩ := List.mem_map.1 hmem
      cases hc
  · rw [List.length_append, List.length_map]
    omega

/-- More than is left. -/
theorem Kept.not_inside_append (h : Kept size out left) (htext : left < text.length) :
    ¬ Inside size (out ++ text.map some) := by
  have hcount := h.count
  intro hinside
  by_cases hpos : 0 < size
  · have hlen := hinside.terminator hpos
    rw [List.length_append, List.length_map] at hlen
    omega
  · have hout : out = [] := List.length_eq_zero_iff.1 (by omega)
    subst hout
    cases text with
    | nil => exact absurd htext (Nat.not_lt_zero left)
    | cons c text => exact hpos (Nat.zero_lt_of_lt (hinside.cells 0 c rfl))

end

theorem printPlain_eq (size : Nat) (c : UInt8) : printPlain size c = (List.replicate (min 1 size) c).map some := by
  unfold printPlain
  cases size with
  | zero => rfl
  | succ size => rw [if_pos (Nat.succ_ne_zero size), Nat.min_eq_left (Nat.succ_le_succ (Nat.zero_le size))]; rfl

theorem print_percent {size : Nat} (hsize : size ≠ 0) : Conversion.print size .percent = [37].map some :=
  congrArg (fun cell => [cell]) (if_pos hsize)

theorem keeps_spec {c : Conversion} (hc : c ≠ .percent) (size : Nat) (items : List Item) (left : Nat) :
    Keeps size (.spec c :: items) left ↔ c.Fits left ∧ Keeps size items (left - c.length) := by
  cases c with
  | percent => exact absurd rfl hc
  | char | str | int | double | other => exact Iff.rfl

/-- Something is written without a buffer. -/
theorem not_inside_zero {out : List (Option UInt8)} {text : List UInt8} (htext : text ≠ []) :
    ¬ Inside 0 (out ++ text.map some) := by
  intro hinside
  cases text with
  | nil => exact htext rfl
  | cons c text =>
      refine Nat.not_lt_zero out.length (hinside.cells out.length c ?_)
      rw [List.getElem?_append_right (Nat.le_refl _), Nat.sub_self]
      rfl

theorem not_inside_of_not_inside {size : Nat} {out : List (Option UInt8)} (h : ¬ Inside size out) (items : List Item)
    (left : Nat) : ¬ Inside size (printItems items out left) := fun hinside =>
  h (hinside.of_extends (printItems_extends items out left))

/-- Without a buffer, and with the largest count of bytes left: nothing is written as long as nothing is printed. -/
theorem inside_zero_iff {out : List (Option UInt8)} (hout : Inside 0 out) (items : List Item) :
    Inside 0 (printItems items out (2 ^ 32 - 1)) ↔ ∀ item ∈ items, item.length = 0 := by
  induction items generalizing out with
  | nil => exact iff_of_true hout fun item hitem => absurd hitem List.not_mem_nil
  | cons item items ih =>
      rw [List.forall_mem_cons]
      cases item with
      | plain c =>
          refine iff_of_false (not_inside_of_not_inside ?_ items _) fun h => Nat.one_ne_zero h.1
          rw [printPlain_eq]
          exact not_inside_zero (List.cons_ne_nil c [])
      | spec c =>
          unfold printItems
          dsimp only
          by_cases hc : c = .percent
          · subst hc
            refine iff_of_false (not_inside_of_not_inside ?_ items _) fun h => Nat.one_ne_zero h.1
            rw [print_percent (by decide)]
            exact not_inside_zero (List.cons_ne_nil 37 [])
          · obtain ⟨text, hprint, hfits, hlong⟩ := c.print_spec hc (show 2 ^ 32 - 1 < 2 ^ 32 by decide)
            rw [hprint]
            by_cases hlen : c.length = 0
            · have htext : text = [] := by
                by_cases hf : c.Fits (2 ^ 32 - 1)
                · exact List.length_eq_zero_iff.1 ((hfits hf).trans (by rw [hlen, Nat.zero_min]))
                · exact absurd hlen (Nat.ne_of_gt (hlong hf).2)
              subst htext
              rw [List.map_nil, List.append_nil]
              exact (ih hout).trans (and_iff_right hlen).symm
            · refine iff_of_false (not_inside_of_not_inside (not_inside_zero ?_) items _) fun h => hlen h.1
              rintro rfl
              by_cases hf : c.Fits (2 ^ 32 - 1)
              · have hzero := hfits hf
                rw [List.length_nil] at hzero
                omega
              · exact absurd (hlong hf).1 (Nat.not_lt_zero _)

/-- A conversion whose text fits: the bytes that are left behind it. -/
theorem Kept.print {size left : Nat} {out : List (Option UInt8)} {text : List UInt8} {c : Conversion} (h : Kept size out left)
    (hleft : left < 2 ^ 32) (hprint : c.print left = text.map some) (htext : text.length ≤ left) :
    Kept size (out ++ c.print left) (left - text.length) ∧
      toSize ((left : Int) - (c.print left).length) = left - text.length := by
  rw [hprint, List.length_map]
  refine ⟨h.append htext, ?_⟩
  unfold toSize
  omega

/-- A `%%` for which nothing is left: the count wraps around. -/
theorem inside_percent_iff {size : Nat} {out : List (Option UInt8)} (h : Kept size out 0) (items : List Item) :
    Inside size (printItems (.spec .percent :: items) out 0) ↔ size = 0 ∧ ∀ item ∈ items, item.length = 0 := by
  have hcount := h.count
  unfold printItems
  dsimp only
  by_cases hbuf : 0 < size
  · refine iff_of_false (not_inside_of_not_inside (fun hinside => ?_) items _) fun h => Nat.ne_of_gt hbuf h.1
    exact hinside.text hbuf (List.mem_append_right _ List.mem_cons_self)
  · obtain rfl : size = 0 := Nat.eq_zero_of_not_pos hbuf
    obtain rfl : out = [] := List.length_eq_zero_iff.1 (by omega)
    rw [and_iff_right rfl]
    refine inside_zero_iff ⟨fun i c hi => ?_, fun h => absurd h hbuf, fun h => absurd h hbuf⟩ items
    cases i with
    | zero => cases hi
    | succ i => cases hi

theorem inside_iff {size : Nat} (hsize : size < 2 ^ 32) (items : List Item) {out : List (Option UInt8)} {left : Nat}
    (h : Kept size out left) : Inside size (printItems items out left) ↔ Keeps size items left := by
  have hcount := h.count
  induction items generalizing out left with
  | nil => exact iff_of_true h.inside trivial
  | cons item items ih =>
      cases item with
      | plain c =>
          have hlen : (List.replicate (min 1 left) c).length = min 1 left := List.length_replicate
          have hkept := h.append (hlen.trans_le (Nat.min_le_right 1 left))
          have hnext : left - (List.replicate (min 1 left) c).length = left - 1 := by omega
          rw [hnext, ← printPlain_eq] at hkept
          exact ih hkept hkept.count
      | spec c =>
          by_cases hc : c = .percent
          · subst hc
            unfold Keeps
            by_cases hpos : 0 < left
            · obtain ⟨hkept, hnext⟩ := h.print (by omega) (print_percent (Nat.ne_of_gt hpos)) hpos
              rw [if_pos hpos, printItems, hnext]
              exact ih hkept hkept.count
            · obtain rfl : left = 0 := Nat.eq_zero_of_not_pos hpos
              rw [if_neg hpos]
              exact inside_percent_iff h items
          · obtain ⟨text, hprint, hfits, hlong⟩ := c.print_spec hc (show left < 2 ^ 32 by omega)
            rw [keeps_spec hc, printItems]
            by_cases hf : c.Fits left
            · have hlen := hfits hf
              have hleft : left - c.length = left - text.length := by omega
              obtain ⟨hkept, hnext⟩ := h.print (by omega) hprint (show text.length ≤ left by omega)
              rw [hnext, hleft, and_iff_right hf]
              exact ih hkept hkept.count
            · refine iff_of_false (not_inside_of_not_inside ?_ items _) fun h => hf h.1
              rw [hprint]
              exact h.not_inside_append (hlong hf).1

/-- **`vsnprintf` stays in its buffer** for these formats and arguments, and for no others. -/
theorem inside_iff_keeps (size : BitVec 32) (format : List UInt8) (a : Args) :
    Inside size.toNat (vsnprintf size format a) ↔ Keeps size.toNat (items a format 0) (size.toNat - 1) := by
  unfold vsnprintf
  rw [printLoop_eq]
  have hsize : (if 0 < size.toNat then size.toNat - 1 else 0) = size.toNat - 1 := by
    split <;> omega
  rw [hsize]
  exact inside_iff size.isLt _ ⟨List.not_mem_nil, Nat.zero_add _⟩

/-- No arguments. -/
def noArgs : Args := ⟨fun _ => 0, fun _ => 0, fun _ => 0, fun _ => [], fun _ => ⟨[], [], false, Nat.zero_le 64⟩⟩

theorem vsnprintf_percent : vsnprintf 1 [37, 37] noArgs = [none] := by
  unfold vsnprintf
  rw [printLoop, if_neg (by decide), if_neg (by decide)]
  exact printLoop.eq_1 ..

/-- `%%` into a buffer of one byte: the terminator is written behind it. -/
theorem not_inside_percent : ¬ Inside 1 (vsnprintf 1 [37, 37] noArgs) := by
  rw [vsnprintf_percent]
  exact fun hinside => absurd (hinside.terminator Nat.one_pos) (by decide)

end YieldStm32.Stdio
