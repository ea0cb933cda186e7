import YieldStm32.Util.PrintBounds
import YieldStm32.Util.Directive

/-!
# Integers as C prescribes them

* `layout` : what both texts are made of;
* `Directive.Prescribed` : the text that C prescribes is printed, into every buffer that holds it;
* `Directive.Regular` : when it is;
* `prescribed_iff_regular` : then, and only then.
-/

namespace YieldStm32.Stdio

/-! ## Layouts -/

/-- Spaces, a sign, digits, and spaces. -/
def layout (ls : Nat) (sign : List UInt8) (ds : List Nat) (ts : Nat) : List UInt8 :=
  List.replicate ls 32 ++ sign ++ ds.map Fs.digitChar ++ List.replicate ts 32

/-- The signs, and the prefix of hexadecimal digits. -/
def signs : List (List UInt8) := [[], [45], [43], [32], [48, 120]]

/-- The digit that a character is. -/
def figure (c : UInt8) : Option Nat := if digitVal c < 16 then some (digitVal c) else none

theorem figure_digitChar : ∀ d < 16, figure (Fs.digitChar d) = some d := by decide

theorem digitChar_ne : ∀ d < 16, Fs.digitChar d ≠ 32 ∧ Fs.digitChar d ≠ 120 := by decide

theorem figures_sign : ∀ sign ∈ signs, ∀ d ∈ sign.filterMap figure, d = 0 := by decide

section

variable {ls ls' ts ts' : Nat} {sign : List UInt8} {ds ds' : List Nat}

theorem length_layout (ls : Nat) (sign : List UInt8) (ds : List Nat) (ts : Nat) :
    (layout ls sign ds ts).length = ls + sign.length + ds.length + ts := by
  unfold layout
  simp only [List.length_append, List.length_replicate, List.length_map]

theorem not_mem_digitChars {c : UInt8} (hds : ∀ d ∈ ds, d < 16) (hc : ∀ d < 16, Fs.digitChar d ≠ c) :
    c ∉ ds.map Fs.digitChar := fun hmem => by
  obtain ⟨d, hd, heq⟩ := List.mem_map.1 hmem
  exact hc d (hds d hd) heq

/-- The digits of a layout, behind the zero of the prefix. -/
theorem figures_layout (hds : ∀ d ∈ ds, d < 16) :
    (layout ls sign ds ts).filterMap figure = sign.filterMap figure ++ ds := by
  have hspaces (n : Nat) : (List.replicate n (32 : UInt8)).filterMap figure = [] :=
    List.filterMap_eq_nil_iff.2 fun c hc => by rw [List.eq_of_mem_replicate hc]; decide
  have hdigits : (ds.map Fs.digitChar).filterMap figure = ds := by
    rw [List.filterMap_map]
    exact (List.filterMap_congr fun d hd => figure_digitChar d (hds d hd)).trans List.filterMap_some
  unfold layout
  rw [List.filterMap_append, List.filterMap_append, List.filterMap_append, hspaces, hspaces, hdigits, List.append_nil,
    List.nil_append]

/-- Layouts with the same text have digits that stand for the same. -/
theorem value_eq_of_layout_eq {sign' : List UInt8} (hsign : sign ∈ signs) (hsign' : sign' ∈ signs) (hds : ∀ d ∈ ds, d < 16)
    (hds' : ∀ d ∈ ds', d < 16) (h : layout ls sign ds ts = layout ls' sign' ds' ts') (b : Nat) :
    Numeral.value b ds = Numeral.value b ds' := by
  have hfigures := congrArg (fun s => Numeral.value b (s.filterMap figure)) h
  rwa [figures_layout hds, figures_layout hds', Numeral.value_zeros_append b (figures_sign sign hsign),
    Numeral.value_zeros_append b (figures_sign sign' hsign')] at hfigures

theorem count_layout (hds : ∀ d ∈ ds, d < 16) : (layout ls sign ds ts).count 32 = ls + sign.count 32 + ts := by
  have hdigits := List.count_eq_zero.2 (not_mem_digitChars hds fun d hd => (digitChar_ne d hd).1)
  unfold layout
  rw [List.count_append, List.count_append, List.count_append, hdigits, List.count_replicate_self,
    List.count_replicate_self, Nat.add_zero]

/-- What ends with a digit is a layout in one way only. -/
theorem layout_eq_iff (hds : ∀ d ∈ ds, d < 16) (hds' : ∀ d ∈ ds', d < 16) (hsome : ds ≠ []) :
    layout ls sign ds 0 = layout ls' sign ds' ts' ↔ ls = ls' ∧ ds = ds' ∧ ts' = 0 := by
  constructor
  · intro heq
    have hfigures := congrArg (List.filterMap figure) heq
    rw [figures_layout hds, figures_layout hds', List.append_cancel_left_eq] at hfigures
    subst hfigures
    have hts : ts' = 0 := by
      refine Nat.eq_zero_of_not_pos fun hpos => ?_
      obtain ⟨ds, d, rfl⟩ := (List.eq_nil_or_concat' ds).resolve_left hsome
      obtain ⟨n, rfl⟩ := Nat.exists_eq_succ_of_ne_zero (Nat.ne_of_gt hpos)
      unfold layout at heq
      rw [List.map_append, List.replicate_succ', ← List.append_assoc, List.replicate_zero, List.append_nil,
        ← List.append_assoc] at heq
      have hlast := List.append_inj_right' heq rfl
      exact (digitChar_ne d (hds d (List.mem_append_right _ List.mem_cons_self))).1 (List.cons.inj hlast).1
    have hcount := congrArg (List.count 32) heq
    rw [count_layout hds, count_layout hds] at hcount
    exact ⟨by omega, rfl, hts⟩
  · rintro ⟨rfl, rfl, rfl⟩
    rfl

end

/-! ## What is printed -/

namespace Fs

variable (fs : Fs) (val : BitVec 64)

/-- An integer that is not cut. -/
def intText : List UInt8 :=
  let pads := fs.padding (fs.number val).length (fs.sign val).length
  List.replicate pads.1.toNat 32 ++ fs.sign val ++ List.replicate pads.2.toNat 48 ++ fs.number val

theorem length_intText : (fs.intText val).length = fs.intLength val := by
  unfold intText intLength
  simp only [List.length_append, List.length_replicate]

theorem printInt_of_le {size : Nat} (h : fs.intLength val ≤ size) (hsize : size < 2 ^ 32) :
    fs.printInt size val = fs.intText val := by
  obtain ⟨hls, hlz⟩ := fs.padding_bounds (fs.number val).length (fs.sign val).length
  have hcut : ¬ size < toSize ((fs.padding (fs.number val).length (fs.sign val).length).1 + (fs.sign val).length +
      (fs.padding (fs.number val).length (fs.sign val).length).2 + (fs.number val).length) := by
    unfold intLength at h
    dsimp only at h
    unfold toSize
    omega
  unfold printInt intText
  dsimp only
  rw [if_neg hcut]
  dsimp only
  rw [Int.toNat_natCast, Int.toNat_natCast, List.take_length, Nat.sub_self, List.replicate_zero, List.append_nil,
    List.take_length]

/-- A text is printed into every buffer that is large enough if it is the one that is not cut. -/
theorem printInt_eq_iff {text : List UInt8} (hlen : text.length < 2 ^ 31) :
    (∀ size < 2 ^ 32 - 1, text.length ≤ size → fs.printInt size val = text) ↔ fs.intText val = text := by
  constructor
  · intro h
    have hprint := h (2 ^ 32 - 2) (by decide) (by omega)
    obtain ⟨hfits, hlong⟩ := fs.length_printInt (show 2 ^ 32 - 2 < 2 ^ 32 by decide) val
    rw [hprint] at hfits hlong
    have hle : fs.intLength val ≤ 2 ^ 32 - 2 := by
      by_cases hf : fs.IntFits val (2 ^ 32 - 2)
      · have hmin := hfits hf
        omega
      · have hover := hlong hf
        omega
    rw [← hprint, fs.printInt_of_le val hle (by decide)]
  · rintro rfl size hsize hle
    rw [length_intText] at hle
    exact fs.printInt_of_le val hle (by omega)

theorem base_eq : fs.base = 10 ∨ fs.base = 16 := by
  unfold base
  split
  · exact .inr rfl
  · exact .inl rfl

theorem intText_eq_layout :
    fs.intText val = layout (fs.padding (fs.number val).length (fs.sign val).length).1.toNat (fs.sign val)
      (List.replicate (fs.padding (fs.number val).length (fs.sign val).length).2.toNat 0 ++
        Numeral.digits fs.base 25 (fs.magnitude val)) 0 := by
  unfold intText layout
  rw [List.map_append, List.map_replicate, List.replicate_zero, List.append_nil, ← List.append_assoc]
  rfl

theorem magnitude_lt : fs.magnitude val < 2 ^ 64 := by
  have hwide {w : Nat} (hw : w ≤ 64) (x : BitVec w) : x.toNat < 2 ^ 64 :=
    x.isLt.trans_le (Nat.pow_le_pow_right (by decide) hw)
  unfold magnitude
  cases fs.length with
  | longLong | long | short | char | none | longDouble | sizeT | intmaxT | ptrdiffT => exact hwide (by decide) _

theorem sign_mem_signs : fs.sign val ∈ signs := by
  unfold sign
  split_ifs <;> decide

end Fs

/-! ## What is prescribed -/

namespace Directive

variable (d : Directive) (a : Args)

/-- The digits of the value, none for zero. -/
def significant : List Nat := (Nat.digits d.radix (d.value a).natAbs).reverse

/-- The zeros in front of them. -/
def zeros : Nat :=
  let least := (d.digitCount a).getD 1 - (d.significant a).length
  if d.specifier = .o ∧ .hash ∈ d.flags ∧ least = 0 then 1 else least

def pad : Nat := d.fieldWidth a - ((d.sign a).length + (d.digits a).length)

theorem radix_bounds : 1 < d.radix ∧ d.radix ≤ 16 := by
  unfold radix
  cases d.specifier <;> decide

theorem significant_lt : ∀ c ∈ d.significant a, c < 16 := fun _ hc =>
  (Nat.digits_lt_base d.radix_bounds.1 (List.mem_reverse.1 hc)).trans_le d.radix_bounds.2

theorem natAbs_ofBits_lt {w : Nat} (x : BitVec w) : (d.ofBits x).natAbs < 2 ^ w := by
  have hlt := x.isLt
  have hlow := BitVec.le_two_mul_toInt (x := x)
  have hhigh := BitVec.two_mul_toInt_lt (x := x)
  have hcast : ((2 ^ w : Nat) : Int) = 2 ^ w := Int.natCast_pow 2 w
  unfold ofBits
  split <;> omega

theorem natAbs_value_lt : (d.value a).natAbs < 2 ^ 64 := by
  have hof {w : Nat} (hw : w ≤ 64) (x : BitVec w) : (d.ofBits x).natAbs < 2 ^ 64 :=
    (d.natAbs_ofBits_lt x).trans_le (Nat.pow_le_pow_right (by decide) hw)
  unfold value
  cases d.length with
  | hh | h | none | l | ll => exact hof (by decide) _

theorem lt_pow_25 {b v : Nat} (hb : 8 ≤ b) (hv : v < 2 ^ 64) : v < b ^ 25 :=
  hv.trans_le ((show 2 ^ 64 ≤ 8 ^ 25 by decide).trans (Nat.pow_le_pow_left hb 25))

theorem eight_le_radix : 8 ≤ d.radix := by
  unfold radix
  cases d.specifier <;> decide

/-- The digits of a value other than zero. -/
theorem significant_of_ne (h : d.value a ≠ 0) :
    d.significant a = Numeral.digits d.radix 25 (d.value a).natAbs :=
  Numeral.reverse_digits d.radix_bounds.1 (Int.natAbs_pos.2 h) (lt_pow_25 d.eight_le_radix (d.natAbs_value_lt a))

theorem significant_of_eq (h : d.value a = 0) : d.significant a = [] := by
  unfold significant
  rw [h, Int.natAbs_zero, Nat.digits_zero]
  rfl

/-- The digits begin with no zero. -/
theorem head?_significant : ((d.significant a).map Fs.digitChar).head? ≠ some 48 := by
  by_cases h : d.value a = 0
  · rw [d.significant_of_eq a h]
    exact fun hnone => by cases hnone
  · have hhead := Numeral.head_digits d.radix_bounds.1 (Int.natAbs_pos.2 h)
      (lt_pow_25 d.eight_le_radix (d.natAbs_value_lt a))
    rw [← d.significant_of_ne a h] at hhead
    have hlt := d.significant_lt a
    cases hds : d.significant a with
    | nil => exact fun hnone => by cases hnone
    | cons c ds =>
        rw [hds] at hhead hlt
        have hzero : ∀ c < 16, Fs.digitChar c = 48 → c = 0 := by decide
        intro heq
        exact hhead (congrArg some (hzero c (hlt c List.mem_cons_self) (Option.some.inj heq)))

theorem digits_eq : d.digits a = (List.replicate (d.zeros a) 0 ++ d.significant a).map Fs.digitChar := by
  have hhead := d.head?_significant a
  unfold digits zeros
  rw [List.map_append, List.map_replicate]
  dsimp only
  rw [← significant, List.length_map]
  by_cases hleast : (d.digitCount a).getD 1 - (d.significant a).length = 0
  · rw [hleast, List.replicate_zero, List.nil_append]
    by_cases hoctal : d.specifier = .o ∧ .hash ∈ d.flags
    · rw [if_pos ⟨hoctal.1, hoctal.2, hhead⟩, if_pos ⟨hoctal.1, hoctal.2, rfl⟩]
      rfl
    · rw [if_neg fun h => hoctal ⟨h.1, h.2.1⟩, if_neg fun h => hoctal ⟨h.1, h.2.1⟩]
      rfl
  · obtain ⟨n, hn⟩ := Nat.exists_eq_succ_of_ne_zero hleast
    rw [if_neg (c := d.specifier = .o ∧ .hash ∈ d.flags ∧ (d.digitCount a).getD 1 - (d.significant a).length = 0)
      fun h => hleast h.2.2, hn, List.replicate_succ]
    exact if_neg fun h => h.2.2 rfl

theorem text_eq_layout :
    d.text a =
      if d.left a then layout 0 (d.sign a) (List.replicate (d.zeros a) 0 ++ d.significant a) (d.pad a)
      else if .zero ∈ d.flags ∧ d.digitCount a = none then
        layout 0 (d.sign a) (List.replicate (d.pad a + d.zeros a) 0 ++ d.significant a) 0
      else layout (d.pad a) (d.sign a) (List.replicate (d.zeros a) 0 ++ d.significant a) 0 := by
  unfold text
  dsimp only
  rw [← pad, d.digits_eq]
  unfold layout
  rw [List.replicate_zero, List.nil_append]
  split
  · rfl
  · split
    · have hpad : (List.replicate (d.pad a + d.zeros a) 0 ++ d.significant a).map Fs.digitChar =
          List.replicate (d.pad a) 48 ++ (List.replicate (d.zeros a) 0 ++ d.significant a).map Fs.digitChar := by
        rw [List.replicate_add, List.append_assoc, List.map_append, List.map_replicate]
        rfl
      rw [hpad, List.append_nil, List.append_assoc]
    · exact (List.append_nil _).symm

theorem sign_mem_signs : d.sign a ∈ signs := by
  unfold sign
  split_ifs <;> decide

/-! ### The sign and the magnitude -/

theorem not_unsigned : (!(d.taken a).modifiers.unsigned) = d.signed := by
  show (!d.specifier.modifiers.unsigned) = d.signed
  unfold signed
  cases d.specifier <;> rfl

theorem negative_ofBits {w : Nat} (x : BitVec w) : (d.signed && x.msb) = decide (d.ofBits x < 0) := by
  unfold ofBits
  cases d.signed with
  | true => exact BitVec.msb_eq_toInt
  | false => exact (decide_eq_false (by simp)).symm

theorem natAbs_ofBits {w : Nat} (x : BitVec w) :
    (if decide (d.ofBits x < 0) then -x else x).toNat = (d.ofBits x).natAbs := by
  rw [← negative_ofBits]
  unfold ofBits
  cases d.signed with
  | false => rfl
  | true =>
      rw [Bool.true_and, if_pos rfl, BitVec.toInt_eq_msb_cond]
      cases hmsb : x.msb with
      | false => rfl
      | true =>
          have hpos : 0 < x.toNat := Nat.pos_of_ne_zero fun hzero => by
            have hx : x = 0 := BitVec.eq_of_toNat_eq hzero
            rw [hx] at hmsb
            simp at hmsb
          have hlt := x.isLt
          rw [if_pos rfl, if_pos rfl, BitVec.toNat_neg_of_pos hpos]
          omega

/-- A narrow value, as an `int`. -/
theorem natAbs_ofBits_setWidth {w : Nat} (hw : w ≤ 32) {x : BitVec w} (hx : ¬ d.ofBits x < 0) :
    (x.setWidth 32).toNat = (d.ofBits x).natAbs := by
  rw [← natAbs_ofBits, decide_eq_false hx, if_neg Bool.false_ne_true]
  exact BitVec.toNat_setWidth_of_le hw

theorem natAbs_ofBits_signExtend {w : Nat} (hw : w ≤ 32) {x : BitVec w} (hx : d.ofBits x < 0) :
    (-x.signExtend 32).toNat = (d.ofBits x).natAbs := by
  have hextend : d.ofBits (x.signExtend 32) = d.ofBits x := by
    unfold ofBits at hx ⊢
    cases hsigned : d.signed with
    | true => exact BitVec.toInt_signExtend_of_le hw
    | false =>
        rw [hsigned] at hx
        exact absurd hx (Int.not_lt.2 (Int.natCast_nonneg x.toNat))
  rw [← hextend, ← natAbs_ofBits, hextend, decide_eq_true hx, if_pos rfl]

/-- The value, as the union holds it. -/
theorem setWidth_bits {w : Nat} (hw : w ≤ 64) (x : BitVec 32) : (x.setWidth 64).setWidth w = x.setWidth w :=
  BitVec.setWidth_setWidth_of_le x hw

theorem negative_eq : (d.taken a).negative (d.bits a) = decide (d.value a < 0) := by
  have hlength : (d.taken a).length = d.length.length := rfl
  unfold Fs.negative value bits
  rw [hlength, not_unsigned]
  cases d.length with
  | ll => exact d.negative_ofBits _
  | hh | h =>
      dsimp only [LengthModifier.length, Args.integer]
      rw [setWidth_bits (by decide), negative_ofBits]
  | none | l =>
      dsimp only [LengthModifier.length, Args.integer]
      rw [setWidth_bits (by decide), negative_ofBits, BitVec.setWidth_eq]

/-- The absolute value, but that of a negative `char`. -/
theorem magnitude_eq (h : ¬ (d.length = .hh ∧ d.value a < 0)) : (d.taken a).magnitude (d.bits a) = (d.value a).natAbs := by
  have hlength : (d.taken a).length = d.length.length := rfl
  unfold Fs.magnitude
  rw [hlength, negative_eq]
  unfold value bits at *
  cases hl : d.length with
  | ll => exact d.natAbs_ofBits _
  | none | l =>
      dsimp only [LengthModifier.length, Args.integer]
      rw [setWidth_bits (by decide), BitVec.setWidth_eq]
      exact d.natAbs_ofBits _
  | h =>
      dsimp only [LengthModifier.length, Args.integer]
      rw [setWidth_bits (by decide)]
      by_cases hneg : d.ofBits ((a.int d.valueArg).setWidth 16) < 0
      · rw [decide_eq_true hneg, if_pos rfl]
        exact d.natAbs_ofBits_signExtend (by decide) hneg
      · rw [decide_eq_false hneg, if_neg Bool.false_ne_true]
        exact d.natAbs_ofBits_setWidth (by decide) hneg
  | hh =>
      rw [hl] at h
      have hneg : ¬ d.ofBits ((a.int d.valueArg).setWidth 8) < 0 := fun hneg => h ⟨rfl, hneg⟩
      dsimp only [LengthModifier.length, Args.integer]
      rw [setWidth_bits (by decide), decide_eq_false hneg, if_neg Bool.false_ne_true]
      exact d.natAbs_ofBits_setWidth (by decide) hneg

/-- `-(char)v` is no absolute value. -/
theorem magnitude_ne (hh : d.length = .hh) (hneg : d.value a < 0) :
    (d.taken a).magnitude (d.bits a) ≠ (d.value a).natAbs := by
  have hlength : (d.taken a).length = d.length.length := rfl
  unfold Fs.magnitude
  rw [hlength, negative_eq, decide_eq_true hneg]
  unfold value at hneg ⊢
  unfold bits
  rw [hh] at hneg ⊢
  dsimp only [LengthModifier.length, Args.integer] at hneg ⊢
  rw [setWidth_bits (by decide), if_pos rfl]
  generalize (a.int d.valueArg).setWidth 8 = x at *
  have hlt := x.isLt
  have habs := d.natAbs_ofBits x
  rw [decide_eq_true hneg, if_pos rfl, BitVec.toNat_neg] at habs
  rw [BitVec.toNat_neg, BitVec.toNat_setWidth_of_le (by decide)]
  omega

theorem base_taken : (d.taken a).base = if d.specifier = .x then 16 else 10 := by
  show (if d.specifier.modifiers.hex then 16 else 10) = _
  cases d.specifier <;> rfl

theorem radix_eq (h : d.specifier ≠ .o) : d.radix = (d.taken a).base := by
  rw [base_taken]
  unfold radix
  cases hs : d.specifier with
  | o => exact absurd hs h
  | d | i | u | x => rfl

theorem value_nonneg (h : d.signed = false) : 0 ≤ d.value a := by
  unfold value ofBits
  rw [h]
  cases d.length with
  | hh | h | none | l | ll => exact Int.natCast_nonneg _

theorem sign_taken :
    (d.taken a).sign (d.bits a) =
      if d.specifier = .x ∧ .hash ∈ d.flags ∧ d.value a = 0 then [48, 120] else d.sign a := by
  have hunsigned := d.not_unsigned a
  have hplus : (d.taken a).flags.plus = decide (.plus ∈ d.flags) := rfl
  have hspace : (d.taken a).flags.space = decide (.space ∈ d.flags ∧ .plus ∉ d.flags) := rfl
  have hhash : (d.taken a).flags.hash = decide (.hash ∈ d.flags) := rfl
  have hbase : (d.taken a).base = 16 ↔ d.specifier = .x := by
    rw [base_taken]
    split <;> simp_all
  unfold Fs.sign sign
  simp only [negative_eq, hunsigned, hplus, hspace, hhash, hbase, decide_eq_true_eq]
  cases hsigned : d.signed with
  | true =>
      have hx : d.specifier ≠ .x := by
        intro hx
        unfold signed at hsigned
        rw [hx] at hsigned
        cases hsigned
      rw [if_neg (c := d.specifier = .x ∧ .hash ∈ d.flags ∧ d.value a = 0) fun h => hx h.1]
      by_cases hp : .plus ∈ d.flags
      · simp only [hp, if_true]
      · simp only [hp, not_false_eq_true, and_true, if_true, if_false]
  | false =>
      have hneg := Int.not_lt.2 (d.value_nonneg a hsigned)
      rw [if_neg hneg]
      by_cases hboth : d.specifier = .x ∧ .hash ∈ d.flags
      · by_cases hzero : d.value a = 0 <;> simp [hboth, hzero]
      · simp [and_comm, hboth, ← and_assoc]

/-! ### The padding -/

/-- No precision for the source: none, a dot alone, or `-1` from the arguments. -/
def Bare : Prop :=
  match d.precision with
  | .none => True
  | .number ds _ => ds = []
  | .star => (a.int d.precisionArg).toInt = -1

theorem takenPrecision_spec :
    (d.Bare a ↔ d.takenPrecision a = absent) ∧ (d.takenPrecision a).toNat = (d.digitCount a).getD 0 ∧
      (d.takenPrecision a < -1 → d.precision = .star) := by
  unfold Bare takenPrecision digitCount
  cases d.precision with
  | none => exact ⟨iff_of_true trivial rfl, rfl, fun h => absurd h (Int.lt_irrefl (-1))⟩
  | number ds hlt =>
      dsimp only
      cases ds with
      | nil => exact ⟨iff_of_true rfl rfl, rfl, fun h => absurd h (Int.lt_irrefl (-1))⟩
      | cons c ds =>
          have hfield : (Precision.number (c :: ds) hlt).field = digitValue (c :: ds) := rfl
          have habsent : absent = -1 := rfl
          rw [hfield, habsent]
          refine ⟨iff_of_false (List.cons_ne_nil c ds) (by omega), Int.toNat_natCast _, fun h => by omega⟩
  | star =>
      dsimp only
      refine ⟨Iff.rfl, ?_, fun _ => rfl⟩
      have hcond := BitVec.toInt_eq_toNat_cond (a.int d.precisionArg)
      split
      · rename_i hneg
        exact Int.toNat_of_nonpos (Int.le_of_lt hneg)
      · rw [Option.getD_some]
        split at hcond <;> omega

theorem takenWidth_spec (h : d.fieldWidth a < 2 ^ 31) :
    d.takenWidth a = d.fieldWidth a ∨ (d.takenWidth a = absent ∧ d.fieldWidth a = 0) := by
  unfold takenWidth fieldWidth at *
  cases hw : d.width with
  | none => exact .inr ⟨rfl, rfl⟩
  | number c ds => exact .inl rfl
  | star =>
      rw [hw] at h
      dsimp only at h ⊢
      left
      split
      · rw [Fs.toInt32_of_bounds (by omega) (by omega)]
        omega
      · omega

theorem length_digits : (d.digits a).length = d.zeros a + (d.significant a).length := by
  rw [digits_eq, List.length_map, List.length_append, List.length_replicate]

theorem digitCount_le : (d.digitCount a).getD 0 ≤ (d.digits a).length := by
  rw [length_digits]
  unfold zeros
  cases d.digitCount a with
  | none => exact Nat.zero_le _
  | some q =>
      dsimp only [Option.getD_some]
      split <;> omega

theorem length_text : (d.text a).length = max (d.fieldWidth a) ((d.sign a).length + (d.digits a).length) := by
  have hpad : d.pad a = d.fieldWidth a - ((d.sign a).length + (d.digits a).length) := rfl
  have hdigits := d.length_digits a
  rw [text_eq_layout]
  split
  · rw [length_layout, List.length_append, List.length_replicate]
    omega
  · split
    · rw [length_layout, List.length_append, List.length_replicate]
      omega
    · rw [length_layout, List.length_append, List.length_replicate]
      omega

theorem sign_length : (d.sign a).length ≤ 2 := by
  have hsigns : ∀ sign ∈ signs, sign.length ≤ 2 := by decide
  exact hsigns _ (d.sign_mem_signs a)

/-- The padding, where no length overflows. -/
theorem padding_taken {n p : Nat} (hn : n ≤ 25) (hp : p ≤ 2) (hwidth : d.fieldWidth a < 2 ^ 31)
    (hcount : (d.digitCount a).getD 0 + p < 2 ^ 31) (hprecision : -2 ^ 31 + (n : Int) ≤ d.takenPrecision a) :
    (d.taken a).padding n p =
      (((if .zero ∈ d.flags ∧ d.takenPrecision a = absent then 0
          else d.fieldWidth a - (n + p + ((d.digitCount a).getD 0 - n)) : Nat) : Int),
        ((if .zero ∈ d.flags ∧ d.takenPrecision a = absent then d.fieldWidth a - (n + p)
          else (d.digitCount a).getD 0 - n : Nat) : Int)) := by
  obtain ⟨-, hnat, -⟩ := d.takenPrecision_spec a
  have hwide := d.takenWidth_spec a hwidth
  have habsent : absent = -1 := rfl
  have hzero : (d.taken a).flags.zero = decide (.zero ∈ d.flags) := rfl
  have hzeros : (d.taken a).precisionZeros n = ((d.digitCount a).getD 0 - n : Nat) := by
    show (if d.takenPrecision a ≠ absent then max (toInt32 (d.takenPrecision a - n)) 0 else 0) = _
    split
    · rw [Fs.toInt32_of_bounds (by omega) (by omega)]
      omega
    · omega
  have hpadding : (d.taken a).padding n p =
      if d.takenWidth a ≠ absent then
        if (d.taken a).flags.zero ∧ d.takenPrecision a = absent then (0, max (toInt32 (d.takenWidth a - (n + p))) 0)
        else (max (toInt32 (d.takenWidth a - toInt32 (n + p + (d.taken a).precisionZeros n))) 0,
          (d.taken a).precisionZeros n)
      else (0, (d.taken a).precisionZeros n) := rfl
  rw [hpadding, hzeros, hzero, Fs.toInt32_of_bounds (x := n + p + _) (by omega) (by omega)]
  simp only [decide_eq_true_eq]
  rcases hwide with hwide | ⟨hwide, hnone⟩
  · have hne : d.takenWidth a ≠ absent := by omega
    rw [if_pos hne, hwide, Fs.toInt32_of_bounds (by omega) (by omega), Fs.toInt32_of_bounds (by omega) (by omega)]
    split
    · exact congrArg (Prod.mk 0) (by omega)
    · exact congrArg (Prod.mk · _) (by omega)
  · rw [if_neg (not_not.2 hwide), hnone, Nat.zero_sub, Nat.zero_sub, ite_self]
    split
    · exact congrArg (Prod.mk 0) (by omega)
    · rfl

/-- The directives and arguments for which the text is the one that is prescribed. -/
structure Regular : Prop where
  /-- `char` is not negated as one. -/
  char : d.length = .hh → 0 ≤ d.value a
  /-- `%o` prints decimal digits. -/
  octal : d.specifier = .o → d.value a < 8
  /-- A prefix in front of zero. -/
  hexZero : d.specifier = .x → .hash ∈ d.flags → d.value a ≠ 0
  /-- Zero is not printed without a digit. -/
  noDigit : d.value a = 0 → d.digitCount a = some 0 → d.specifier = .o ∧ .hash ∈ d.flags
  /-- No `0` is printed in front of octal digits, unless it is there as padding. -/
  octalZero : d.specifier = .o → .hash ∈ d.flags → d.value a ≠ 0 →
    2 ≤ (d.digitCount a).getD 1 ∨ (.zero ∈ d.flags ∧ d.Bare a ∧ 2 ≤ d.fieldWidth a)
  /-- The precision less the digits is an `int`. -/
  precision : d.precision = .star → -2 ^ 31 + ((max 1 (d.significant a).length : Nat) : Int) ≤ (a.int d.precisionArg).toInt
  /-- Nothing is padded on the right; and on the left with the same characters. -/
  padding : d.fieldWidth a ≤ (d.sign a).length + (d.digits a).length ∨
    (d.left a = false ∧ (.zero ∈ d.flags → (d.digitCount a = none ↔ d.Bare a)))

/-- The text that C prescribes is printed into every buffer that is large enough for it. -/
def Prescribed : Prop :=
  ∀ size : BitVec 32, (d.text a).length < size.toNat → vsnprintf size d.format a = (d.text a).map some

/-- The value in digits, the same on both sides. -/
structure Agrees : Prop where
  sign : (d.taken a).sign (d.bits a) = d.sign a
  digits : Numeral.digits (d.taken a).base 25 ((d.taken a).magnitude (d.bits a)) =
    List.replicate (1 - (d.significant a).length) 0 ++ d.significant a

theorem significant_ne_nil (h : d.value a ≠ 0) : 0 < (d.significant a).length := by
  rw [d.significant_of_ne a h]
  exact List.length_pos_iff.2 (Numeral.digits_succ_ne_nil _ 24 _)

theorem value_eq_zero_iff : d.value a = 0 ↔ (d.significant a).length = 0 := by
  constructor
  · intro hzero
    rw [d.significant_of_eq a hzero]
    rfl
  · intro hlength
    by_contra hne
    exact Nat.ne_of_gt (d.significant_ne_nil a hne) hlength

theorem of_octal (ho : d.specifier = .o) : d.radix = 8 ∧ (d.taken a).base = 10 ∧ 0 ≤ d.value a := by
  refine ⟨?_, ?_, d.value_nonneg a ?_⟩
  · unfold radix
    rw [ho]
  · rw [base_taken, ho]
    rfl
  · unfold signed
    rw [ho]
    rfl

/-- One octal digit. -/
theorem significant_octal (ho : d.specifier = .o) (hlt : d.value a < 8) (h : d.value a ≠ 0) :
    d.significant a = [(d.value a).natAbs] := by
  obtain ⟨hradix, -, hnonneg⟩ := d.of_octal a ho
  rw [d.significant_of_ne a h, hradix]
  exact Numeral.digits_of_lt (by omega) 24

theorem octal_short (ho : d.specifier = .o) (hlt : d.value a < 8) :
    (d.sign a).length = 0 ∧ (d.significant a).length ≤ 1 := by
  refine ⟨?_, ?_⟩
  · unfold sign signed
    rw [ho]
    rfl
  · by_cases hzero : d.value a = 0
    · rw [(d.value_eq_zero_iff a).1 hzero]
      decide
    · rw [d.significant_octal a ho hlt hzero]
      exact Nat.le_refl 1

theorem agrees (hchar : d.length = .hh → 0 ≤ d.value a) (hoctal : d.specifier = .o → d.value a < 8)
    (hhex : d.specifier = .x → .hash ∈ d.flags → d.value a ≠ 0) : d.Agrees a := by
  have hbase := (d.taken a).base_eq
  refine ⟨(d.sign_taken a).trans (if_neg fun h => hhex h.1 h.2.1 h.2.2), ?_⟩
  rw [d.magnitude_eq a fun h => Int.not_lt.2 (hchar h.1) h.2]
  by_cases hzero : d.value a = 0
  · rw [d.significant_of_eq a hzero, hzero]
    exact Numeral.digits_of_lt (by show 0 < _; omega) 24
  · have hsome := d.significant_ne_nil a hzero
    rw [show 1 - (d.significant a).length = 0 by omega, List.replicate_zero, List.nil_append]
    by_cases ho : d.specifier = .o
    · obtain ⟨-, hten, hnonneg⟩ := d.of_octal a ho
      have hlt := hoctal ho
      rw [d.significant_octal a ho hlt hzero, hten]
      exact Numeral.digits_of_lt (by omega) 24
    · rw [d.significant_of_ne a hzero, d.radix_eq a ho]

theorem exists_layout : ∃ ls z ts, d.text a = layout ls (d.sign a) (List.replicate z 0 ++ d.significant a) ts := by
  rw [text_eq_layout]
  split
  · exact ⟨_, _, _, rfl⟩
  · split
    · exact ⟨_, _, _, rfl⟩
    · exact ⟨_, _, _, rfl⟩

theorem lt_of_mem_zeros {z : Nat} {ds : List Nat} (hds : ∀ c ∈ ds, c < 16) : ∀ c ∈ List.replicate z 0 ++ ds, c < 16 := by
  intro c hc
  rcases List.mem_append.1 hc with hc | hc
  · rw [List.eq_of_mem_replicate hc]
    decide
  · exact hds c hc

theorem not_mem_layout_x {ls ts : Nat} {ds : List Nat} (hds : ∀ c ∈ ds, c < 16) : 120 ∉ layout ls [] ds ts := by
  have hdigits := not_mem_digitChars hds fun c hc => (digitChar_ne c hc).2
  unfold layout
  simp only [List.mem_append, List.mem_replicate, List.not_mem_nil, hdigits, or_false]
  rintro (⟨-, heq⟩ | ⟨-, heq⟩) <;> exact absurd heq (by decide)

section

variable {d a} (h : (d.taken a).intText (d.bits a) = d.text a)
include h

/-- Where the texts are the same, their digits stand for the same in every base. -/
theorem value_eq_of_text_eq (b : Nat) :
    Numeral.value b (Numeral.digits (d.taken a).base 25 ((d.taken a).magnitude (d.bits a))) =
      Numeral.value b (d.significant a) := by
  obtain ⟨ls, z, ts, htext⟩ := d.exists_layout a
  have hbase := (d.taken a).base_eq
  have hzeros (z : Nat) (ds : List Nat) : Numeral.value b (List.replicate z 0 ++ ds) = Numeral.value b ds :=
    Numeral.value_zeros_append b (fun _ hd => List.eq_of_mem_replicate hd) ds
  have hlow : ∀ c ∈ Numeral.digits (d.taken a).base 25 ((d.taken a).magnitude (d.bits a)), c < 16 := fun c hc =>
    (Numeral.digits_lt (by omega) c hc).trans_le (by omega)
  rw [Fs.intText_eq_layout, htext] at h
  have heq := value_eq_of_layout_eq ((d.taken a).sign_mem_signs (d.bits a)) (d.sign_mem_signs a) (lt_of_mem_zeros hlow)
    (lt_of_mem_zeros (d.significant_lt a)) h b
  rwa [hzeros, hzeros] at heq

theorem nonneg_of_text_eq (hh : d.length = .hh) : 0 ≤ d.value a := by
  refine Int.not_lt.1 fun hneg => d.magnitude_ne a hh hneg ?_
  have hbase := (d.taken a).base_eq
  have ho : d.specifier ≠ .o := fun ho => Int.not_lt.2 (d.of_octal a ho).2.2 hneg
  have hmagnitude := (d.taken a).magnitude_lt (d.bits a)
  have heq := value_eq_of_text_eq h (d.taken a).base
  rwa [Numeral.value_digits (by omega) (lt_pow_25 (by omega) hmagnitude), d.significant_of_ne a (Int.ne_of_lt hneg),
    d.radix_eq a ho, Numeral.value_digits (by omega) (lt_pow_25 (by omega) (d.natAbs_value_lt a))] at heq

/-- Octal digits stand for more in decimal. -/
theorem lt_eight_of_text_eq (ho : d.specifier = .o) : d.value a < 8 := by
  refine Int.not_le.1 fun hle => ?_
  obtain ⟨height, hten, hnonneg⟩ := d.of_octal a ho
  have hvalue {b : Nat} (hb : 8 ≤ b) : (d.value a).natAbs < b ^ 25 := lt_pow_25 hb (d.natAbs_value_lt a)
  have heq := value_eq_of_text_eq h 10
  rw [hten, d.magnitude_eq a fun h => Int.not_lt.2 hnonneg h.2, Numeral.value_digits (by decide) (hvalue (by decide)),
    d.significant_of_ne a (by omega), height] at heq
  have hlt := Numeral.lt_value_digits (b := 8) (c := 10) (by decide) (by decide) (by omega) (hvalue (Nat.le_refl 8))
  exact Nat.ne_of_lt hlt heq

theorem ne_zero_of_text_eq (hx : d.specifier = .x) (hhash : .hash ∈ d.flags) : d.value a ≠ 0 := by
  intro hzero
  obtain ⟨ls, z, ts, htext⟩ := d.exists_layout a
  have hmem : 120 ∈ d.text a := by
    rw [← h]
    unfold Fs.intText
    rw [sign_taken, if_pos ⟨hx, hhash, hzero⟩]
    simp
  have hsign : d.sign a = [] := by
    unfold sign signed
    rw [hx, hzero]
    simp
  rw [htext, hsign] at hmem
  exact not_mem_layout_x (lt_of_mem_zeros (d.significant_lt a)) hmem

end

theorem length_number (hagrees : d.Agrees a) :
    ((d.taken a).number (d.bits a)).length = max 1 (d.significant a).length := by
  unfold Fs.number
  rw [List.length_map, hagrees.digits, List.length_append, List.length_replicate]
  omega

theorem takenPrecision_ge : -2 ^ 31 ≤ d.takenPrecision a := by
  have habsent : -2 ^ 31 ≤ absent := by decide
  unfold takenPrecision
  cases d.precision with
  | none => exact habsent
  | number ds =>
      cases ds with
      | nil => exact habsent
      | cons c ds => exact Int.le_trans (by decide) (Int.natCast_nonneg _)
  | star =>
      have hbound := BitVec.le_two_mul_toInt (x := a.int d.precisionArg)
      dsimp only
      omega

/-- Spaces and zeros are the same on both sides, in front of `k` significant digits and `s` characters of sign: the source
takes the width `w` and the precision `p` for them, and C these and the zeros that it prescribes. -/
def SamePadding (w s k zeros : Nat) (p : Option Nat) (bare zero left : Prop) [Decidable bare] [Decidable zero]
    [Decidable left] : Prop :=
  let n := max 1 k
  let ls := if zero ∧ bare then 0 else w - (n + s + (p.getD 0 - n))
  let lz := if zero ∧ bare then w - (n + s) else p.getD 0 - n
  let pad := w - (s + (zeros + k))
  if left then ls = 0 ∧ lz + (1 - k) = zeros ∧ pad = 0
  else if zero ∧ p = none then ls = 0 ∧ lz + (1 - k) = pad + zeros
  else ls = pad ∧ lz + (1 - k) = zeros

/-- What is left to be the same. -/
theorem intText_eq_iff (hagrees : d.Agrees a) (hlen : (d.text a).length < 2 ^ 31)
    (hprecision : -2 ^ 31 + ((max 1 (d.significant a).length : Nat) : Int) ≤ d.takenPrecision a) :
    (d.taken a).intText (d.bits a) = d.text a ↔
      SamePadding (d.fieldWidth a) (d.sign a).length (d.significant a).length (d.zeros a) (d.digitCount a)
        (d.takenPrecision a = absent) (.zero ∈ d.flags) (d.left a) := by
  have hn := d.length_number a hagrees
  have hn25 := ((d.taken a).number_length (d.bits a)).2
  have hcount := d.digitCount_le a
  have hpads := d.padding_taken a (n := ((d.taken a).number (d.bits a)).length) (p := (d.sign a).length) hn25
    (d.sign_length a) (by rw [length_text] at hlen; omega) (by rw [length_text] at hlen; omega) (by rwa [hn])
  have hlow (z : Nat) := lt_of_mem_zeros (z := z) (d.significant_lt a)
  have hzeros (z z' : Nat) : List.replicate z 0 ++ d.significant a = List.replicate z' 0 ++ d.significant a ↔ z = z' := by
    rw [List.append_cancel_right_eq]
    exact ⟨fun h => by simpa using congrArg List.length h, fun h => h ▸ rfl⟩
  rw [Fs.intText_eq_layout, hagrees.sign, hpads, hn, hagrees.digits, ← List.append_assoc, ← List.replicate_add,
    text_eq_layout]
  have hpad : d.pad a = d.fieldWidth a - ((d.sign a).length + (d.zeros a + (d.significant a).length)) := by
    rw [← length_digits]
    rfl
  unfold SamePadding
  dsimp only
  rw [← hpad, Int.toNat_natCast, Int.toNat_natCast]
  generalize (if .zero ∈ d.flags ∧ d.takenPrecision a = absent then 0 else _) = ls
  generalize (if .zero ∈ d.flags ∧ d.takenPrecision a = absent then _ else _) = lz
  have hsome : List.replicate (lz + (1 - (d.significant a).length)) 0 ++ d.significant a ≠ [] := by
    intro hnil
    have hlength := congrArg List.length hnil
    rw [List.length_append, List.length_replicate, List.length_nil] at hlength
    omega
  by_cases hleft : d.left a
  · rw [if_pos hleft, if_pos hleft, layout_eq_iff (hlow _) (hlow _) hsome, hzeros]
  · rw [if_neg hleft, if_neg hleft]
    by_cases hpad : .zero ∈ d.flags ∧ d.digitCount a = none
    · rw [if_pos hpad, if_pos hpad, layout_eq_iff (hlow _) (hlow _) hsome, hzeros, and_iff_left rfl]
    · rw [if_neg hpad, if_neg hpad, layout_eq_iff (hlow _) (hlow _) hsome, hzeros, and_iff_left rfl]

/-- A precision that is so negative that it is one of billions of digits. -/
theorem le_intLength_of_overflow (hlow : -2 ^ 31 ≤ d.takenPrecision a)
    (hover : d.takenPrecision a < -2 ^ 31 + (((d.taken a).number (d.bits a)).length : Int)) :
    2 ^ 31 ≤ (d.taken a).intLength (d.bits a) := by
  obtain ⟨hone, hn25⟩ := (d.taken a).number_length (d.bits a)
  generalize hn : ((d.taken a).number (d.bits a)).length = n at *
  have hbare : (d.taken a).precision ≠ absent := by
    show d.takenPrecision a ≠ -1
    omega
  have hzeros : (d.taken a).precisionZeros n = d.takenPrecision a - n + 2 ^ 32 := by
    unfold Fs.precisionZeros
    rw [if_pos hbare]
    show max (toInt32 (d.takenPrecision a - n)) 0 = _
    unfold toInt32
    omega
  have hsecond (p : Int) : ((d.taken a).padding n p).2 = (d.taken a).precisionZeros n := by
    unfold Fs.padding
    dsimp only
    rw [if_neg (c := (d.taken a).flags.zero = true ∧ _) fun h => hbare h.2]
    split <;> rfl
  unfold Fs.intLength
  dsimp only
  rw [hn, hsecond, hzeros]
  omega

theorem samePadding_iff_of_eq {w s k zeros : Nat} {p : Option Nat} {bare zero left : Prop} [Decidable bare] [Decidable zero]
    [Decidable left] (hbare : bare → p.getD 0 = 0) (hzeros : zeros + k = max (p.getD 0) (max 1 k)) :
    SamePadding w s k zeros p bare zero left ↔
      w ≤ s + (zeros + k) ∨ (¬ left ∧ (zero → (p = none ↔ bare))) := by
  have hspaces : (if zero ∧ bare then 0 else w - (max 1 k + s + (p.getD 0 - max 1 k))) =
      if zero ∧ bare then 0 else w - (s + (zeros + k)) := by
    split
    · rfl
    · omega
  have hcount : (if zero ∧ bare then w - (max 1 k + s) else p.getD 0 - max 1 k) + (1 - k) =
      if zero ∧ bare then w - (s + (zeros + k)) + zeros else zeros := by
    split
    · rename_i hpad
      have hnone := hbare hpad.2
      omega
    · omega
  have hpad : w ≤ s + (zeros + k) ↔ w - (s + (zeros + k)) = 0 := Nat.sub_eq_zero_iff_le.symm
  unfold SamePadding
  dsimp only
  rw [hspaces, hcount, hpad]
  generalize w - (s + (zeros + k)) = pad
  by_cases hboth : zero ∧ bare
  · -- zeros in front
    rw [if_pos hboth, if_pos hboth]
    by_cases hleft : left
    · simp [hleft]
    · by_cases hnone : p = none
      · simp [hleft, hboth, hnone]
      · simp [hleft, hboth, hnone, eq_comm]
  · -- spaces
    rw [if_neg hboth, if_neg hboth]
    by_cases hleft : left
    · simp [hleft]
    · by_cases hnone : zero ∧ p = none
      · have hbare' : ¬ bare := fun h => hboth ⟨hnone.1, h⟩
        simp [hleft, hnone, hbare']
      · have hright : zero → (p = none ↔ bare) := fun hzero =>
          iff_of_false (fun h => hnone ⟨hzero, h⟩) fun h => hboth ⟨hzero, h⟩
        rw [if_neg hleft, if_neg hnone]
        exact iff_of_true ⟨rfl, rfl⟩ (.inr ⟨hleft, hright⟩)

/-- One octal digit, in front of which C prescribes a zero: the source has it as padding only. -/
theorem samePadding_octal {w : Nat} {p : Option Nat} {bare zero left : Prop} [Decidable bare] [Decidable zero]
    [Decidable left] (hbare : bare → p.getD 0 = 0) (hp : p.getD 1 ≤ 1) :
    SamePadding w 0 1 1 p bare zero left ↔
      (zero ∧ bare ∧ 2 ≤ w) ∧ (w ≤ 2 ∨ (¬ left ∧ (zero → (p = none ↔ bare)))) := by
  have hle : p.getD 0 ≤ 1 := by
    cases p with
    | none => exact Nat.zero_le 1
    | some q => exact hp
  unfold SamePadding
  dsimp only
  by_cases hboth : zero ∧ bare
  · have hzero := hboth.1
    have hb := hboth.2
    rw [if_pos hboth, if_pos hboth]
    by_cases hleft : left
    · rw [if_pos hleft]
      constructor
      · exact fun h => ⟨⟨hzero, hb, by omega⟩, .inl (by omega)⟩
      · rintro ⟨⟨-, -, hle⟩, hside | hside⟩
        · exact ⟨rfl, by omega, by omega⟩
        · exact absurd hleft hside.1
    · rw [if_neg hleft]
      by_cases hnone : p = none
      · rw [if_pos ⟨hzero, hnone⟩]
        constructor
        · exact fun h => ⟨⟨hzero, hb, by omega⟩, .inr ⟨hleft, fun _ => iff_of_true hnone hb⟩⟩
        · exact fun h => ⟨rfl, by omega⟩
      · rw [if_neg fun h => hnone h.2]
        constructor
        · exact fun h => ⟨⟨hzero, hb, by omega⟩, .inl (by omega)⟩
        · rintro ⟨⟨-, -, hle⟩, hside | hside⟩
          · exact ⟨by omega, by omega⟩
          · exact absurd ((hside.2 hzero).2 hb) hnone
  · refine iff_of_false (fun h => ?_) fun h => hboth ⟨h.1.1, h.1.2.1⟩
    rw [if_neg hboth, if_neg hboth] at h
    split at h
    · omega
    · split at h <;> omega

theorem samePadding_iff {w s k zeros : Nat} {p : Option Nat} {bare zero left octal : Prop} [Decidable bare] [Decidable zero]
    [Decidable left] [Decidable octal] (hbare : bare → p.getD 0 = 0) (hoctal : octal → s = 0 ∧ k ≤ 1)
    (hzeros : zeros = if octal ∧ p.getD 1 - k = 0 then 1 else p.getD 1 - k) :
    SamePadding w s k zeros p bare zero left ↔
      (k = 0 → p = some 0 → octal) ∧ (octal → k ≠ 0 → 2 ≤ p.getD 1 ∨ (zero ∧ bare ∧ 2 ≤ w)) ∧
        (w ≤ s + (zeros + k) ∨ (¬ left ∧ (zero → (p = none ↔ bare)))) := by
  by_cases hfirst : octal ∧ p.getD 1 - k = 0
  · rw [if_pos hfirst] at hzeros
    obtain ⟨rfl, hk⟩ := hoctal hfirst.1
    subst hzeros
    rcases Nat.le_one_iff_eq_zero_or_eq_one.1 hk with rfl | rfl
    · have hnone : p.getD 0 ≤ 1 := by
        cases p with
        | none => exact Nat.zero_le 1
        | some q => exact (Nat.le_of_eq hfirst.2).trans (Nat.zero_le 1)
      rw [samePadding_iff_of_eq hbare (by omega)]
      exact ⟨fun h => ⟨fun _ _ => hfirst.1, fun _ hne => absurd rfl hne, h⟩, fun h => h.2.2⟩
    · have hle : p.getD 1 ≤ 1 := by omega
      rw [samePadding_octal hbare hle, Nat.zero_add]
      constructor
      · exact fun h => ⟨fun hne => absurd hne Nat.one_ne_zero, fun _ _ => .inr h.1, h.2⟩
      · exact fun h => ⟨(h.2.1 hfirst.1 Nat.one_ne_zero).resolve_left (by omega), h.2.2⟩
  · rw [if_neg hfirst] at hzeros
    have hmore : octal → k ≠ 0 → 2 ≤ p.getD 1 := fun ho hk => by
      have hne : p.getD 1 - k ≠ 0 := fun hzero => hfirst ⟨ho, hzero⟩
      omega
    by_cases hnone : k = 0 ∧ p = some 0
    · -- C prints no digit
      obtain ⟨rfl, rfl⟩ := hnone
      have ho : ¬ octal := fun ho => hfirst ⟨ho, rfl⟩
      refine iff_of_false (fun h => ?_) fun h => ho (h.1 rfl rfl)
      have hzero : zeros = 0 := hzeros
      unfold SamePadding at h
      dsimp only at h
      rw [hzero] at h
      split at h
      · omega
      · split at h
        · rename_i hcount
          cases hcount.2
        · omega
    · have hcount : zeros + k = max (p.getD 0) (max 1 k) := by
        cases p with
        | none =>
            dsimp only [Option.getD_none] at hzeros ⊢
            omega
        | some q =>
            have hq : ¬ (k = 0 ∧ q = 0) := fun h => hnone ⟨h.1, congrArg some h.2⟩
            dsimp only [Option.getD_some] at hzeros ⊢
            omega
      rw [samePadding_iff_of_eq hbare hcount]
      exact ⟨fun h => ⟨fun hk hp => absurd ⟨hk, hp⟩ hnone, fun ho hk => .inl (hmore ho hk), h⟩, fun h => h.2.2⟩

/-- The precision less the digits is an `int` where the text is the one that is prescribed. -/
theorem precision_ge_of_text_eq (hagrees : d.Agrees a) (hlen : (d.text a).length < 2 ^ 31)
    (heq : (d.taken a).intText (d.bits a) = d.text a) :
    -2 ^ 31 + ((max 1 (d.significant a).length : Nat) : Int) ≤ d.takenPrecision a := by
  refine Int.not_lt.1 fun hover => ?_
  rw [← d.length_number a hagrees] at hover
  have hle := d.le_intLength_of_overflow a (d.takenPrecision_ge a) hover
  rw [← Fs.length_intText, heq] at hle
  omega

theorem Regular.precision_ge (hr : d.Regular a) (hagrees : d.Agrees a) :
    -2 ^ 31 + ((max 1 (d.significant a).length : Nat) : Int) ≤ d.takenPrecision a := by
  obtain ⟨-, -, hstar⟩ := d.takenPrecision_spec a
  by_cases hfetched : d.precision = .star
  · unfold takenPrecision
    rw [hfetched]
    exact hr.precision hfetched
  · have hn := ((d.taken a).number_length (d.bits a)).2
    rw [d.length_number a hagrees] at hn
    have hge : -1 ≤ d.takenPrecision a := Int.not_lt.1 fun hlt => hfetched (hstar hlt)
    omega

/-- `samePadding_iff` at what the two sides take. -/
theorem samePadding_taken_iff (hoctal : d.specifier = .o → d.value a < 8) :
    SamePadding (d.fieldWidth a) (d.sign a).length (d.significant a).length (d.zeros a) (d.digitCount a)
        (d.takenPrecision a = absent) (.zero ∈ d.flags) (d.left a) ↔
      ((d.significant a).length = 0 → d.digitCount a = some 0 → d.specifier = .o ∧ .hash ∈ d.flags) ∧
        (d.specifier = .o ∧ .hash ∈ d.flags → (d.significant a).length ≠ 0 →
          2 ≤ (d.digitCount a).getD 1 ∨ (.zero ∈ d.flags ∧ d.takenPrecision a = absent ∧ 2 ≤ d.fieldWidth a)) ∧
        (d.fieldWidth a ≤ (d.sign a).length + (d.zeros a + (d.significant a).length) ∨
          (¬ d.left a ∧ (.zero ∈ d.flags → (d.digitCount a = none ↔ d.takenPrecision a = absent)))) := by
  obtain ⟨-, hnat, -⟩ := d.takenPrecision_spec a
  refine samePadding_iff (fun habsent => ?_) (fun ho => ?_) ?_
  · rw [← hnat, habsent]
    rfl
  · exact d.octal_short a ho.1 (hoctal ho.1)
  · unfold zeros
    simp only [and_assoc]

theorem prescribed_iff_intText (h : (d.text a).length < 2 ^ 31) :
    d.Prescribed a ↔ (d.taken a).intText (d.bits a) = d.text a := by
  have hmap : Function.Injective (List.map (some : UInt8 → Option UInt8)) := List.map_injective_iff.2 (Option.some_injective _)
  rw [← Fs.printInt_eq_iff _ _ h]
  constructor
  · intro hprint size hsize hle
    have hnat : (BitVec.ofNat 32 (size + 1)).toNat = size + 1 := by
      rw [BitVec.toNat_ofNat]
      omega
    have heq := hprint (BitVec.ofNat 32 (size + 1)) (by omega)
    rw [vsnprintf_format, hnat, if_pos (Nat.succ_pos size), Nat.add_sub_cancel] at heq
    exact hmap heq
  · intro hprint size hlt
    rw [vsnprintf_format, if_pos (by omega), hprint (size.toNat - 1) (by omega) (by omega)]

/-- **Integers are printed as C prescribes** for these directives and values, and for no others. -/
theorem prescribed_iff_regular (h : (d.text a).length < 2 ^ 31) : d.Prescribed a ↔ d.Regular a := by
  obtain ⟨hbare, -, -⟩ := d.takenPrecision_spec a
  have hvalue := d.value_eq_zero_iff a
  rw [d.prescribed_iff_intText a h]
  constructor
  · intro heq
    have hchar := nonneg_of_text_eq heq
    have hoctal := lt_eight_of_text_eq heq
    have hhex := ne_zero_of_text_eq heq
    have hagrees := d.agrees a hchar hoctal hhex
    have hprecision := d.precision_ge_of_text_eq a hagrees h heq
    have hsame := (d.intText_eq_iff a hagrees h hprecision).1 heq
    obtain ⟨hdigit, hzero, hside⟩ := (d.samePadding_taken_iff a hoctal).1 hsame
    refine ⟨hchar, hoctal, hhex, fun hv hc => hdigit (hvalue.1 hv) hc, fun hspec hhash hv => ?_, fun hfetched => ?_, ?_⟩
    · rw [hbare]
      exact hzero ⟨hspec, hhash⟩ fun hk => hv (hvalue.2 hk)
    · unfold takenPrecision at hprecision
      rw [hfetched] at hprecision
      exact hprecision
    · rw [hbare, length_digits]
      exact hside.imp_right fun hright => ⟨Bool.eq_false_iff.2 hright.1, hright.2⟩
  · intro hr
    have hagrees := d.agrees a hr.char hr.octal hr.hexZero
    have hzero := hr.octalZero
    have hside := hr.padding
    rw [hbare] at hzero
    rw [hbare, length_digits] at hside
    refine (d.intText_eq_iff a hagrees h (hr.precision_ge d a hagrees)).2 ((d.samePadding_taken_iff a hr.octal).2 ⟨?_, ?_, ?_⟩)
    · exact fun hk hc => hr.noDigit (hvalue.2 hk) hc
    · exact fun halt hk => hzero halt.1 halt.2 fun hv => hk (hvalue.1 hv)
    · exact hside.imp_right fun hright => ⟨Bool.eq_false_iff.1 hright.1, hright.2⟩

/-- `%d` and `%o`. -/
def decimal : Directive := ⟨[], .none, .none, .none, .d⟩

def octal : Directive := ⟨[], .none, .none, .none, .o⟩

/-- One number. -/
def number (v : BitVec 32) : Args := { noArgs with int := fun _ => v }

theorem prescribed_decimal : decimal.Prescribed (number (-5)) :=
  (prescribed_iff_regular decimal (number (-5)) (by decide)).2
    { char := fun h => by cases h
      octal := fun h => by cases h
      hexZero := fun h => by cases h
      noDigit := fun _ h => by cases h
      octalZero := fun h => by cases h
      precision := fun h => by cases h
      padding := .inl (Nat.zero_le _) }

example : decimal.text (number (-5)) = ascii "-5" := by decide

/-- `%o` prints 8 as `8`. -/
theorem not_prescribed_octal : ¬ octal.Prescribed (number 8) := fun h => by
  have heq := (octal.prescribed_iff_intText (number 8) (by decide)).1 h
  exact absurd (lt_eight_of_text_eq heq rfl) (by decide)

end Directive

end YieldStm32.Stdio
