import YieldStm32.Util.Prescribed
import YieldStm32.Util.ScanInt

/-!
# Integers that are printed and scanned again

* `Figures` : the digits of a number, and what `scan_int` makes of them behind a sign;
* `Directive.printed` : the text of an integer without a width and a precision;
* `scan_printed` : it is scanned as the integer that was printed.
-/

namespace YieldStm32.Stdio

/-- Memory with a text at its beginning. -/
def memory (text : List UInt8) (behind : Nat → UInt8) (i : Nat) : UInt8 := (text[i]?).getD (behind i)

theorem text_memory (text : List UInt8) (behind : Nat → UInt8) :
    Cursor.text (memory text behind) ⟨0, text.length⟩ = text := by
  show (List.range text.length).map (fun i => memory text behind (0 + i)) = text
  refine List.ext_getElem (by simp) fun i hi hi' => ?_
  rw [List.getElem_map, List.getElem_range, Nat.zero_add]
  unfold memory
  rw [List.getElem?_eq_getElem hi']
  rfl

/-! ## Digits -/

theorem digitVal_digitChar : ∀ d < 16, digitVal (Fs.digitChar d) = d := by decide

/-- A digit is no sign, no space and no end; and the first one of a prefix is zero. -/
theorem digitChar_other : ∀ d < 16, Fs.digitChar d ∉ [0, 43, 45] ∧ ¬ isspace (Fs.digitChar d) ∧
    (Fs.digitChar d = 48 → d = 0) := by decide

/-! ## The value -/

/-- The sign of a magnitude, at any width. -/
theorem setWidth_magnitude {w : Nat} (hw : w ≤ 64) (negative : Bool) (x : BitVec w) :
    (if negative then -BitVec.ofNat 64 (if negative then -x else x).toNat
      else BitVec.ofNat 64 (if negative then -x else x).toNat).setWidth w = x := by
  have hself (y : BitVec w) : (BitVec.ofNat 64 y.toNat).setWidth w = y := by
    rw [BitVec.setWidth_ofNat_of_le hw, BitVec.ofNat_toNat, BitVec.setWidth_eq]
  cases negative with
  | false => exact hself x
  | true =>
      rw [if_pos rfl, if_pos rfl, BitVec.setWidth_neg_of_le hw, hself, BitVec.neg_neg]

/-! ## The text of an integer -/

/-- The digits of a number, in a base that is no larger than 16. -/
structure Figures (base : Nat) (ds : List Nat) : Prop where
  base_pos : base ≠ 0
  base_le : base ≤ 16
  lt : ∀ d ∈ ds, d < base
  ne_nil : ds ≠ []
  length_le : ds.length ≤ 25
  head : 1 < ds.length → ds.head? ≠ some 0

theorem figures_digits {base v : Nat} (hbase : 8 ≤ base ∧ base ≤ 16) (hv : v < 2 ^ 64) :
    Figures base (Numeral.digits base 25 v) where
  base_pos := by omega
  base_le := hbase.2
  lt := Numeral.digits_lt (by omega)
  ne_nil := Numeral.digits_succ_ne_nil base 24 v
  length_le := Numeral.length_digits_le base 25 v
  head := fun hmore => by
    refine Numeral.head_digits (by omega) (Nat.pos_of_ne_zero ?_) (Directive.lt_pow_25 hbase.1 hv)
    rintro rfl
    rw [Numeral.digits_of_lt (by omega)] at hmore
    exact Nat.lt_irrefl 1 hmore

/-- A sign, and digits. -/
def signedText (negative : Bool) (ds : List Nat) : List UInt8 := (if negative then [45] else []) ++ ds.map Fs.digitChar

section

variable {base : Nat} {ds : List Nat}

theorem Figures.unsigned_eq (h : Figures base ds) (negative : Bool) :
    signOf (signedText negative ds) = (if negative then some true else none) ∧
      unsigned (signedText negative ds) = ds.map Fs.digitChar := by
  cases negative with
  | true => exact ⟨rfl, rfl⟩
  | false =>
      obtain ⟨d, ds, rfl⟩ := List.exists_cons_of_ne_nil h.ne_nil
      have hother := (digitChar_other d ((h.lt d List.mem_cons_self).trans_le h.base_le)).1
      have hsign : signOf (signedText false (d :: ds)) = none := by
        have hplus : Fs.digitChar d ≠ 43 := fun heq => hother (by rw [heq]; decide)
        have hminus : Fs.digitChar d ≠ 45 := fun heq => hother (by rw [heq]; decide)
        exact (if_neg hplus).trans (if_neg hminus)
      exact ⟨hsign, by rw [unsigned, hsign]; rfl⟩

/-- There is no prefix: a zero is the only digit. -/
theorem Figures.prefixOf_eq (h : Figures base ds) (sp : Specifier) : prefixOf sp (ds.map Fs.digitChar) = none := by
  match ds with
  | [] => rfl
  | [d] => rfl
  | d :: e :: ds =>
      have hd := (h.lt d List.mem_cons_self).trans_le h.base_le
      have hmore : 1 < (d :: e :: ds).length := Nat.succ_lt_succ (Nat.succ_pos _)
      have hne : Fs.digitChar d ≠ 48 := fun heq => h.head hmore (congrArg some ((digitChar_other d hd).2.2 heq))
      exact if_neg hne

theorem Figures.map_digitVal (h : Figures base ds) : (ds.map Fs.digitChar).map digitVal = ds := by
  rw [List.map_map]
  refine (List.map_congr_left fun d hd => ?_).trans (List.map_id ds)
  exact digitVal_digitChar d ((h.lt d hd).trans_le h.base_le)

theorem Figures.counted_eq (h : Figures base ds) : counted base (ds.map Fs.digitChar) = ds.map Fs.digitChar := by
  refine List.takeWhile_eq_self_iff.2 fun c hc => ?_
  obtain ⟨d, hd, rfl⟩ := List.mem_map.1 hc
  rw [digitVal_digitChar d ((h.lt d hd).trans_le h.base_le)]
  exact decide_eq_true (h.lt d hd)

/-- All digits are kept, but for the only zero. -/
theorem Figures.value_kept (h : Figures base ds) : Numeral.value base (kept ds) = Numeral.value base ds := by
  obtain ⟨d, ds, rfl⟩ := List.exists_cons_of_ne_nil h.ne_nil
  by_cases hzero : d = 0
  · obtain rfl : ds = [] := by
      by_contra hmore
      exact h.head (Nat.succ_lt_succ (List.length_pos_iff.2 hmore)) (congrArg some hzero)
    have hall : ∀ x ∈ [d], x = 0 := fun x hx => (List.mem_singleton.1 hx).trans hzero
    rw [kept, List.dropWhile_cons_of_pos (by simpa using hzero), ← List.append_nil [d],
      Numeral.value_zeros_append base hall []]
    rfl
  · rw [kept, List.dropWhile_cons_of_neg (by simpa using hzero),
      List.take_of_length_le (Nat.le_trans h.length_le (by decide))]

/-- What `scan_int` counts and stores, of a sign and digits. -/
theorem Figures.scanned (h : Figures base ds) {sp : Specifier} (hsp : sp.radix = base) (negative : Bool) :
    countedOf sp (signedText negative ds) = ds.map Fs.digitChar ∧
      headLength sp (signedText negative ds) + ds.length = (signedText negative ds).length ∧
      keptValue sp (signedText negative ds) =
        if negative then -BitVec.ofNat 64 (Numeral.value base ds) else BitVec.ofNat 64 (Numeral.value base ds) := by
  obtain ⟨hsign, hunsigned⟩ := h.unsigned_eq negative
  have hpfx := h.prefixOf_eq sp
  have hbase : baseOf sp (signedText negative ds) = base := by
    rw [baseOf, hunsigned, hpfx]
    exact hsp
  have hcounted : countedOf sp (signedText negative ds) = ds.map Fs.digitChar := by
    rw [countedOf, hbase, figures, hunsigned, unprefixed, hpfx]
    exact h.counted_eq
  refine ⟨hcounted, ?_, ?_⟩
  · rw [headLength, hsign, hunsigned, hpfx, signedText, List.length_append, List.length_map]
    cases negative <;> rfl
  · rw [keptValue, hcounted, h.map_digitVal, hbase, h.value_kept, hsign]
    cases negative <;> rfl

end

/-! ## Directives without a width and a precision -/

namespace Directive

/-- A conversion with a length modifier. -/
def plain (k : LengthModifier) (c : Specifier) : Directive := ⟨[], .none, .none, k, c⟩

/-- The argument, as it is stored. -/
def argument (k : LengthModifier) (a : Args) : Stored :=
  match k with
  | .l => .int 32 (a.long 0)
  | .ll => .int 64 (a.longLong 0)
  | _ => .int 32 (a.int 0)

variable (k : LengthModifier) (c : Specifier) (a : Args)

/-- The text of the argument. -/
def printed : List UInt8 :=
  let fs := (plain k c).taken a
  let val := (plain k c).bits a
  signedText (fs.negative val) (Numeral.digits fs.base 25 (fs.magnitude val))

theorem intText_plain : ((plain k c).taken a).intText ((plain k c).bits a) = printed k c a := by
  have hplus : ((plain k c).taken a).flags.plus = false := rfl
  have hspace : ((plain k c).taken a).flags.space = false := rfl
  have hhash : ((plain k c).taken a).flags.hash = false := rfl
  have hwidth : ¬ ((plain k c).taken a).width ≠ absent := fun h => h rfl
  have hprecision : ¬ ((plain k c).taken a).precision ≠ absent := fun h => h rfl
  have hsign (val : BitVec 64) : ((plain k c).taken a).sign val =
      if ((plain k c).taken a).negative val then [45] else [] := by
    unfold Fs.sign
    rw [hplus, hspace, hhash]
    simp
  have hpadding (n p : Int) : ((plain k c).taken a).padding n p = (0, 0) := by
    unfold Fs.padding Fs.precisionZeros
    rw [if_neg hwidth, if_neg hprecision]
  unfold Fs.intText
  dsimp only
  rw [hpadding, hsign]
  simp [printed, signedText, Fs.number]

theorem figures_printed :
    Figures ((plain k c).taken a).base
      (Numeral.digits ((plain k c).taken a).base 25 (((plain k c).taken a).magnitude ((plain k c).bits a))) := by
  have hbase := ((plain k c).taken a).base_eq
  exact figures_digits (by omega) (Fs.magnitude_lt _ _)

theorem length_printed : (printed k c a).length ≤ 26 := by
  have hlength := (figures_printed k c a).length_le
  unfold printed signedText
  rw [List.length_append, List.length_map]
  split
  · show 1 + _ ≤ 26
    omega
  · show 0 + _ ≤ 26
    omega

theorem vsnprintf_plain {size : BitVec 32} (h : (printed k c a).length < size.toNat) :
    vsnprintf size (plain k c).format a = (printed k c a).map some := by
  have hle : ((plain k c).taken a).intLength ((plain k c).bits a) ≤ size.toNat - 1 := by
    rw [← Fs.length_intText, intText_plain]
    omega
  rw [vsnprintf_format, if_pos (Nat.zero_lt_of_lt h), Fs.printInt_of_le _ _ hle (by omega), intText_plain]

theorem skipSpaces_of_not_isspace {m : Nat → UInt8} {s : Nat} (h : ¬ isspace (m s)) (size : Nat) :
    skipSpaces m s size = ⟨s, size⟩ := by
  cases size with
  | zero => rfl
  | succ size => exact if_neg fun hspace => h hspace.2

/-- The text begins with no space. -/
theorem not_isspace_printed (behind : Nat → UInt8) : ¬ isspace (memory (printed k c a) behind 0) := by
  have hfigures := figures_printed k c a
  unfold printed
  dsimp only at hfigures ⊢
  generalize Numeral.digits _ 25 _ = ds at *
  cases ((plain k c).taken a).negative ((plain k c).bits a) with
  | true =>
      show ¬ isspace 45
      decide
  | false =>
      cases ds with
      | nil => exact absurd rfl hfigures.ne_nil
      | cons d ds =>
          have hd := (hfigures.lt d List.mem_cons_self).trans_le hfigures.base_le
          exact (digitChar_other d hd).2.1

/-- The value, converted to the type of the argument. -/
theorem argument_eq (hk : k = .none ∨ k = .l ∨ k = .ll) :
    (let fs := (plain k c).taken a
     let val := (plain k c).bits a
     (plain k c).fs.length.store
       (if fs.negative val then -BitVec.ofNat 64 (fs.magnitude val) else BitVec.ofNat 64 (fs.magnitude val))) =
      argument k a := by
  have hint {x y : BitVec 32} (h : x = y) : Stored.int 32 x = .int 32 y := congrArg _ h
  rcases hk with rfl | rfl | rfl
  · have hself : ((plain .none c).bits a).setWidth 32 = a.int 0 :=
      (BitVec.setWidth_setWidth_of_le _ (by decide)).trans (BitVec.setWidth_eq _)
    have hmag : ((plain .none c).taken a).magnitude ((plain .none c).bits a) =
        (if ((plain .none c).taken a).negative ((plain .none c).bits a) then -(a.int 0) else a.int 0).toNat := by
      rw [← hself]
      rfl
    dsimp only
    rw [hmag]
    exact hint (setWidth_magnitude (by decide) _ _)
  · have hself : ((plain .l c).bits a).setWidth 32 = a.long 0 :=
      (BitVec.setWidth_setWidth_of_le _ (by decide)).trans (BitVec.setWidth_eq _)
    have hmag : ((plain .l c).taken a).magnitude ((plain .l c).bits a) =
        (if ((plain .l c).taken a).negative ((plain .l c).bits a) then -(a.long 0) else a.long 0).toNat := by
      rw [← hself]
      rfl
    dsimp only
    rw [hmag]
    exact hint (setWidth_magnitude (by decide) _ _)
  · have hmag : ((plain .ll c).taken a).magnitude ((plain .ll c).bits a) =
        (if ((plain .ll c).taken a).negative ((plain .ll c).bits a) then -(a.longLong 0) else a.longLong 0).toNat := rfl
    have hvalue := setWidth_magnitude (Nat.le_refl 64) (((plain .ll c).taken a).negative ((plain .ll c).bits a)) (a.longLong 0)
    rw [BitVec.setWidth_eq] at hvalue
    dsimp only
    rw [hmag]
    exact congrArg _ hvalue

theorem base_of_specifier (hc : c = .d ∨ c = .u ∨ c = .x) : c.radix = ((plain k c).taken a).base := by
  rcases hc with rfl | rfl | rfl <;> rfl

theorem scanInt_printed (hk : k = .none ∨ k = .l ∨ k = .ll) (hc : c = .d ∨ c = .u ∨ c = .x) (behind : Nat → UInt8) :
    (plain k c).fs.scanInt (memory (printed k c a) behind) 0 (printed k c a).length true =
      (some (printed k c a).length, argument k a) := by
  have hfigures := figures_printed k c a
  have hbase := ((plain k c).taken a).base_eq
  have hdigits := Numeral.value_digits (show 0 < ((plain k c).taken a).base by omega)
    (lt_pow_25 (show 8 ≤ ((plain k c).taken a).base by omega) (Fs.magnitude_lt ((plain k c).taken a) ((plain k c).bits a)))
  obtain ⟨hcounted, hhead, hvalue⟩ :=
    hfigures.scanned (base_of_specifier k c a hc) (((plain k c).taken a).negative ((plain k c).bits a))
  have hcounted : countedOf c (printed k c a) = _ := hcounted
  have hhead : headLength c (printed k c a) + _ = (printed k c a).length := hhead
  have hvalue : keptValue c (printed k c a) = _ := hvalue
  have hlimit (cursor : Cursor) : (plain k c).fs.limit cursor = cursor := if_neg fun h => h rfl
  have hstart : (plain k c).fs.start (memory (printed k c a) behind) 0 (printed k c a).length =
      ⟨0, (printed k c a).length⟩ := by
    rw [Fs.start, skipSpaces_of_not_isspace (not_isspace_printed k c a behind), hlimit]
  have hscan := scanInt_eq (show (plain k c).fs.modifiers = c.modifiers from rfl) (memory (printed k c a) behind) 0
    (lt_of_le_of_lt (length_printed k c a) (by decide)) true
  dsimp only at hscan
  rw [hstart, text_memory, hcounted, if_neg (List.map_eq_nil_iff.not.2 hfigures.ne_nil), List.length_map, hhead, if_pos rfl,
    hvalue, hdigits] at hscan
  rw [hscan, Nat.sub_self, Nat.zero_add]
  exact congrArg (Prod.mk _) (argument_eq k c a hk)

/-- **An integer is scanned as it was printed**. -/
theorem scan_printed (hk : k = .none ∨ k = .l ∨ k = .ll) (hc : c = .d ∨ c = .u ∨ c = .x) (behind : Nat → UInt8)
    (passes : Nat) :
    ∃ text : List UInt8, text.length ≤ 26 ∧
      (∀ size : BitVec 32, text.length < size.toNat → vsnprintf size (plain k c).format a = text.map some) ∧
        vsnscanf passes (memory text behind) (BitVec.ofNat 32 text.length) (plain k c).format a =
          some { matched := 1, stored := [argument k a], str := text.length, size := 0 } := by
  have hlength := length_printed k c a
  refine ⟨printed k c a, hlength, fun size h => vsnprintf_plain k c a h, ?_⟩
  have hnat : (BitVec.ofNat 32 (printed k c a).length).toNat = (printed k c a).length := by
    rw [BitVec.toNat_ofNat]
    omega
  have hparameter : ¬ (plain k c).fs.precision = asParameter := show ¬ absent = asParameter by decide
  have hval : (plain k c).fs.type ≠ .percent ∧ (plain k c).fs.type ≠ .endOfString ∧ (plain k c).fs.width ≠ asParameter :=
    show FsType.int ≠ .percent ∧ FsType.int ≠ .endOfString ∧ absent ≠ asParameter by decide
  have hspec : Scanned.spec passes (memory (printed k c a) behind) a (plain k c).fs ⟨0, [], 0, (printed k c a).length⟩ 0 =
      some (⟨1, [argument k a], (printed k c a).length, 0⟩, some 1) := by
    unfold Scanned.spec
    dsimp only
    rw [if_neg hparameter, if_neg hparameter, decide_eq_true hval]
    have hscan (m : Nat → UInt8) (size : Nat) : (plain k c).fs.scan m 0 size true passes =
        some ((plain k c).fs.scanInt m 0 size true) := rfl
    have hsize : toSize (((printed k c a).length : Int) - (printed k c a).length) = 0 := by
      rw [Int.sub_self]
      rfl
    rw [hscan, scanInt_printed k c a hk hc]
    dsimp only [Option.map_some]
    rw [if_pos hval.1, hsize, Nat.zero_add (printed k c a).length]
    rfl
  unfold vsnscanf Directive.format
  rw [hnat, scanLoop, if_neg (by decide), if_neg (by decide), fsProcess_body]
  dsimp only
  rw [hspec]
  dsimp only
  rw [scanLoop]

/-- `%d` of the least `int`. -/
theorem scan_printed_min :
    ∃ text : List UInt8, text.length ≤ 26 ∧
      (∀ size : BitVec 32, text.length < size.toNat →
        vsnprintf size (plain .none .d).format (number 0x80000000) = text.map some) ∧
        vsnscanf 0 (memory text fun _ => 0) (BitVec.ofNat 32 text.length) (plain .none .d).format (number 0x80000000) =
          some { matched := 1, stored := [.int 32 0x80000000], str := text.length, size := 0 } :=
  scan_printed .none .d (number 0x80000000) (.inl rfl) (.inl rfl) (fun _ => 0) 0

end Directive

end YieldStm32.Stdio
