import YieldStm32.Util.ScanInt

/-!
# Where `scan_int` is exact (`util/src/stdio.c`)

* `Fs.ScansExactly` : the longest text of an integer is consumed, and its value stored as wide as the length says;
* `Readable` : what that takes;
* `scansExactly_iff` : the one where the other.
-/

namespace YieldStm32.Stdio

/-- The bits of the type that a length modifier names. -/
def LengthModifier.width : LengthModifier → Nat
  | .hh => 8
  | .h => 16
  | .none | .l => 32
  | .ll => 64

/-- The longest text of an integer is consumed, behind so many spaces, and its value stored; where there is none, nothing is. -/
def ScansExactly (sp : Specifier) (k : LengthModifier) (spaces : Nat) (text : List UInt8) (val : Bool) :
    Option Nat × Stored → Prop
  | (none, stored) => stored = .nothing ∧ ∀ t : IntText sp, ¬t.text <+: text
  | (some n, stored) => ∃ t : IntText sp, t.text <+: text ∧
      (∀ t' : IntText sp, t'.text <+: text → t'.text.length ≤ t.text.length) ∧
      n = spaces + t.text.length ∧
      stored = if val then .int k.width (BitVec.ofInt k.width t.value) else .nothing

/-- The characters between `Z` and `a`, which count as digits from four on. -/
def Pseudo (base : Nat) (c : UInt8) : Prop := 91 ≤ c.toNat ∧ c.toNat ≤ 96 ∧ c.toNat - 87 < base

/-- The byte behind the digits. -/
def ending (sp : Specifier) (text : List UInt8) : Option UInt8 :=
  ((figures sp text).dropWhile (isFigure (baseOf sp text))).head?

/-- The values of the digits. -/
def digitValues (sp : Specifier) (text : List UInt8) : List Nat := (digitsOf sp text).map fun c => (charValue c).getD 0

/-- A prefix has digits behind it, and there is no pseudo digit behind the digits; what is stored is not a `char`, and the digits
behind the thirtieth do not count. -/
structure Readable (sp : Specifier) (k : LengthModifier) (text : List UInt8) (val : Bool) : Prop where
  pfx : prefixOf sp (unsigned text) ≠ none → digitsOf sp text ≠ []
  ending : ∀ c ∈ ending sp text, ¬Pseudo (baseOf sp text) c
  stored : digitsOf sp text ≠ [] → val = true → k ≠ .hh ∧
    Numeral.value (baseOf sp text) (kept (digitValues sp text)) % 2 ^ k.width =
      Numeral.value (baseOf sp text) (digitValues sp text) % 2 ^ k.width

/-! ## Digits -/

theorem toNat_tolower (c : UInt8) :
    (tolower c).toNat = if 65 ≤ c.toNat ∧ c.toNat ≤ 90 then c.toNat + 32 else c.toNat := by
  unfold tolower
  by_cases hc : 65 ≤ c.toNat ∧ c.toNat ≤ 90
  · rw [if_pos hc, if_pos hc, UInt8.toNat_add]
    show (c.toNat + 32) % 256 = _
    omega
  · rw [if_neg hc, if_neg hc]

/-- What the code takes for the value of a character. -/
theorem digitVal_eq (c : UInt8) :
    digitVal c =
      if 48 ≤ c.toNat ∧ c.toNat ≤ 57 then c.toNat - 48
      else if 65 ≤ c.toNat ∧ c.toNat ≤ 90 then c.toNat - 55
      else (c.toNat + 2 ^ 32 - 87) % 2 ^ 32 := by
  have hlower := toNat_tolower c
  have hlt := c.toNat_lt
  show (if isdigit (tolower c) then (tolower c).toNat - 48 else ((tolower c).toNat + 2 ^ 32 - 87) % 2 ^ 32) = _
  by_cases hletter : 65 ≤ c.toNat ∧ c.toNat ≤ 90
  · rw [if_pos hletter] at hlower
    have hno : ¬isdigit (tolower c) := fun h => by
      have := h.2
      omega
    rw [if_neg hno, if_neg (by omega), if_pos hletter, hlower]
    omega
  · rw [if_neg hletter] at hlower
    have hdigit : isdigit (tolower c) ↔ 48 ≤ c.toNat ∧ c.toNat ≤ 57 := by
      unfold isdigit
      rw [hlower]
    rw [if_congr hdigit rfl rfl, hlower, if_neg hletter]

theorem digitVal_of_charValue {c : UInt8} {d : Nat} (h : charValue c = some d) : digitVal c = d := by
  have hlt := c.toNat_lt
  rw [digitVal_eq]
  unfold charValue at h
  by_cases hdigit : 48 ≤ c.toNat ∧ c.toNat ≤ 57
  · rw [if_pos hdigit] at h ⊢
    exact Option.some.inj h
  rw [if_neg hdigit] at h ⊢
  by_cases hupper : 65 ≤ c.toNat ∧ c.toNat ≤ 90
  · rw [if_pos hupper] at h ⊢
    exact Option.some.inj h
  rw [if_neg hupper] at h ⊢
  by_cases hlower : 97 ≤ c.toNat ∧ c.toNat ≤ 122
  · rw [if_pos hlower] at h
    rw [← Option.some.inj h]
    omega
  · rw [if_neg hlower] at h
    cases h

theorem digitVal_lt_iff {base : Nat} (hbase : base ≤ 16) (c : UInt8) :
    digitVal c < base ↔ isFigure base c = true ∨ Pseudo base c := by
  unfold isFigure Pseudo
  cases hvalue : charValue c with
  | some d =>
      have hno : ¬(91 ≤ c.toNat ∧ c.toNat ≤ 96 ∧ c.toNat - 87 < base) := by
        rintro ⟨hlow, hhigh, -⟩
        unfold charValue at hvalue
        rw [if_neg (by omega), if_neg (by omega), if_neg (by omega)] at hvalue
        cases hvalue
      rw [digitVal_of_charValue hvalue, or_iff_left hno]
      simp
  | none =>
      have hlt := c.toNat_lt
      unfold charValue at hvalue
      split_ifs at hvalue with hdigit hupper hlower
      rw [digitVal_eq, if_neg hdigit, if_neg hupper, Option.any_none, or_iff_right Bool.false_ne_true]
      omega

section

variable {sp : Specifier} {text : List UInt8}

theorem countedOf_eq (sp : Specifier) (text : List UInt8) :
    countedOf sp text =
      digitsOf sp text ++ counted (baseOf sp text) ((figures sp text).dropWhile (isFigure (baseOf sp text))) := by
  have hall : ∀ c ∈ digitsOf sp text, decide (digitVal c < baseOf sp text) = true := fun c hc =>
    decide_eq_true ((digitVal_lt_iff (baseOf_le sp text) c).2 (.inl (List.mem_takeWhile_imp hc)))
  have hsplit : figures sp text = digitsOf sp text ++ (figures sp text).dropWhile (isFigure (baseOf sp text)) :=
    List.takeWhile_append_dropWhile.symm
  rw [countedOf, hsplit, counted, List.takeWhile_append_of_pos hall, ← hsplit]
  rfl

/-- The code counts the digits, and no more. -/
theorem countedOf_eq_digitsOf_iff (sp : Specifier) (text : List UInt8) :
    countedOf sp text = digitsOf sp text ↔ ∀ c ∈ ending sp text, ¬Pseudo (baseOf sp text) c := by
  rw [countedOf_eq, List.append_right_eq_self, ending]
  cases hrest : (figures sp text).dropWhile (isFigure (baseOf sp text)) with
  | nil => exact iff_of_true rfl nofun
  | cons c rest =>
      have hno : ¬isFigure (baseOf sp text) c = true := by
        have hhead := List.head?_dropWhile_not (isFigure (baseOf sp text)) (figures sp text)
        rw [hrest] at hhead
        exact ne_true_of_eq_false hhead
      have hlt := digitVal_lt_iff (baseOf_le sp text) c
      rw [or_iff_right hno] at hlt
      unfold counted
      by_cases hc : digitVal c < baseOf sp text
      · rw [List.takeWhile_cons_of_pos (p := fun c => decide (digitVal c < baseOf sp text)) (decide_eq_true hc)]
        exact iff_of_false (List.cons_ne_nil _ _) fun h => h c rfl (hlt.1 hc)
      · rw [List.takeWhile_cons_of_neg (p := fun c => decide (digitVal c < baseOf sp text)) (by simpa using hc)]
        refine iff_of_true rfl fun c' hc' hpseudo => hc (hlt.2 ?_)
        rw [Option.mem_some.1 hc']
        exact hpseudo

/-! ## Values -/

theorem map_digitVal_digitsOf (sp : Specifier) (text : List UInt8) :
    (digitsOf sp text).map digitVal = digitValues sp text := by
  refine List.map_congr_left fun c hc => ?_
  have hfigure : isFigure (baseOf sp text) c = true := List.mem_takeWhile_imp hc
  unfold isFigure at hfigure
  cases hvalue : charValue c with
  | none =>
      rw [hvalue] at hfigure
      exact absurd hfigure Bool.false_ne_true
  | some d => exact digitVal_of_charValue hvalue

theorem store_eq_iff (k : LengthModifier) (v : BitVec 64) (x : BitVec k.width) :
    k.length.store v = .int k.width x ↔ k ≠ .hh ∧ v.setWidth k.width = x := by
  have hne (h : k ≠ .hh) : k.length.store v = .int k.width (v.setWidth k.width) := by
    cases k with
    | hh => exact absurd rfl h
    | h | none | l => rfl
    | ll => exact congrArg _ (BitVec.setWidth_eq v).symm
  constructor
  · intro h
    have hk : k ≠ .hh := by
      rintro rfl
      exact absurd (Stored.int.inj h).1 (by decide)
    rw [hne hk] at h
    exact ⟨hk, eq_of_heq (Stored.int.inj h).2⟩
  · rintro ⟨hk, rfl⟩
    exact hne hk

theorem ofNat_eq_iff (w a b : Nat) : BitVec.ofNat w a = BitVec.ofNat w b ↔ a % 2 ^ w = b % 2 ^ w := by
  rw [← BitVec.toNat_inj, BitVec.toNat_ofNat, BitVec.toNat_ofNat]

theorem LengthModifier.width_le (k : LengthModifier) : k.width ≤ 64 := by cases k <;> decide

/-- What is stored is the value of the longest text, where only its digits count. -/
theorem keptValue_eq_iff {w : Nat} (hw : w ≤ 64) (h : digitsOf sp text ≠ []) (hcounted : countedOf sp text = digitsOf sp text) :
    (keptValue sp text).setWidth w = BitVec.ofInt w (longest sp text h).value ↔
      Numeral.value (baseOf sp text) (kept (digitValues sp text)) % 2 ^ w =
        Numeral.value (baseOf sp text) (digitValues sp text) % 2 ^ w := by
  have hvalue : (longest sp text h).value =
      if signOf text = some true then -(Numeral.value (baseOf sp text) (digitValues sp text) : Int)
      else Numeral.value (baseOf sp text) (digitValues sp text) := rfl
  rw [keptValue, hcounted, map_digitVal_digitsOf, hvalue, ← ofNat_eq_iff]
  by_cases hsign : signOf text = some true
  · rw [if_pos hsign, if_pos hsign, BitVec.setWidth_neg_of_le hw, BitVec.setWidth_ofNat_of_le hw, BitVec.ofInt_neg,
      BitVec.ofInt_natCast, BitVec.neg_inj]
  · rw [if_neg hsign, if_neg hsign, BitVec.setWidth_ofNat_of_le hw, BitVec.ofInt_natCast]

/-! ## Texts -/

/-- Where there are no digits, what counts as one is wrong, and so is an error at a prefix. -/
theorem scansExactly_of_no_digits (k : LengthModifier) (n : Nat) (val : Bool) (stored : Stored) (h : digitsOf sp text = []) :
    ScansExactly sp k n text val
        (if countedOf sp text = [] then (none, .nothing)
          else (some (n + (headLength sp text + (countedOf sp text).length)), stored)) ↔
      Readable sp k text val := by
  by_cases hpfx : prefixOf sp (unsigned text) = none
  · have hno (t : IntText sp) : ¬t.text <+: text := fun ht => (pfx_of_digitsOf_eq_nil t h ht).1 hpfx
    by_cases hcounted : countedOf sp text = []
    · rw [if_pos hcounted]
      have hending := (countedOf_eq_digitsOf_iff sp text).1 (hcounted.trans h.symm)
      exact iff_of_true ⟨rfl, hno⟩ ⟨fun hsome => absurd hpfx hsome, hending, fun hne => absurd h hne⟩
    · rw [if_neg hcounted]
      refine iff_of_false (fun ⟨t, ht, _⟩ => hno t ht) fun hreadable => hcounted ?_
      exact ((countedOf_eq_digitsOf_iff sp text).2 hreadable.ending).trans h
  · refine iff_of_false ?_ fun hreadable => hreadable.pfx hpfx h
    by_cases hcounted : countedOf sp text = []
    · rw [if_pos hcounted]
      obtain ⟨t, ht⟩ := exists_zero hpfx
      exact fun hexact => hexact.2 t ht
    · rw [if_neg hcounted]
      rintro ⟨t, ht, -, hlen, -⟩
      have hnone := (pfx_of_digitsOf_eq_nil t h ht).2
      have hone := t.length_digits_le ht hnone hpfx
      obtain ⟨p, hp⟩ := Option.ne_none_iff_exists'.1 hpfx
      have htwo : (prefixText (some p)).length = 2 := rfl
      have hzero : (prefixText none).length = 0 := rfl
      rw [t.length_text, t.sign_eq ht, hnone, hone, headLength, hp, htwo, hzero] at hlen
      omega

theorem scansExactly_of_digits (k : LengthModifier) (n : Nat) (val : Bool) (h : digitsOf sp text ≠ []) :
    ScansExactly sp k n text val
        (some (n + (headLength sp text + (countedOf sp text).length)),
          if val then k.length.store (keptValue sp text) else .nothing) ↔
      Readable sp k text val := by
  have hstore (hcounted : countedOf sp text = digitsOf sp text) :=
    (store_eq_iff k (keptValue sp text) (BitVec.ofInt k.width (longest sp text h).value)).trans
      (and_congr_right fun _ => keptValue_eq_iff k.width_le h hcounted)
  constructor
  · rintro ⟨t, ht, hmax, hlen, hstored⟩
    obtain rfl := eq_longest t h ht (hmax _ (longest_begins h))
    have hcounted : countedOf sp text = digitsOf sp text := by
      have hsplit := countedOf_eq sp text
      rw [length_longest] at hlen
      have hbegins : digitsOf sp text <+: countedOf sp text := ⟨_, hsplit.symm⟩
      exact (hbegins.eq_of_length_le (by omega)).symm
    refine ⟨fun _ => h, (countedOf_eq_digitsOf_iff sp text).1 hcounted, fun _ hval => ?_⟩
    rw [if_pos hval, if_pos hval] at hstored
    exact (hstore hcounted).1 hstored
  · intro hreadable
    have hcounted := (countedOf_eq_digitsOf_iff sp text).2 hreadable.ending
    refine ⟨longest sp text h, longest_begins h, fun t ht => length_le_longest t h ht, ?_, ?_⟩
    · rw [hcounted, length_longest]
    · cases val with
      | false => rfl
      | true => exact (hstore hcounted).2 (hreadable.stored h rfl)

end

/-! ## The scanner -/

/-- The spaces that a text begins with. -/
def spaces (text : List UInt8) : List UInt8 := text.takeWhile fun c => isspace c

/-- The text behind them, with so many bytes at most. -/
def limited (limit : Option Nat) (text : List UInt8) : List UInt8 :=
  match limit with
  | some n => (text.dropWhile fun c => isspace c).take n
  | none => text.dropWhile fun c => isspace c

/-- The precision, which a negative one is not. -/
def Fs.limitOf (fs : Fs) : Option Nat := if fs.precision = absent then none else some (toSize fs.precision)

theorem skipSpaces_eq (m : Nat → UInt8) (s size : Nat) :
    (skipSpaces m s size).s = s + (spaces (Ring.copyOut m s size)).length ∧
      (skipSpaces m s size).text m = (Ring.copyOut m s size).dropWhile fun c => isspace c := by
  induction size generalizing s with
  | zero => exact ⟨rfl, rfl⟩
  | succ size ih =>
      have htext : Ring.copyOut m s (size + 1) = m s :: Ring.copyOut m (s + 1) size := Cursor.text_succ (c := ⟨s, size + 1⟩) rfl
      obtain ⟨hs, hbehind⟩ := ih (s + 1)
      rw [skipSpaces, htext, spaces]
      by_cases hspace : isspace (m s)
      · have hne : m s ≠ 0 := fun hzero => absurd (hzero ▸ hspace) (by decide)
        rw [if_pos ⟨hne, hspace⟩, List.takeWhile_cons_of_pos (by simpa using hspace),
          List.dropWhile_cons_of_pos (by simpa using hspace), hs, hbehind, List.length_cons]
        exact ⟨by rw [spaces]; omega, rfl⟩
      · rw [if_neg fun h => hspace h.2, List.takeWhile_cons_of_neg (by simpa using hspace),
          List.dropWhile_cons_of_neg (by simpa using hspace)]
        exact ⟨rfl, htext⟩

theorem Fs.start_eq (fs : Fs) (m : Nat → UInt8) (str size : Nat) :
    (fs.start m str size).s - str = (spaces (Ring.copyOut m str size)).length ∧
      (fs.start m str size).text m = limited fs.limitOf (Ring.copyOut m str size) := by
  obtain ⟨hs, htext⟩ := skipSpaces_eq m str size
  unfold Fs.start Fs.limit Fs.limitOf limited
  rw [← htext]
  by_cases hprecision : fs.precision = absent
  · rw [if_neg (not_not_intro hprecision), if_pos hprecision]
    exact ⟨by rw [hs, Nat.add_sub_cancel_left], rfl⟩
  · rw [if_pos hprecision, if_neg hprecision]
    exact ⟨by rw [hs, Nat.add_sub_cancel_left], (Ring.take_copyOut m (skipSpaces m str size).s _ _).symm⟩

theorem scansExactly_iff {sp : Specifier} {k : LengthModifier} {fs : Fs} (hsp : fs.modifiers = sp.modifiers)
    (hk : fs.length = k.length) (m : Nat → UInt8) (str : Nat) (size : BitVec 32) (val : Bool) :
    let text := Ring.copyOut m str size.toNat
    ScansExactly sp k (spaces text).length (limited fs.limitOf text) val (fs.scanInt m str size.toNat val) ↔
      Readable sp k (limited fs.limitOf text) val := by
  obtain ⟨hs, htext⟩ := fs.start_eq m str size.toNat
  have hscan := scanInt_eq hsp m str size.isLt val
  dsimp only at hscan ⊢
  rw [hscan, hs, htext, hk]
  by_cases hdigits : digitsOf sp (limited fs.limitOf (Ring.copyOut m str size.toNat)) = []
  · exact scansExactly_of_no_digits k _ val _ hdigits
  · rw [if_neg]
    · exact scansExactly_of_digits k _ val hdigits
    · rw [countedOf_eq]
      exact List.append_ne_nil_of_left_ne_nil hdigits _

/-- `%i` -/
theorem scansExactly_sample :
    ScansExactly .i .none 1 (ascii "-0x1Fz") true
      ((Directive.mk [] .none .none .none .i).fs.scanInt (Ring.copyIn (fun _ => 0) 0 (ascii " -0x1Fz")) 0 7 true) := by
  have hreadable : Readable .i .none (ascii "-0x1Fz") true := by
    refine ⟨by decide, fun c hc => ?_, by decide⟩
    have hz : ending .i (ascii "-0x1Fz") = some 122 := by decide
    obtain rfl := Option.some.inj (hz.symm.trans hc)
    exact fun h => absurd h.2.1 (by decide)
  exact (@scansExactly_iff .i .none (Directive.mk [] .none .none .none .i).fs rfl rfl
    (Ring.copyIn (fun _ => 0) 0 (ascii " -0x1Fz")) 0 7 true).2 hreadable

/-- `%hhd` stores more than a `char`. -/
theorem not_scansExactly_char :
    (Directive.mk [] .none .none .hh .d).format = ascii "%hhd" ∧
      ¬ScansExactly .d .hh 0 (ascii "1") true
        ((Directive.mk [] .none .none .hh .d).fs.scanInt (Ring.copyIn (fun _ => 0) 0 (ascii "1")) 0 1 true) := by
  have hscan := @scanInt_eq .d (Directive.mk [] .none .none .hh .d).fs rfl
    (Ring.copyIn (fun _ => 0) 0 (ascii "1")) 0 1 (show 1 < 2 ^ 32 by decide) true
  have hcounted : countedOf .d (ascii "1") ≠ [] := by decide
  refine ⟨by decide, ?_⟩
  have htext : ((Directive.mk [] .none .none .hh .d).fs.start (Ring.copyIn (fun _ => 0) 0 (ascii "1")) 0 1).text
      (Ring.copyIn (fun _ => 0) 0 (ascii "1")) = ascii "1" := by decide
  dsimp only at hscan
  rw [hscan, htext, if_neg hcounted, if_pos rfl]
  rintro ⟨t, -, -, -, hstored⟩
  rw [if_pos rfl] at hstored
  exact ((store_eq_iff .hh _ _).1 hstored).1 rfl

end YieldStm32.Stdio
