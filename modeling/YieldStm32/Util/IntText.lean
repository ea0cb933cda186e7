import YieldStm32.Util.Directive

/-!
# Texts of integers

* `IntText` : a sign, a prefix and digits, as a specifier has them;
* `signOf`, `prefixOf`, `run` : where the longest one in a text has them;
* `IntText.sign_eq`, `IntText.pfx_eq`, `IntText.length_digits_le` : any other one has the same sign, and no more digits;
* `longest` : the longest one; `IntText.eq_longest` : it is the only one.
-/

namespace YieldStm32.Stdio

/-! ## The grammar -/

/-- The value of a digit; letters are of either case. -/
def charValue (c : UInt8) : Option Nat :=
  if 48 ≤ c.toNat ∧ c.toNat ≤ 57 then some (c.toNat - 48)
  else if 65 ≤ c.toNat ∧ c.toNat ≤ 90 then some (c.toNat - 55)
  else if 97 ≤ c.toNat ∧ c.toNat ≤ 122 then some (c.toNat - 87)
  else none

def isFigure (base : Nat) (c : UInt8) : Bool := (charValue c).any (· < base)

/-- The base without a prefix. -/
def Specifier.radix : Specifier → Nat
  | .x => 16
  | .o => 8
  | _ => 10

/-- The letters of the prefixes, with their bases. -/
def Specifier.prefixes : Specifier → List (UInt8 × Nat)
  | .x => [(120, 16)]
  | .i => [(120, 16), (98, 2)]
  | _ => []

/-- A sign, which may be minus, a letter of a prefix with its base, and digits. -/
structure IntText (sp : Specifier) where
  sign : Option Bool
  pfx : Option (UInt8 × Nat)
  digits : List UInt8
  pfx_mem : ∀ p ∈ pfx, (tolower p.1, p.2) ∈ sp.prefixes
  ne_nil : digits ≠ []
  all_figures : ∀ c ∈ digits, isFigure ((pfx.map Prod.snd).getD sp.radix) c

def signText : Option Bool → List UInt8
  | some true => [45]
  | some false => [43]
  | none => []

def prefixText : Option (UInt8 × Nat) → List UInt8
  | some p => [48, p.1]
  | none => []

/-- The base of a prefix. -/
def Specifier.base (sp : Specifier) (pfx : Option (UInt8 × Nat)) : Nat := (pfx.map Prod.snd).getD sp.radix

namespace IntText

variable {sp : Specifier}

def text (t : IntText sp) : List UInt8 := signText t.sign ++ (prefixText t.pfx ++ t.digits)

/-- What digits stand for. -/
def magnitude (base : Nat) (digits : List UInt8) : Nat := Numeral.value base (digits.map fun c => (charValue c).getD 0)

def value (t : IntText sp) : Int :=
  if t.sign = some true then -(magnitude (sp.base t.pfx) t.digits : Int) else magnitude (sp.base t.pfx) t.digits

end IntText

/-! ## Where a text has them -/

def signOf : List UInt8 → Option Bool
  | c :: _ => if c = 43 then some false else if c = 45 then some true else none
  | [] => none

/-- What is behind the sign. -/
def unsigned (text : List UInt8) : List UInt8 := text.drop (signText (signOf text)).length

def prefixOf (sp : Specifier) : List UInt8 → Option (UInt8 × Nat)
  | a :: c :: _ => if a = 48 then (sp.prefixes.find? (·.1 = tolower c)).map fun p => (c, p.2) else none
  | _ => none

/-- What is behind the prefix. -/
def unprefixed (sp : Specifier) (text : List UInt8) : List UInt8 := text.drop (prefixText (prefixOf sp text)).length

/-- The digits that a text begins with. -/
def run (base : Nat) (text : List UInt8) : List UInt8 := text.takeWhile (isFigure base)

theorem signOf_cons (c : UInt8) (text : List UInt8) :
    signOf (c :: text) = if c = 43 then some false else if c = 45 then some true else none := rfl

theorem prefixOf_cons (sp : Specifier) (a c : UInt8) (text : List UInt8) :
    prefixOf sp (a :: c :: text) =
      if a = 48 then (sp.prefixes.find? (·.1 = tolower c)).map fun p => (c, p.2) else none := rfl

theorem signText_append (text : List UInt8) : signText (signOf text) ++ unsigned text = text := by
  refine List.prefix_iff_eq_append.1 ?_
  cases text with
  | nil => exact List.nil_prefix
  | cons c text =>
      rw [signOf_cons]
      by_cases hplus : c = 43
      · rw [if_pos hplus, hplus]
        exact List.prefix_append [43] text
      · by_cases hminus : c = 45
        · rw [if_neg hplus, if_pos hminus, hminus]
          exact List.prefix_append [45] text
        · rw [if_neg hplus, if_neg hminus]
          exact List.nil_prefix

theorem prefixText_append (sp : Specifier) (text : List UInt8) :
    prefixText (prefixOf sp text) ++ unprefixed sp text = text := by
  refine List.prefix_iff_eq_append.1 ?_
  match text with
  | [] => exact List.nil_prefix
  | [a] => exact List.nil_prefix
  | a :: c :: text =>
      rw [prefixOf_cons]
      by_cases ha : a = 48
      · rw [if_pos ha, ha]
        cases sp.prefixes.find? (·.1 = tolower c) with
        | none => exact List.nil_prefix
        | some p => exact List.prefix_append [48, c] text
      · rw [if_neg ha]
        exact List.nil_prefix

theorem prefixOf_mem {text : List UInt8} {p : UInt8 × Nat} {sp : Specifier} (h : prefixOf sp text = some p) :
    (tolower p.1, p.2) ∈ sp.prefixes := by
  match text with
  | [] => cases h
  | [a] => cases h
  | a :: c :: text =>
      rw [prefixOf_cons] at h
      by_cases ha : a = 48
      · rw [if_pos ha] at h
        obtain ⟨q, hq, rfl⟩ := Option.map_eq_some_iff.1 h
        have hletter := List.find?_some hq
        rw [← of_decide_eq_true hletter]
        exact List.mem_of_find?_eq_some hq
      · rw [if_neg ha] at h
        cases h

/-- The base, what is behind the prefix, and its digits. -/
def baseOf (sp : Specifier) (text : List UInt8) : Nat := sp.base (prefixOf sp (unsigned text))

def figures (sp : Specifier) (text : List UInt8) : List UInt8 := unprefixed sp (unsigned text)

def digitsOf (sp : Specifier) (text : List UInt8) : List UInt8 := run (baseOf sp text) (figures sp text)

/-- The sign and the prefix. -/
def headLength (sp : Specifier) (text : List UInt8) : Nat :=
  (signText (signOf text)).length + (prefixText (prefixOf sp (unsigned text))).length

theorem prefix_run {base : Nat} {digits text : List UInt8} (h : digits <+: text) (hfig : ∀ c ∈ digits, isFigure base c) :
    digits <+: run base text := by
  obtain ⟨rest, rfl⟩ := h
  unfold run
  rw [List.takeWhile_append_of_pos hfig]
  exact List.prefix_append _ _

theorem charValue_tolower (c : UInt8) : charValue (tolower c) = charValue c := by
  unfold tolower
  by_cases hc : 65 ≤ c.toNat ∧ c.toNat ≤ 90
  · have hlower : (c + 32).toNat = c.toNat + 32 := by
      rw [UInt8.toNat_add]
      show (c.toNat + 32) % 256 = _
      omega
    rw [if_pos hc]
    unfold charValue
    rw [hlower, if_neg (by omega), if_neg (by omega), if_pos (by omega), if_neg (by omega), if_pos hc]
    exact congrArg some (by omega)
  · rw [if_neg hc]

/-! ## Any other one -/

section

variable {sp : Specifier} {text : List UInt8} (t : IntText sp)

theorem not_isFigure_sign : ∀ base, isFigure base 43 = false ∧ isFigure base 45 = false := fun _ => ⟨rfl, rfl⟩

namespace IntText

theorem sign_eq (h : t.text <+: text) : t.sign = signOf text := by
  obtain ⟨rest, rfl⟩ := h
  unfold IntText.text
  cases hsign : t.sign with
  | some minus => cases minus <;> rfl
  | none =>
      cases hpfx : t.pfx with
      | some p => rfl
      | none =>
          obtain ⟨c, digits, hdigits⟩ := List.exists_cons_of_ne_nil t.ne_nil
          have hc := t.all_figures c (by rw [hdigits]; exact List.mem_cons_self)
          obtain ⟨hplus, hminus⟩ := not_isFigure_sign ((t.pfx.map Prod.snd).getD sp.radix)
          have hne : c ≠ 43 ∧ c ≠ 45 := by
            constructor
            · rintro rfl
              exact absurd (hplus.symm.trans hc) Bool.false_ne_true
            · rintro rfl
              exact absurd (hminus.symm.trans hc) Bool.false_ne_true
          rw [hdigits]
          exact ((if_neg hne.1).trans (if_neg hne.2)).symm

theorem behind_sign (h : t.text <+: text) : prefixText t.pfx ++ t.digits <+: unsigned text := by
  have hsign := t.sign_eq h
  rw [← signText_append text, IntText.text, hsign] at h
  exact (List.prefix_append_right_inj _).1 h

theorem pfx_eq (h : t.text <+: text) : t.pfx = none ∨ t.pfx = prefixOf sp (unsigned text) := by
  cases hpfx : t.pfx with
  | none => exact .inl rfl
  | some p =>
      obtain ⟨rest, hrest⟩ := t.behind_sign h
      have hmem := t.pfx_mem p hpfx
      have hfind : sp.prefixes.find? (·.1 = tolower p.1) = some (tolower p.1, p.2) := by
        obtain ⟨c, base⟩ := p
        dsimp only at hmem ⊢
        cases sp with
        | x =>
            obtain ⟨hc, hb⟩ := Prod.mk.inj (List.mem_singleton.1 hmem)
            rw [hc, hb]
            rfl
        | i =>
            rcases List.mem_cons.1 hmem with hmem | hmem
            · obtain ⟨hc, hb⟩ := Prod.mk.inj hmem
              rw [hc, hb]
              rfl
            · obtain ⟨hc, hb⟩ := Prod.mk.inj (List.mem_singleton.1 hmem)
              rw [hc, hb]
              rfl
        | d | u | o => exact absurd hmem List.not_mem_nil
      have hof : prefixOf sp (48 :: p.1 :: (t.digits ++ rest)) = some p := by
        rw [prefixOf_cons, if_pos rfl, hfind]
        rfl
      rw [← hrest, hpfx]
      exact .inr hof.symm

theorem length_text : t.text.length = (signText t.sign).length + ((prefixText t.pfx).length + t.digits.length) := by
  rw [text, List.length_append, List.length_append]

/-- With the prefix that there is, the digits are among those of the text. -/
theorem digits_prefix (h : t.text <+: text) (hpfx : t.pfx = prefixOf sp (unsigned text)) : t.digits <+: digitsOf sp text := by
  have hbehind := t.behind_sign h
  rw [← prefixText_append sp (unsigned text), hpfx] at hbehind
  refine prefix_run ((List.prefix_append_right_inj _).1 hbehind) ?_
  have hfig := t.all_figures
  rw [hpfx] at hfig
  exact hfig

/-- Without it, there is the zero of the prefix only. -/
theorem length_digits_le (h : t.text <+: text) (hpfx : t.pfx = none) (hsome : prefixOf sp (unsigned text) ≠ none) :
    t.digits.length = 1 := by
  obtain ⟨p, hp⟩ := Option.ne_none_iff_exists'.1 hsome
  have hbehind := t.behind_sign h
  rw [← prefixText_append sp (unsigned text), hpfx, hp] at hbehind
  have hmem := prefixOf_mem hp
  have hfig := t.all_figures
  rw [hpfx] at hfig
  obtain ⟨c, digits, hdigits⟩ := List.exists_cons_of_ne_nil t.ne_nil
  have hletter : isFigure sp.radix p.1 = false := by
    unfold Stdio.isFigure
    rw [← charValue_tolower]
    generalize tolower p.1 = c at hmem
    cases sp with
    | x =>
        rw [(Prod.mk.inj (List.mem_singleton.1 hmem)).1]
        rfl
    | i =>
        rcases List.mem_cons.1 hmem with hmem | hmem
        · rw [(Prod.mk.inj hmem).1]
          rfl
        · rw [(Prod.mk.inj (List.mem_singleton.1 hmem)).1]
          rfl
    | d | u | o => exact absurd hmem List.not_mem_nil
  cases digits with
  | nil => rw [hdigits]; rfl
  | cons c' digits =>
      rw [hdigits] at hbehind hfig
      obtain ⟨rest, hrest⟩ := hbehind
      have hc : c' = p.1 := (List.cons.inj (List.cons.inj hrest).2).1
      have htrue := hfig c' (List.mem_cons_of_mem c List.mem_cons_self)
      rw [hc] at htrue
      exact absurd (hletter.symm.trans htrue) Bool.false_ne_true

end IntText

/-- There is none without digits, but for the zero of a prefix. -/
theorem pfx_of_digitsOf_eq_nil (h : digitsOf sp text = []) (ht : t.text <+: text) :
    prefixOf sp (unsigned text) ≠ none ∧ t.pfx = none := by
  have hne : t.pfx ≠ prefixOf sp (unsigned text) := fun hpfx => by
    have hdigits := t.digits_prefix ht hpfx
    rw [h] at hdigits
    exact t.ne_nil (List.prefix_nil.1 hdigits)
  have hnone := (t.pfx_eq ht).resolve_right hne
  exact ⟨fun hno => hne (hnone.trans hno.symm), hnone⟩

/-- The zero of a prefix, which is a digit of its own. -/
theorem exists_zero (hpfx : prefixOf sp (unsigned text) ≠ none) : ∃ t : IntText sp, t.text <+: text := by
  obtain ⟨p, hp⟩ := Option.ne_none_iff_exists'.1 hpfx
  have htext := signText_append text
  have hbehind := prefixText_append sp (unsigned text)
  rw [hp] at hbehind
  rw [← hbehind] at htext
  refine ⟨⟨signOf text, none, [48], nofun, List.cons_ne_nil 48 [], fun c hc => ?_⟩, p.1 :: unprefixed sp (unsigned text), ?_⟩
  · rw [List.mem_singleton.1 hc]
    cases sp <;> rfl
  · exact (List.append_assoc _ _ _).trans htext

/-! ## The longest one -/

/-- The sign, the prefix and the digits of a text. -/
def longest (sp : Specifier) (text : List UInt8) (h : digitsOf sp text ≠ []) : IntText sp where
  sign := signOf text
  pfx := prefixOf sp (unsigned text)
  digits := digitsOf sp text
  pfx_mem := fun _ hp => prefixOf_mem hp
  ne_nil := h
  all_figures := fun _ hc => List.mem_takeWhile_imp hc

theorem length_longest (h : digitsOf sp text ≠ []) :
    (longest sp text h).text.length = headLength sp text + (digitsOf sp text).length := by
  rw [IntText.length_text, ← Nat.add_assoc]
  rfl

theorem longest_begins (h : digitsOf sp text ≠ []) : (longest sp text h).text <+: text := by
  have hrun : digitsOf sp text <+: figures sp text := List.takeWhile_prefix _
  have hall : signText (signOf text) ++ (prefixText (prefixOf sp (unsigned text)) ++ figures sp text) = text := by
    rw [figures, prefixText_append, signText_append]
  obtain ⟨rest, hrest⟩ := hrun
  refine ⟨rest, ?_⟩
  rw [IntText.text, List.append_assoc, List.append_assoc]
  show signText (signOf text) ++ (prefixText (prefixOf sp (unsigned text)) ++ (digitsOf sp text ++ rest)) = text
  rw [hrest, hall]

theorem length_le_longest (h : digitsOf sp text ≠ []) (ht : t.text <+: text) :
    t.text.length ≤ (longest sp text h).text.length := by
  have hpos := List.length_pos_iff.2 h
  rw [length_longest, headLength, IntText.length_text, t.sign_eq ht]
  by_cases hpfx : t.pfx = prefixOf sp (unsigned text)
  · have hlen := (t.digits_prefix ht hpfx).length_le
    rw [hpfx]
    omega
  · have hnone := (t.pfx_eq ht).resolve_right hpfx
    have hone := t.length_digits_le ht hnone fun hno => hpfx (hnone.trans hno.symm)
    rw [hnone, hone]
    show _ + (0 + 1) ≤ _
    omega

/-- It is the only one of its length. -/
theorem eq_longest (h : digitsOf sp text ≠ []) (ht : t.text <+: text)
    (hmax : (longest sp text h).text.length ≤ t.text.length) : t = longest sp text h := by
  have hpos := List.length_pos_iff.2 h
  rw [length_longest, headLength, IntText.length_text, t.sign_eq ht] at hmax
  have hpfx : t.pfx = prefixOf sp (unsigned text) := by
    by_contra hpfx
    have hnone := (t.pfx_eq ht).resolve_right hpfx
    obtain ⟨p, hp⟩ := Option.ne_none_iff_exists'.1 fun hno => hpfx (hnone.trans hno.symm)
    have hone := t.length_digits_le ht hnone (by rw [hp]; exact Option.some_ne_none p)
    have htwo : (prefixText (some p)).length = 2 := rfl
    have hzero : (prefixText none).length = 0 := rfl
    rw [hp, hnone, hone, htwo, hzero] at hmax
    omega
  rw [hpfx] at hmax
  have hdigits : t.digits = digitsOf sp text := (t.digits_prefix ht hpfx).eq_of_length_le (by omega)
  have hsign := t.sign_eq ht
  obtain ⟨sign, pfx, digits, hmem, hne, hfig⟩ := t
  dsimp only at hpfx hdigits hsign
  subst hpfx hdigits hsign
  rfl

end

end YieldStm32.Stdio
