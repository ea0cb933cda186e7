import YieldStm32.Util.Print
import Mathlib.Data.Nat.Digits.Defs

/-!
# Integer directives

A directive for `d`, `i`, `u`, `x` or `o`, with any of the flags `0`, `+`, ` ` and `#`, a width, a precision and a length modifier.

* `Directive` : a directive, and `Directive.format` its text;
* `Directive.text` : the text that C prescribes for it;
* `fsProcess_format` : what `fs_process` makes of it.
-/

namespace YieldStm32.Stdio

/-! ## Syntax -/

inductive Flag where
  | zero
  | plus
  | space
  | hash
deriving DecidableEq

def Flag.char : Flag → UInt8
  | .zero => 48
  | .plus => 43
  | .space => 32
  | .hash => 35

/-- Decimal digits, and the number that they stand for. -/
def digitText (ds : List (Fin 10)) : List UInt8 := ds.map fun d => UInt8.ofNat (48 + d.val)

def digitValue (ds : List (Fin 10)) : Nat := Numeral.value 10 (ds.map Fin.val)

/-- A width does not begin with `0`, which is a flag. Numbers are those of an `int`. -/
inductive Width where
  | none
  | number (d : Fin 10) (ds : List (Fin 10)) (hd : d ≠ 0) (hlt : digitValue (d :: ds) < 2 ^ 31)
  | star

/-- There may be no digits behind the dot. -/
inductive Precision where
  | none
  | number (ds : List (Fin 10)) (hlt : digitValue ds < 2 ^ 31)
  | star

inductive LengthModifier where
  | hh
  | h
  | none
  | l
  | ll
deriving DecidableEq

inductive Specifier where
  | d
  | i
  | u
  | x
  | o
deriving DecidableEq

def Width.text : Width → List UInt8
  | .none => []
  | .number d ds _ _ => digitText (d :: ds)
  | .star => [42]

def Precision.text : Precision → List UInt8
  | .none => []
  | .number ds _ => 46 :: digitText ds
  | .star => [46, 42]

def LengthModifier.text : LengthModifier → List UInt8
  | .hh => [104, 104]
  | .h => [104]
  | .none => []
  | .l => [108]
  | .ll => [108, 108]

def Specifier.char : Specifier → UInt8
  | .d => 100
  | .i => 105
  | .u => 117
  | .x => 120
  | .o => 111

structure Directive where
  flags : List Flag
  width : Width
  precision : Precision
  length : LengthModifier
  specifier : Specifier

namespace Directive

/-- The directive, behind its `%`. -/
def body (d : Directive) : List UInt8 :=
  d.flags.map Flag.char ++ (d.width.text ++ (d.precision.text ++ (d.length.text ++ [d.specifier.char])))

def format (d : Directive) : List UInt8 := 37 :: d.body

/-! ## What C prescribes -/

/-- The number of the argument that is the precision, and of the one that is the value. -/
def precisionArg (d : Directive) : Nat :=
  match d.width with
  | .star => 1
  | _ => 0

def valueArg (d : Directive) : Nat :=
  match d.precision with
  | .star => d.precisionArg + 1
  | _ => d.precisionArg

/-- The field width, none being the least. -/
def fieldWidth (d : Directive) (a : Args) : Nat :=
  match d.width with
  | .none => 0
  | .number c ds _ _ => digitValue (c :: ds)
  | .star => (a.int 0).toInt.natAbs

/-- A negative width from the arguments is a `-` flag. -/
def left (d : Directive) (a : Args) : Bool :=
  match d.width with
  | .star => (a.int 0).toInt < 0
  | _ => false

/-- The precision; a negative one from the arguments is as none. -/
def digitCount (d : Directive) (a : Args) : Option Nat :=
  match d.precision with
  | .none => none
  | .number ds _ => some (digitValue ds)
  | .star => if (a.int d.precisionArg).toInt < 0 then none else some (a.int d.precisionArg).toNat

/-- `d` and `i` print signed values. -/
def signed (d : Directive) : Bool := d.specifier = .d ∨ d.specifier = .i

/-- An integer type holds the value. -/
def ofBits (d : Directive) {w : Nat} (x : BitVec w) : Int := if d.signed then x.toInt else x.toNat

/-- The value, converted to the type that the length modifier names. -/
def value (d : Directive) (a : Args) : Int :=
  match d.length with
  | .hh => d.ofBits ((a.int d.valueArg).setWidth 8)
  | .h => d.ofBits ((a.int d.valueArg).setWidth 16)
  | .none => d.ofBits (a.int d.valueArg)
  | .l => d.ofBits (a.long d.valueArg)
  | .ll => d.ofBits (a.longLong d.valueArg)

def radix (d : Directive) : Nat :=
  match d.specifier with
  | .x => 16
  | .o => 8
  | _ => 10

/-- The least digits that are prescribed: one without a precision, and for `#` and `o` a zero in front. -/
def digits (d : Directive) (a : Args) : List UInt8 :=
  let least := (Nat.digits d.radix (d.value a).natAbs).reverse.map Fs.digitChar
  let ds := List.replicate ((d.digitCount a).getD 1 - least.length) 48 ++ least
  if d.specifier = .o ∧ .hash ∈ d.flags ∧ ds.head? ≠ some 48 then 48 :: ds else ds

/-- The sign, or for `#` and `x` the prefix of a value other than zero. -/
def sign (d : Directive) (a : Args) : List UInt8 :=
  if d.signed then
    if d.value a < 0 then [45] else if .plus ∈ d.flags then [43] else if .space ∈ d.flags then [32] else []
  else if d.specifier = .x ∧ .hash ∈ d.flags ∧ d.value a ≠ 0 then [48, 120]
  else []

/-- The text that C prescribes. -/
def text (d : Directive) (a : Args) : List UInt8 :=
  let sign := d.sign a
  let digits := d.digits a
  let pad := d.fieldWidth a - (sign.length + digits.length)
  if d.left a then sign ++ digits ++ List.replicate pad 32
  else if .zero ∈ d.flags ∧ d.digitCount a = none then sign ++ List.replicate pad 48 ++ digits
  else List.replicate pad 32 ++ sign ++ digits

/-! ## What the source makes of it -/

end Directive

def LengthModifier.length : LengthModifier → Length
  | .hh => .char
  | .h => .short
  | .none => .none
  | .l => .long
  | .ll => .longLong

def Specifier.modifiers : Specifier → Modifiers
  | .d => {}
  | .i => { baseFromPrefix := true }
  | .u => { unsigned := true }
  | .x => { unsigned := true, hex := true }
  | .o => { unsigned := true, octal := true }

def Width.field : Width → Int
  | .none => absent
  | .number d ds _ _ => digitValue (d :: ds)
  | .star => asParameter

/-- A dot alone is no precision. -/
def Precision.field : Precision → Int
  | .none | .number [] _ => absent
  | .number ds _ => digitValue ds
  | .star => asParameter

/-- `fs_process`, up to the parameters. -/
def Directive.fs (d : Directive) : Fs where
  flags :=
    { plus := .plus ∈ d.flags
      space := .space ∈ d.flags ∧ .plus ∉ d.flags
      zero := .zero ∈ d.flags
      hash := .hash ∈ d.flags }
  parameter := absent
  width := d.width.field
  precision := d.precision.field
  length := d.length.length
  type := .int
  modifiers := d.specifier.modifiers
  nextChar := 0

namespace Directive

/-- The width and the precision, once those among the arguments are fetched. -/
def takenWidth (d : Directive) (a : Args) : Int :=
  match d.width with
  | .star => if (a.int 0).toInt < 0 then toInt32 (-(a.int 0).toInt) else (a.int 0).toInt
  | _ => d.width.field

def takenPrecision (d : Directive) (a : Args) : Int :=
  match d.precision with
  | .star => (a.int d.precisionArg).toInt
  | _ => d.precision.field

def taken (d : Directive) (a : Args) : Fs :=
  { d.fs with
    flags := { d.fs.flags with minus := d.left a }
    width := d.takenWidth a
    precision := d.takenPrecision a }

/-- The union that holds the value. -/
def bits (d : Directive) (a : Args) : BitVec 64 := a.integer d.valueArg d.length.length

end Directive

/-! ### Numbers and flags -/

theorem toNat_digitText (d : Fin 10) : (UInt8.ofNat (48 + d)).toNat = 48 + d := by
  revert d
  decide

theorem isdigit_digitText (d : Fin 10) : isdigit (UInt8.ofNat (48 + d)) := by
  revert d
  decide

theorem fsNumber_of_not_isdigit {rest : List UInt8} (hrest : ¬ isdigit (rest.headD 0)) (p : Int) :
    fsNumber p rest = (p, rest) := by
  cases rest with
  | nil => rfl
  | cons c rest => exact if_neg hrest

theorem fsNumber_digitText (ds : List (Fin 10)) {rest : List UInt8} (hrest : ¬ isdigit (rest.headD 0)) {n : Nat}
    (h : (ds.map Fin.val).foldl (fun n d => n * 10 + d) n < 2 ^ 31) :
    fsNumber n (digitText ds ++ rest) = ((((ds.map Fin.val).foldl (fun n d => n * 10 + d) n : Nat) : Int), rest) := by
  induction ds generalizing n with
  | nil => exact fsNumber_of_not_isdigit hrest n
  | cons d ds ih =>
      have hle := le_foldl (ds.map Fin.val) (n * 10 + d)
      have hpow : 0 < 10 ^ (ds.map Fin.val).length := Nat.pow_pos (by decide)
      have hone := Nat.le_mul_of_pos_right (n * 10 + (d : Nat)) hpow
      rw [List.map_cons, List.foldl_cons] at h
      have hnext : toInt32 (n * 10 + (UInt8.ofNat (48 + d)).toNat - 48) = (n * 10 + d : Nat) := by
        rw [toNat_digitText]
        unfold toInt32
        omega
      calc fsNumber n (UInt8.ofNat (48 + d) :: (digitText ds ++ rest))
          = fsNumber (toInt32 (n * 10 + (UInt8.ofNat (48 + d)).toNat - 48)) (digitText ds ++ rest) :=
            if_pos (isdigit_digitText d)
        _ = fsNumber (n * 10 + d : Nat) (digitText ds ++ rest) := by rw [hnext]
        _ = _ := ih h

/-- What a flag does to those before it. -/
def Flag.set (f : Flags) : Flag → Flags
  | .zero => { f with zero := true }
  | .plus => { f with plus := true, space := false }
  | .space => { f with space := f.space || !f.plus }
  | .hash => { f with hash := true }

theorem fsProcessFlags_chars (fl : List Flag) {rest : List UInt8} (hrest : rest.headD 0 ∉ [45, 43, 32, 48, 35]) (f : Flags) :
    fsProcessFlags f (fl.map Flag.char ++ rest) = (fl.foldl Flag.set f, rest) := by
  induction fl generalizing f with
  | nil =>
      cases rest with
      | nil => rfl
      | cons c rest =>
          simp only [List.headD_cons, List.mem_cons, not_or] at hrest
          obtain ⟨hminus, hplus, hspace, hzero, hhash, -⟩ := hrest
          show fsProcessFlags f (c :: rest) = (f, c :: rest)
          rw [fsProcessFlags, if_neg hminus, if_neg hplus, if_neg hspace, if_neg hzero, if_neg hhash]
  | cons flag fl ih =>
      have hstep : fsProcessFlags f (flag.char :: (fl.map Flag.char ++ rest)) =
          fsProcessFlags (flag.set f) (fl.map Flag.char ++ rest) := by
        cases flag <;> rfl
      exact hstep.trans (ih _)

/-- A `+` turns every ` ` off. -/
theorem foldl_set (fl : List Flag) {f : Flags} (hf : f.plus → f.space = false) :
    fl.foldl Flag.set f =
      { f with
        plus := f.plus || .plus ∈ fl
        space := (f.space || .space ∈ fl) && !(f.plus || .plus ∈ fl)
        zero := f.zero || .zero ∈ fl
        hash := f.hash || .hash ∈ fl } := by
  induction fl generalizing f with
  | nil =>
      have hspace : (f.space && !f.plus) = f.space := by
        cases hp : f.plus with
        | false => exact Bool.and_true _
        | true => rw [hf hp]; rfl
      simp [hspace]
  | cons flag fl ih =>
      rw [List.foldl_cons]
      cases flag with
      | zero => rw [ih (f := Flag.set f .zero) hf]; simp [Flag.set]
      | plus => rw [ih fun _ => rfl]; simp [Flag.set]
      | space =>
          have hnext : f.plus → (f.space || !f.plus) = false := fun hp => by rw [hf hp, hp]; rfl
          rw [ih hnext]
          cases hp : f.plus <;> simp [Flag.set, hp]
      | hash => rw [ih (f := Flag.set f .hash) hf]; simp [Flag.set]

/-! ### The directive -/

variable (d : Directive)

/-- What stands behind the precision begins with a letter. -/
theorem headD_length : (d.length.text ++ [d.specifier.char]).headD 0 ∈ [104, 108, 100, 105, 117, 120, 111] := by
  cases d.length <;> cases d.specifier <;> decide

theorem fsProcessLength_text :
    fsProcessLength .none (d.length.text ++ [d.specifier.char]) = (d.length.length, [d.specifier.char]) := by
  cases d.length <;> cases d.specifier <;> rfl

theorem fsProcessType_char : fsProcessType [d.specifier.char] = (.int, d.specifier.modifiers, []) := by
  cases d.specifier <;> rfl

theorem headD_precision :
    (d.precision.text ++ (d.length.text ++ [d.specifier.char])).headD 0 ∈ [46, 104, 108, 100, 105, 117, 120, 111] := by
  cases d.precision with
  | none => exact List.mem_cons_of_mem 46 (headD_length d)
  | number | star => exact List.mem_cons_self

/-- A dot or a letter is no digit, no star and no flag. -/
theorem dot_or_letter : ∀ c ∈ ([46, 104, 108, 100, 105, 117, 120, 111] : List UInt8),
    ¬ isdigit c ∧ c ≠ 42 ∧ c ∉ [45, 43, 32, 48, 35] := by decide

theorem fsProcessPrecision_text :
    fsProcessPrecision (d.precision.text ++ (d.length.text ++ [d.specifier.char])) =
      (d.precision.field, d.length.text ++ [d.specifier.char]) := by
  have hrest := headD_length d
  obtain ⟨hdigit, hstar, -⟩ := dot_or_letter _ (List.mem_cons_of_mem 46 hrest)
  have hdot : (d.length.text ++ [d.specifier.char]).headD 0 ≠ 46 := by
    cases d.length <;> cases d.specifier <;> decide
  generalize d.length.text ++ [d.specifier.char] = rest at *
  cases d.precision with
  | none => exact if_neg hdot
  | star => rfl
  | number ds hlt =>
      show fsProcessPrecision (46 :: (digitText ds ++ rest)) = _
      cases ds with
      | nil => exact (if_pos rfl).trans ((if_neg hdigit).trans (if_neg hstar))
      | cons c ds =>
          have hnumber := fsNumber_digitText (n := 0) (c :: ds) hdigit hlt
          exact (if_pos rfl).trans ((if_pos (isdigit_digitText c)).trans hnumber)

theorem fsProcessWidth_text :
    fsProcessWidth (d.width.text ++ (d.precision.text ++ (d.length.text ++ [d.specifier.char]))) =
      (d.width.field, d.precision.text ++ (d.length.text ++ [d.specifier.char])) := by
  obtain ⟨hdigit, hstar, -⟩ := dot_or_letter _ (headD_precision d)
  generalize d.precision.text ++ (d.length.text ++ [d.specifier.char]) = rest at *
  cases d.width with
  | none => exact (if_neg hdigit).trans (if_neg hstar)
  | star => rfl
  | number c ds hc hlt =>
      have hnumber := fsNumber_digitText (n := 0) (c :: ds) hdigit hlt
      exact (if_pos (isdigit_digitText c)).trans hnumber

/-- What stands behind the flags begins with none. -/
theorem headD_width :
    (d.width.text ++ (d.precision.text ++ (d.length.text ++ [d.specifier.char]))).headD 0 ∉ [45, 43, 32, 48, 35] := by
  cases d.width with
  | none => exact (dot_or_letter _ (headD_precision d)).2.2
  | star =>
      show (42 : UInt8) ∉ _
      decide
  | number c ds hc hlt =>
      show UInt8.ofNat (48 + c) ∉ _
      clear hlt
      revert c
      decide

/-- A directive names no parameter. -/
theorem dollar_not_mem_body : 36 ∉ d.body := by
  have hflags : 36 ∉ d.flags.map Flag.char := by
    intro hmem
    obtain ⟨flag, -, heq⟩ := List.mem_map.1 hmem
    revert heq
    cases flag <;> decide
  have hdigits (ds : List (Fin 10)) : 36 ∉ digitText ds := by
    intro hmem
    obtain ⟨c, -, heq⟩ := List.mem_map.1 hmem
    have hval := toNat_digitText c
    rw [heq] at hval
    exact absurd hval (by show 36 ≠ 48 + (c : Nat); omega)
  have hwidth : 36 ∉ d.width.text := by
    cases d.width with
    | none => exact List.not_mem_nil
    | number c ds => exact hdigits (c :: ds)
    | star => decide
  have hprecision : 36 ∉ d.precision.text := by
    cases d.precision with
    | none => exact List.not_mem_nil
    | number ds => exact List.not_mem_cons_of_ne_of_not_mem (by decide) (hdigits ds)
    | star => decide
  have hlength : 36 ∉ d.length.text ++ [d.specifier.char] := by
    cases d.length <;> cases d.specifier <;> decide
  unfold Directive.body
  simp only [List.mem_append, not_or] at hlength ⊢
  exact ⟨hflags, hwidth, hprecision, hlength⟩

theorem fsProcessParameter_of_not_mem {s : List UInt8} (h : 36 ∉ s) : fsProcessParameter s = (absent, s) := by
  refine if_pos fun heq => ?_
  have hsub := (fsNumber_suffix 0 s).subset
  revert heq
  cases hrest : (fsNumber 0 s).2 with
  | nil => decide
  | cons c rest =>
      rintro rfl
      exact h (hsub (hrest ▸ List.mem_cons_self))

/-- **`fs_process` reads a directive** to its end. -/
theorem fsProcess_body : fsProcess d.body = (d.fs, []) := by
  have hflags : d.flags.foldl Flag.set {} = d.fs.flags := by
    rw [foldl_set d.flags fun h => absurd h Bool.false_ne_true]
    simp [Directive.fs]
  have hparameter := fsProcessParameter_of_not_mem (dollar_not_mem_body d)
  have hchars := fsProcessFlags_chars d.flags (headD_width d) {}
  rw [hflags] at hchars
  unfold fsProcess
  rw [hparameter]
  dsimp only
  unfold Directive.body
  rw [hchars, fsProcessWidth_text]
  dsimp only
  rw [fsProcessPrecision_text]
  dsimp only
  rw [fsProcessLength_text]
  dsimp only
  rw [fsProcessType_char]
  rfl

/-- A width or a precision that is not fetched is not taken for one. -/
theorem Width.field_ne {w : Width} (h : w ≠ .star) : w.field ≠ asParameter := by
  cases w with
  | none => decide
  | number c ds =>
      intro heq
      have hneg : ((digitValue (c :: ds) : Nat) : Int) = -2 := heq
      omega
  | star => exact absurd rfl h

theorem Precision.field_ne {p : Precision} (h : p ≠ .star) : p.field ≠ asParameter := by
  cases p with
  | none => decide
  | number ds =>
      intro heq
      cases ds with
      | nil => cases heq
      | cons c ds =>
          have hneg : ((digitValue (c :: ds) : Nat) : Int) = -2 := heq
          omega
  | star => exact absurd rfl h

theorem taken_of_width_ne (h : d.width ≠ .star) (a : Args) :
    d.takenWidth a = d.width.field ∧ d.left a = false ∧ d.precisionArg = 0 := by
  unfold Directive.takenWidth Directive.left Directive.precisionArg
  cases hw : d.width with
  | none | number => exact ⟨rfl, rfl, rfl⟩
  | star => exact absurd hw h

theorem taken_of_precision_ne (h : d.precision ≠ .star) (a : Args) :
    d.takenPrecision a = d.precision.field ∧ d.valueArg = d.precisionArg := by
  unfold Directive.takenPrecision Directive.valueArg
  cases hp : d.precision with
  | none | number => exact ⟨rfl, rfl⟩
  | star => exact absurd hp h

/-- The width, if it is fetched. -/
theorem fetched_width (a : Args) :
    (if d.fs.width = asParameter then
      if (a.int 0).toInt < 0 then
        ({ d.fs with width := toInt32 (-(a.int 0).toInt), flags := { d.fs.flags with minus := true } }, 0 + 1)
      else ({ d.fs with width := (a.int 0).toInt }, 0 + 1)
    else (d.fs, 0)) =
      ({ d.fs with flags := { d.fs.flags with minus := d.left a }, width := d.takenWidth a }, d.precisionArg) := by
  by_cases hstar : d.width = .star
  · have hparam : d.fs.width = asParameter := congrArg Width.field hstar
    rw [if_pos hparam]
    unfold Directive.takenWidth Directive.left Directive.precisionArg
    rw [hstar]
    dsimp only
    by_cases hneg : (a.int 0).toInt < 0
    · rw [if_pos hneg, if_pos hneg, decide_eq_true hneg]
    · rw [if_neg hneg, if_neg hneg, decide_eq_false hneg]
      rfl
  · obtain ⟨hwidth, hleft, harg⟩ := taken_of_width_ne d hstar a
    have hparam : d.fs.width ≠ asParameter := Width.field_ne hstar
    rw [if_neg hparam, hwidth, hleft, harg]
    rfl

theorem parameters_fs (a : Args) : a.parameters 0 d.fs = (d.taken a, d.valueArg) := by
  unfold Args.parameters
  dsimp only
  rw [fetched_width]
  dsimp only
  by_cases hstar : d.precision = .star
  · have hparam : d.fs.precision = asParameter := congrArg Precision.field hstar
    have htaken : d.takenPrecision a = (a.int d.precisionArg).toInt := by
      unfold Directive.takenPrecision
      rw [hstar]
    have harg : d.valueArg = d.precisionArg + 1 := by
      unfold Directive.valueArg
      rw [hstar]
    rw [if_pos hparam, Directive.taken, htaken, harg]
  · obtain ⟨hprecision, harg⟩ := taken_of_precision_ne d hstar a
    have hparam : d.fs.precision ≠ asParameter := Precision.field_ne hstar
    rw [if_neg hparam, Directive.taken, hprecision, harg]
    rfl

/-- **A directive is printed** by `print_int`. -/
theorem vsnprintf_format (size : BitVec 32) (a : Args) :
    vsnprintf size d.format a =
      ((d.taken a).printInt (if 0 < size.toNat then size.toNat - 1 else 0) (d.bits a)).map some := by
  have hfetch : a.fetch 0 d.fs = (.int (d.taken a) (d.bits a), d.valueArg + 1) := by
    unfold Args.fetch
    rw [parameters_fs]
    rfl
  unfold vsnprintf Directive.format
  rw [printLoop, if_neg (by decide), if_neg (by decide), fsProcess_body]
  dsimp only
  rw [hfetch, printLoop]
  rfl

end YieldStm32.Stdio
