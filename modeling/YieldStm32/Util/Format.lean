import YieldStm32.Util.Stdio
import Mathlib.Algebra.Group.Int.Defs

/-!
# Format specifiers (`fs_process` in `util/src/stdio.c`)

A format is the list of its bytes; where it ends there is a zero. Each function takes what is left of it, and returns what it
leaves. An `int` wraps around.

* `Fs` : a format specifier;
* `fsProcess` : the specifier that stands behind a `%`.
-/

namespace YieldStm32.Stdio

/-- An `int` holds what is left of a number. -/
def toInt32 (x : Int) : Int := (x + 2 ^ 31) % 2 ^ 32 - 2 ^ 31

/-- A `size_t` does. -/
def toSize (x : Int) : Nat := (x % 2 ^ 32).toNat

/-- The `FLAGS_*` bits. -/
structure Flags where
  minus : Bool := false
  plus : Bool := false
  space : Bool := false
  zero : Bool := false
  hash : Bool := false
deriving DecidableEq

/-- `LENGTH_*` -/
inductive Length where
  | none
  | char
  | short
  | long
  | longLong
  | longDouble
  | sizeT
  | intmaxT
  | ptrdiffT
deriving DecidableEq

/-- `TYPE_*` -/
inductive FsType where
  | none
  | int
  | double
  | str
  | char
  | ptr
  | printLength
  | percent
  | endOfString
deriving DecidableEq

/-- The `TYPEMOD_*` bits. -/
structure Modifiers where
  baseFromPrefix : Bool := false
  unsigned : Bool := false
  capital : Bool := false
  hex : Bool := false
  octal : Bool := false
  exp : Bool := false
  trunc : Bool := false
  hexfloat : Bool := false
deriving DecidableEq

/-- `PARAMETER_NONE`, `WIDTH_NONE` and `PRECISION_NONE` -/
def absent : Int := -1

/-- `WIDTH_PARAMETER` and `PRECISION_PARAMETER` -/
def asParameter : Int := -2

/-- `struct fs` -/
structure Fs where
  flags : Flags
  parameter : Int
  width : Int
  precision : Int
  length : Length
  type : FsType
  modifiers : Modifiers
  nextChar : UInt8

/-- `while (isdigit(*c)) p = p * 10 + *c - '0', c++` -/
def fsNumber : Int → List UInt8 → Int × List UInt8
  | p, [] => (p, [])
  | p, c :: s => if isdigit c then fsNumber (toInt32 (p * 10 + c.toNat - 48)) s else (p, c :: s)

/-- `fs_process_parameter`; every character is at least `'1'` or at most `'9'`. -/
def fsProcessParameter (s : List UInt8) : Int × List UInt8 :=
  let (p, c) := fsNumber 0 s
  -- `'$'`
  if c.headD 0 ≠ 36 then (absent, s) else (p, c.tail)

/-- `fs_process_flags`: `'-'`, `'+'`, `' '`, `'0'` and `'#'` -/
def fsProcessFlags : Flags → List UInt8 → Flags × List UInt8
  | f, [] => (f, [])
  | f, c :: s =>
      if c = 45 then fsProcessFlags { f with minus := true } s
      else if c = 43 then fsProcessFlags { f with plus := true, space := false } s
      else if c = 32 then fsProcessFlags { f with space := f.space || !f.plus } s
      else if c = 48 then fsProcessFlags { f with zero := true } s
      else if c = 35 then fsProcessFlags { f with hash := true } s
      else (f, c :: s)

/-- `fs_process_width`: digits, or `'*'` -/
def fsProcessWidth (s : List UInt8) : Int × List UInt8 :=
  if isdigit (s.headD 0) then fsNumber 0 s
  else if s.headD 0 = 42 then (asParameter, s.tail)
  else (absent, s)

/-- `fs_process_precision`: `'.'`, with digits or `'*'` -/
def fsProcessPrecision (s : List UInt8) : Int × List UInt8 :=
  if s.headD 0 = 46 then
    if isdigit (s.tail.headD 0) then fsNumber 0 s.tail
    else if s.tail.headD 0 = 42 then (asParameter, s.tail.tail)
    else (absent, s.tail)
  else (absent, s)

/-- `fs_process_length`: `'h'`, `'l'`, `'L'`, `'z'`, `'j'` and `'t'` -/
def fsProcessLength : Length → List UInt8 → Length × List UInt8
  | l, [] => (l, [])
  | l, c :: s =>
      if c = 104 then
        if l = .none then fsProcessLength .short s
        else if l = .short then (.char, s)
        else (l, c :: s)
      else if c = 108 then
        if l = .none then fsProcessLength .long s
        else if l = .long then (.longLong, s)
        else (l, c :: s)
      else if c = 76 then if l = .none then (.longDouble, s) else (l, c :: s)
      else if c = 122 then if l = .none then (.sizeT, s) else (l, c :: s)
      else if c = 106 then if l = .none then (.intmaxT, s) else (l, c :: s)
      else if c = 116 then if l = .none then (.ptrdiffT, s) else (l, c :: s)
      else (l, c :: s)

/-- The type letters: `'d'`, `'i'`, `'u'`, `'x'`, `'X'`, `'o'`; `'f'`, `'F'`, `'e'`, `'E'`, `'g'`, `'G'`, `'a'`, `'A'`; `'s'`,
`'c'`, `'p'`, `'n'`, `'%'`. -/
def fsType (c : UInt8) : Option (FsType × Modifiers) :=
  match c with
  | 100 => some (.int, {})
  | 105 => some (.int, { baseFromPrefix := true })
  | 117 => some (.int, { unsigned := true })
  | 120 => some (.int, { unsigned := true, hex := true })
  | 88 => some (.int, { unsigned := true, hex := true, capital := true })
  | 111 => some (.int, { unsigned := true, octal := true })
  | 102 => some (.double, {})
  | 70 => some (.double, { capital := true })
  | 101 => some (.double, { exp := true })
  | 69 => some (.double, { exp := true, capital := true })
  | 103 => some (.double, { trunc := true })
  | 71 => some (.double, { trunc := true, capital := true })
  | 97 => some (.double, { hexfloat := true })
  | 65 => some (.double, { hexfloat := true, capital := true })
  | 115 => some (.str, {})
  | 99 => some (.char, {})
  | 112 => some (.ptr, {})
  | 110 => some (.printLength, {})
  | 37 => some (.percent, {})
  | _ => none

/-- `fs_process_type` -/
def fsProcessType : List UInt8 → FsType × Modifiers × List UInt8
  | [] => (.endOfString, {}, [])
  | c :: s =>
      match fsType c with
      | some (type, modifiers) => (type, modifiers, s)
      | none => (if c = 0 then .endOfString else .none, {}, c :: s)

/-- `fs_process` -/
def fsProcess (s : List UInt8) : Fs × List UInt8 :=
  let (parameter, s) := fsProcessParameter s
  let (flags, s) := fsProcessFlags {} s
  let (width, s) := fsProcessWidth s
  let (precision, s) := fsProcessPrecision s
  let (length, s) := fsProcessLength .none s
  let (type, modifiers, s) := fsProcessType s
  (⟨flags, parameter, width, precision, length, type, modifiers, s.headD 0⟩, s)

/-! ## What is left -/

theorem fsNumber_suffix (p : Int) (s : List UInt8) : (fsNumber p s).2 <:+ s := by
  induction s generalizing p with
  | nil => exact List.suffix_refl []
  | cons c s ih =>
      rw [fsNumber]
      split
      · exact (ih _).trans (List.suffix_cons c s)
      · exact List.suffix_refl _

theorem fsProcessParameter_suffix (s : List UInt8) : (fsProcessParameter s).2 <:+ s := by
  unfold fsProcessParameter
  dsimp only
  split
  · exact List.suffix_refl s
  · exact (List.tail_suffix _).trans (fsNumber_suffix 0 s)

theorem fsProcessFlags_suffix (f : Flags) (s : List UInt8) : (fsProcessFlags f s).2 <:+ s := by
  induction s generalizing f with
  | nil => exact List.suffix_refl []
  | cons c s ih =>
      rw [fsProcessFlags]
      split_ifs
      iterate 5 exact (ih _).trans (List.suffix_cons c s)
      exact List.suffix_refl _

theorem fsProcessWidth_suffix (s : List UInt8) : (fsProcessWidth s).2 <:+ s := by
  unfold fsProcessWidth
  split_ifs
  · exact fsNumber_suffix 0 s
  · exact List.tail_suffix s
  · exact List.suffix_refl s

theorem fsProcessPrecision_suffix (s : List UInt8) : (fsProcessPrecision s).2 <:+ s := by
  unfold fsProcessPrecision
  split_ifs
  · exact (fsNumber_suffix 0 _).trans (List.tail_suffix s)
  · exact (List.tail_suffix _).trans (List.tail_suffix s)
  · exact List.tail_suffix s
  · exact List.suffix_refl s

theorem fsProcessLength_suffix (l : Length) (s : List UInt8) : (fsProcessLength l s).2 <:+ s := by
  induction s generalizing l with
  | nil => exact List.suffix_refl []
  | cons c s ih =>
      have hnext (l : Length) := (ih l).trans (List.suffix_cons c s)
      rw [fsProcessLength]
      split_ifs
      · exact hnext .short
      · exact List.suffix_cons c s
      · exact List.suffix_refl _
      · exact hnext .long
      all_goals first
        | exact List.suffix_cons c s
        | exact List.suffix_refl _

theorem fsProcessType_suffix (s : List UInt8) : (fsProcessType s).2.2 <:+ s := by
  cases s with
  | nil => exact List.suffix_refl []
  | cons c s =>
      rw [fsProcessType]
      split
      · exact List.suffix_cons c s
      · exact List.suffix_refl _

/-- What `fs_process` leaves of a format. -/
theorem fsProcess_suffix (s : List UInt8) : (fsProcess s).2 <:+ s := by
  unfold fsProcess
  have hparameter := fsProcessParameter_suffix s
  generalize fsProcessParameter s = parameter at *
  have hflags := fsProcessFlags_suffix {} parameter.2
  obtain ⟨parameter, s₁⟩ := parameter
  dsimp only at *
  generalize fsProcessFlags {} s₁ = flags at *
  have hwidth := fsProcessWidth_suffix flags.2
  obtain ⟨flags, s₂⟩ := flags
  dsimp only at *
  generalize fsProcessWidth s₂ = width at *
  have hprecision := fsProcessPrecision_suffix width.2
  obtain ⟨width, s₃⟩ := width
  dsimp only at *
  generalize fsProcessPrecision s₃ = precision at *
  have hlength := fsProcessLength_suffix .none precision.2
  obtain ⟨precision, s₄⟩ := precision
  dsimp only at *
  generalize fsProcessLength .none s₄ = length at *
  have htype := fsProcessType_suffix length.2
  exact htype.trans (hlength.trans (hprecision.trans (hwidth.trans (hflags.trans hparameter))))

end YieldStm32.Stdio
