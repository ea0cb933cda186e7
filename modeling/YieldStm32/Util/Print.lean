import YieldStm32.Lib.Numeral
import YieldStm32.Util.Format

/-!
# Printing (`vsnprintf` and its printers in `util/src/stdio.c`)

A printer is given the bytes that are left, and returns the characters that it writes. What `vsnprintf` has written is the list of
the cells from `str` on that it has gone over: it goes over a `%%` for which nothing is left, and writes nothing there.

* `Args` : the arguments, by number and by the type they are fetched with;
* `Fs.printInt`, `Fs.printDouble`, `printStr`, `printChar` : the printers;
* `Conversion` : a specifier, with the arguments that it has fetched;
* `vsnprintf` : the loop over the format.
-/

namespace YieldStm32.Stdio

/-- What `print_double` has rendered: sign and prefix, digits and exponent, and whether it is no number. -/
structure Rendered where
  sign : List UInt8
  digits : List UInt8
  special : Bool
  length_le : sign.length + digits.length ≤ 64

/-- Any arguments that match a format: what the next call of `va_arg` gives, by the number of those before it. -/
structure Args where
  int : Nat → BitVec 32
  long : Nat → BitVec 32
  longLong : Nat → BitVec 64
  str : Nat → List UInt8
  double : Nat → Rendered

namespace Fs

/-! ## Characters and strings -/

/-- `print_char` -/
def printChar (fs : Fs) (size : Nat) (val : UInt8) : List UInt8 :=
  List.replicate (min size (if fs.precision ≠ absent then toSize fs.precision else 1)) val

/-- `print_str` -/
def printStr (fs : Fs) (size : Nat) (val : List UInt8) : List UInt8 :=
  let len := if fs.precision ≠ absent then toSize fs.precision else size
  (cstring val).take (min len size)

/-! ## Integers -/

/-- `digits` -/
def digitChar (d : Nat) : UInt8 := (ascii "0123456789abcdef").getD d 0

/-- The numerical system base. -/
def base (fs : Fs) : Nat := if fs.modifiers.hex then 16 else 10

/-- `negative`; the union of the value holds its low bytes first. -/
def negative (fs : Fs) (val : BitVec 64) : Bool :=
  !fs.modifiers.unsigned &&
    match fs.length with
    | .longLong => val.msb
    | .long => (val.setWidth 32).msb
    | .short => (val.setWidth 16).msb
    | .char => (val.setWidth 8).msb
    | _ => (val.setWidth 32).msb

/-- `v` -/
def magnitude (fs : Fs) (val : BitVec 64) : Nat :=
  let negative := fs.negative val
  match fs.length with
  | .longLong => (if negative then -val else val).toNat
  | .long => (if negative then -val.setWidth 32 else val.setWidth 32).toNat
  | .short => (if negative then -(val.setWidth 16).signExtend 32 else (val.setWidth 16).setWidth 32).toNat
  -- `char` is unsigned, and `-(char)v` an `int`
  | .char => (if negative then -(val.setWidth 8).setWidth 32 else (val.setWidth 8).setWidth 32).toNat
  | _ => (if negative then -val.setWidth 32 else val.setWidth 32).toNat

/-- The digits, in the 25 bytes of `num`. -/
def number (fs : Fs) (val : BitVec 64) : List UInt8 := (Numeral.digits fs.base 25 (fs.magnitude val)).map digitChar

/-- `prefix`: `'-'`, `'+'`, `' '` or `"0x"` -/
def sign (fs : Fs) (val : BitVec 64) : List UInt8 :=
  if fs.negative val then [45]
  else if !fs.modifiers.unsigned then
    if fs.flags.plus then [43] else if fs.flags.space then [32] else []
  else if fs.flags.hash ∧ fs.base = 16 then [48, 120]
  else []

/-- `lz_len` before the width is looked at. -/
def precisionZeros (fs : Fs) (n : Int) : Int := if fs.precision ≠ absent then max (toInt32 (fs.precision - n)) 0 else 0

/-- `ls_len` and `lz_len` -/
def padding (fs : Fs) (n p : Int) : Int × Int :=
  let lz := fs.precisionZeros n
  if fs.width ≠ absent then
    if fs.flags.zero ∧ fs.precision = absent then (0, max (toInt32 (fs.width - (n + p))) 0)
    else (max (toInt32 (fs.width - toInt32 (n + p + lz))) 0, lz)
  else (0, lz)

/-- Lengths from which `excess` characters are discarded, from the end on: `ls_len`, `p_len`, `lz_len` and `n_len`. -/
def discard (excess : Nat) (ls p lz n : Int) : Int × Int × Int × Int :=
  let n := toInt32 (n - excess)
  let (lz, n) := if n < 0 then (toInt32 (lz + n), 0) else (lz, n)
  let (p, lz) := if lz < 0 then (toInt32 (p + lz), 0) else (p, lz)
  let (ls, lz) := if p < 0 then (toInt32 (ls + p), 0) else (ls, lz)
  (ls, p, lz, n)

/-- `print_int`; behind the digits there are other bytes, here zeros. -/
def printInt (fs : Fs) (size : Nat) (val : BitVec 64) : List UInt8 :=
  let num := fs.number val
  let sign := fs.sign val
  let (ls, lz) := fs.padding num.length sign.length
  let printLen := toSize (ls + sign.length + lz + num.length)
  let (ls, p, lz, n) :=
    if size < printLen then discard (printLen - size) ls sign.length lz num.length
    else (ls, (sign.length : Int), lz, (num.length : Int))
  List.replicate ls.toNat 32 ++ sign.take p.toNat ++ List.replicate lz.toNat 48 ++
    (num ++ List.replicate (n.toNat - num.length) 0).take n.toNat

/-! ## Floating point -/

/-- The output part of `print_double`: `dend` is where `size`, or else `width`, ends. -/
def printDouble (fs : Fs) (size : Nat) (t : Rendered) : List UInt8 :=
  let numberLen : Int := t.sign.length + t.digits.length
  let widthLeft := if fs.width ≠ absent then (max (toInt32 (fs.width - numberLen)) 0).toNat else 0
  let limit := if fs.width ≠ absent then toSize fs.width else size
  let tspace := if fs.flags.minus then widthLeft else 0
  let zeros := if fs.flags.minus then 0 else if fs.flags.zero ∧ !t.special then widthLeft else 0
  let lspace := if fs.flags.minus then 0 else if fs.flags.zero ∧ !t.special then 0 else widthLeft
  (List.replicate lspace 32 ++ t.sign ++ List.replicate zeros 48 ++ t.digits ++ List.replicate tspace 32).take limit

end Fs

/-! ## The loop -/

/-- A specifier with its arguments. -/
inductive Conversion where
  | char (fs : Fs) (val : UInt8)
  | str (fs : Fs) (val : List UInt8)
  | int (fs : Fs) (val : BitVec 64)
  | double (fs : Fs) (t : Rendered)
  | percent
  | other

/-- The width and the precision from the arguments, of which `i` have been fetched. -/
def Args.parameters (a : Args) (i : Nat) (fs : Fs) : Fs × Nat :=
  let (fs, i) :=
    if fs.width = asParameter then
      let width := (a.int i).toInt
      if width < 0 then ({ fs with width := toInt32 (-width), flags := { fs.flags with minus := true } }, i + 1)
      else ({ fs with width := width }, i + 1)
    else (fs, i)
  if fs.precision = asParameter then ({ fs with precision := (a.int i).toInt }, i + 1) else (fs, i)

/-- The value of an integer, as the union holds it. -/
def Args.integer (a : Args) (i : Nat) : Length → BitVec 64
  | .longLong => a.longLong i
  | .long => (a.long i).setWidth 64
  | _ => (a.int i).setWidth 64

/-- The arguments of a specifier, and how many have been fetched then. -/
def Args.fetch (a : Args) (i : Nat) (fs : Fs) : Conversion × Nat :=
  let (fs, i) := a.parameters i fs
  match fs.type with
  | .char => (.char fs (.ofBitVec ((a.int i).setWidth 8)), i + 1)
  | .str => (.str fs (a.str i), i + 1)
  | .int => (.int fs (a.integer i fs.length), i + 1)
  | .double => (.double fs (a.double i), i + 1)
  | .percent => (.percent, i)
  | _ => (.other, i)

/-- The cells that a specifier goes over, where `size` bytes are left. -/
def Conversion.print (size : Nat) : Conversion → List (Option UInt8)
  | .char fs val => (fs.printChar size val).map some
  | .str fs val => (fs.printStr size val).map some
  | .int fs val => (fs.printInt size val).map some
  | .double fs t => (fs.printDouble size t).map some
  | .percent => [if size ≠ 0 then some 37 else none]
  | .other => []

/-- A character of the format that is no specifier. -/
def printPlain (size : Nat) (c : UInt8) : List (Option UInt8) := if size ≠ 0 then [some c] else []

/-- The loop of `vsnprintf`: the cells from `str` on, `size` bytes that are left, `i` arguments that were fetched. -/
def printLoop (a : Args) (format : List UInt8) (out : List (Option UInt8)) (size i : Nat) : List (Option UInt8) :=
  match format with
  | [] => out
  | c :: format =>
      if c = 0 then out
      else if c ≠ 37 then printLoop a format (out ++ printPlain size c) (size - 1) i
      else
        let spec := fsProcess format
        let fetched := a.fetch i spec.1
        let cells := fetched.1.print size
        printLoop a spec.2 (out ++ cells) (toSize ((size : Int) - cells.length)) fetched.2
termination_by format.length
decreasing_by
  · exact Nat.lt_succ_self _
  · exact Nat.lt_succ_of_le (fsProcess_suffix format).length_le

/-- `vsnprintf`: the cells before the terminator, which is written if `size` is not zero. Their number is returned. -/
def vsnprintf (size : BitVec 32) (format : List UInt8) (a : Args) : List (Option UInt8) :=
  printLoop a format [] (if 0 < size.toNat then size.toNat - 1 else 0) 0

end YieldStm32.Stdio
