import YieldStm32.Util.Print

/-!
# Scanning (`vsnscanf` and its scanners in `util/src/stdio.c`)

Memory is the bytes from `str` on, those behind the text too. A scanner says how many bytes it has consumed (none where it
returns -1), and what it has stored; `val` says whether it has a pointer to store it through.

* `Fs.scanChar`, `Fs.scanStr`, `Fs.scanEos`, `Fs.scanInt`, `Fs.scanDouble` : the scanners; two of them go on until the memory
  makes them stop, here for so many passes at most;
* `vsnscanf` : the loop over the format.
-/

namespace YieldStm32.Stdio

/-- Where a scanner is, and how many bytes are left there. -/
structure Cursor where
  s : Nat
  size : Nat

/-- `s += n, size -= n` -/
def Cursor.advance (c : Cursor) (n : Int) : Cursor := ⟨((c.s : Int) + n).toNat, toSize ((c.size : Int) - n)⟩

/-- `eos` -/
def Cursor.Eos (c : Cursor) (m : Nat → UInt8) : Prop := tolower (m c.s) = 0 ∨ c.size = 0

instance (c : Cursor) (m : Nat → UInt8) : Decidable (c.Eos m) := inferInstanceAs (Decidable (_ ∨ _))

/-- `for (; size && *s && isspace(*s); s++, size--)` -/
def skipSpaces (m : Nat → UInt8) (s : Nat) : Nat → Cursor
  | 0 => ⟨s, 0⟩
  | size + 1 => if m s ≠ 0 ∧ isspace (m s) then skipSpaces m (s + 1) size else ⟨s, size + 1⟩

/-- What `scan_double` computes its result from. -/
structure ScannedDouble where
  isNan : Bool
  isInf : Bool
  sign : Int
  base : Nat
  buf : List UInt8
  e : Int

/-- What is stored through a pointer. -/
inductive Stored where
  | nothing
  | bytes (s : List UInt8)
  | int (w : Nat) (v : BitVec w)
  | double (length : Length) (d : ScannedDouble)

/-! ## Characters and strings -/

/-- How many characters: the precision, or one. -/
def Fs.charNum (fs : Fs) : Nat := if fs.precision ≠ absent then toSize fs.precision else 1

/-- `scan_eos`; its loop does not count down. -/
def Fs.scanEos (fs : Fs) (m : Nat → UInt8) (str size : Nat) : Nat → Option (Option Nat)
  | 0 => none
  | passes + 1 =>
      let charNum := if size < fs.charNum then size else fs.charNum
      if charNum ≠ 0 ∧ isspace (m str) then (fs.scanEos m (str + 1) size passes).map (·.map (· + 1))
      else some (if m str = 0 then some 0 else none)

/-- `scan_char` -/
def Fs.scanChar (fs : Fs) (m : Nat → UInt8) (str size : Nat) (val : Bool) : Option Nat × Stored :=
  let n := min size fs.charNum
  (if n = fs.charNum then some n else none, if val then .bytes ((List.range n).map fun i => m (str + i)) else .nothing)

/-- The variables of `scan_str`; `d` is what it has stored. -/
structure ScanningStr where
  s : Nat
  len : Nat
  maxLen : Nat
  inQuotes : Bool
  escBackslash : Bool
  d : List UInt8

/-- One pass of its loop, and whether the loop ends there. -/
def ScanningStr.step (next : UInt8) (m : Nat → UInt8) (σ : ScanningStr) : ScanningStr × Bool :=
  let c := m σ.s
  let on := { σ with s := σ.s + 1, len := σ.len + 1 }
  let store :=
    if σ.maxLen ≠ 0 then { on with d := σ.d ++ [c], maxLen := σ.maxLen - 1, escBackslash := false }
    else { on with escBackslash := false }
  if c = 0 then (σ, true)
  else if σ.escBackslash then if c = next ∧ ¬ σ.inQuotes then (σ, true) else (store, false)
  else if c = 92 then ({ on with escBackslash := true }, false)
  else if c = 34 then
    if σ.inQuotes then ({ σ with s := σ.s + 1, inQuotes := false }, true)
    else if σ.len = 0 then ({ on with inQuotes := true }, false)
    else if c = next then (σ, true)
    else (store, false)
  else if isspace c ∨ c = next then if ¬ σ.inQuotes then (σ, true) else (store, false)
  else (store, false)

def ScanningStr.loop (next : UInt8) (m : Nat → UInt8) (σ : ScanningStr) : Nat → Option ScanningStr
  | 0 => none
  | passes + 1 => if (σ.step next m).2 then some (σ.step next m).1 else (σ.step next m).1.loop next m passes

/-- `scan_str` -/
def Fs.scanStr (fs : Fs) (m : Nat → UInt8) (str size : Nat) (val : Bool) (passes : Nat) :
    Option (Option Nat × Stored) :=
  let cursor := skipSpaces m str size
  let maxLen :=
    if fs.precision ≠ absent then min (max (toInt32 (fs.precision - 1)) 0).toNat cursor.size else cursor.size
  (ScanningStr.loop fs.nextChar m ⟨cursor.s, 0, maxLen, false, false, []⟩ passes).map fun σ =>
    (some (σ.s - str), if val then .bytes (σ.d ++ [0]) else .nothing)

/-! ## Numbers -/

/-- What the precision leaves of the size. -/
def Fs.limit (fs : Fs) (c : Cursor) : Cursor :=
  if fs.precision ≠ absent then { c with size := min (toSize fs.precision) c.size } else c

/-- `SIGN`, `PREFIX`, `INT`, `END` and `ERR` -/
inductive IntStage where
  | sign
  | basePrefix
  | int
  | finished
  | failed

/-- The variables of `scan_int`; `buf` holds characters, and then the values of digits. -/
structure ScanningInt where
  stage : IntStage
  cursor : Cursor
  base : Nat
  sign : Int
  digitNum : Nat
  buf : List UInt8

/-- One pass of its loop. -/
def ScanningInt.step (tm : Modifiers) (m : Nat → UInt8) (σ : ScanningInt) : ScanningInt :=
  let c := tolower (m σ.cursor.s)
  let v := digitVal (m σ.cursor.s)
  match σ.stage with
  | .sign =>
      if σ.cursor.Eos m then { σ with stage := .failed }
      else
        let stage := if tm.hex ∨ tm.baseFromPrefix then .basePrefix else .int
        if c = 43 ∨ c = 45 then { σ with stage, sign := if c = 43 then 1 else -1, cursor := σ.cursor.advance 1 }
        else { σ with stage }
  | .basePrefix =>
      if σ.cursor.Eos m then
        { σ with
          stage := .int
          cursor := σ.cursor.advance (-σ.buf.length)
          base := if σ.base = 0 then 10 else σ.base
          buf := [] }
      else
        let buf := σ.buf ++ [c]
        if buf.length = 2 then
          let prefixBase := if buf = [48, 120] then 16 else if buf = [48, 98] then 2 else 0
          let back := prefixBase = 0 ∨ (σ.base ≠ 0 ∧ prefixBase ≠ σ.base)
          { σ with
            stage := .int
            cursor := σ.cursor.advance (if back then 1 - buf.length else 1)
            base := if σ.base = 0 then if prefixBase ≠ 0 then prefixBase else 10 else σ.base
            buf := [] }
        else { σ with cursor := σ.cursor.advance 1, buf }
  | .int =>
      if ¬ σ.cursor.Eos m ∧ v < σ.base then
        { σ with
          cursor := σ.cursor.advance 1
          digitNum := σ.digitNum + 1
          -- leading zeros are skipped, and thirty digits are kept
          buf := if (v ≠ 0 ∨ σ.buf ≠ []) ∧ σ.buf.length < 30 then σ.buf ++ [UInt8.ofNat v] else σ.buf }
      else { σ with stage := if σ.digitNum ≠ 0 then .finished else .failed }
  | .finished | .failed => σ

/-- The stages that are left. -/
def IntStage.rank : IntStage → Nat
  | .sign => 3
  | .basePrefix => 2
  | .int => 1
  | .finished | .failed => 0

theorem Cursor.advance_lt {c : Cursor} {m : Nat → UInt8} (h : ¬ c.Eos m) : (c.advance 1).size < c.size := by
  have hsize : c.size ≠ 0 := fun hzero => h (.inr hzero)
  show toSize _ < _
  unfold toSize
  omega

/-- A pass goes on to a later stage, or to the next byte. -/
theorem ScanningInt.step_lt (tm : Modifiers) (m : Nat → UInt8) {σ : ScanningInt} (h : σ.stage.rank ≠ 0) :
    Prod.Lex (· < ·) (· < ·) ((σ.step tm m).stage.rank, (σ.step tm m).cursor.size) (σ.stage.rank, σ.cursor.size) := by
  have hlate (c : Prop) [Decidable c] : (if c then IntStage.finished else IntStage.failed).rank < 1 := by
    split <;> exact Nat.one_pos
  obtain ⟨stage, cursor, base, sign, digitNum, buf⟩ := σ
  unfold step
  cases stage with
  | sign =>
      have hnext (c : Prop) [Decidable c] : (if c then IntStage.basePrefix else IntStage.int).rank < 3 := by
        split <;> decide
      dsimp only
      split
      · exact .left _ _ (show 0 < 3 by decide)
      · split <;> exact .left _ _ (hnext _)
  | basePrefix =>
      dsimp only
      split
      · exact .left _ _ (show 1 < 2 by decide)
      · rename_i heos
        split
        · exact .left _ _ (show 1 < 2 by decide)
        · exact .right _ (Cursor.advance_lt heos)
  | int =>
      dsimp only
      split
      · rename_i hdigit
        exact .right _ (Cursor.advance_lt hdigit.1)
      · exact .left _ _ (hlate _)
  | finished | failed => exact absurd rfl h

/-- The loop. -/
def ScanningInt.loop (tm : Modifiers) (m : Nat → UInt8) (σ : ScanningInt) : ScanningInt :=
  if _ : σ.stage.rank = 0 then σ else (σ.step tm m).loop tm m
termination_by (σ.stage.rank, σ.cursor.size)
decreasing_by exact σ.step_lt tm m ‹_›

/-- `base`, from the type modifiers. -/
def Modifiers.scanBase (tm : Modifiers) : Nat :=
  match tm.hex, tm.octal, tm.baseFromPrefix with
  | true, false, false => 16
  | false, true, false => 8
  | false, false, true => 0
  | _, _, _ => 10

/-- `ull`, with its sign. -/
def ScanningInt.value (σ : ScanningInt) : BitVec 64 :=
  let ull := σ.buf.foldl (fun ull c => ull * BitVec.ofNat 64 σ.base + BitVec.ofNat 64 c.toNat) 0
  if σ.sign = -1 then -ull else ull

/-- `scan_int` -/
def Fs.scanInt (fs : Fs) (m : Nat → UInt8) (str size : Nat) (val : Bool) : Option Nat × Stored :=
  let cursor := fs.limit (skipSpaces m str size)
  let σ := ScanningInt.loop fs.modifiers m ⟨.sign, cursor, fs.modifiers.scanBase, 0, 0, []⟩
  match σ.stage with
  | .failed => (none, .nothing)
  | _ =>
      (some (σ.cursor.s - str),
        if ¬ val then .nothing
        else
          match fs.length with
          | .longLong => .int 64 σ.value
          | .long => .int 32 (σ.value.setWidth 32)
          | .short => .int 16 (σ.value.setWidth 16)
          | .char => .int 32 (σ.value.setWidth 32)
          | _ => .int 32 (σ.value.setWidth 32))

/-! ## Floating point -/

/-- `SIGN`, `SPECIAL`, `PREFIX`, `INT`, `FRAC`, `EXP_SIGN`, `EXP_INT`, `END` and `ERR` -/
inductive DoubleStage where
  | sign
  | special
  | basePrefix
  | int
  | frac
  | expSign
  | expInt
  | finished
  | failed

/-- The variables of `scan_double`. -/
structure ScanningDouble where
  stage : DoubleStage
  cursor : Cursor
  sign : Int
  base : Nat
  expSign : Int
  expVal : Int
  e : Int
  isNan : Bool
  isInf : Bool
  digitNum : Nat
  buf : List UInt8

/-- `INT` and `FRAC` -/
def ScanningDouble.stepDigits (tm : Modifiers) (m : Nat → UInt8) (frac : Bool) (σ : ScanningDouble) : ScanningDouble :=
  let c := tolower (m σ.cursor.s)
  let v := digitVal (m σ.cursor.s)
  if σ.cursor.Eos m then { σ with stage := .finished }
  else if v < σ.base then
    let σ := { σ with cursor := σ.cursor.advance 1, digitNum := σ.digitNum + 1 }
    if v ≠ 0 ∨ σ.buf ≠ [] then
      { σ with
        buf := if σ.buf.length < 64 then σ.buf ++ [UInt8.ofNat v] else σ.buf
        e := if frac then σ.e else σ.e + 1 }
    else { σ with e := if frac then σ.e - 1 else σ.e }
  -- `'.'`, and `'e'` or `'p'`
  else if ¬ frac ∧ c = 46 then { σ with stage := .frac, cursor := σ.cursor.advance 1 }
  else if ((σ.base = 10 ∧ c = 101 ∧ (tm.exp ∨ tm.hexfloat)) ∨ (σ.base = 16 ∧ c = 112)) ∧ σ.digitNum ≠ 0 then
    { σ with stage := .expSign, cursor := σ.cursor.advance 1 }
  else { σ with stage := if σ.digitNum ≠ 0 then .finished else .failed }

/-- One pass of its loop. -/
def ScanningDouble.step (tm : Modifiers) (m : Nat → UInt8) (σ : ScanningDouble) : ScanningDouble :=
  let c := tolower (m σ.cursor.s)
  let v := digitVal (m σ.cursor.s)
  let signed := ¬ σ.cursor.Eos m ∧ (c = 43 ∨ c = 45)
  match σ.stage with
  | .sign =>
      if signed then
        { σ with stage := .special, sign := if c = 43 then 1 else -1, cursor := σ.cursor.advance 1 }
      else { σ with stage := .special }
  | .special =>
      if σ.cursor.Eos m then
        { σ with stage := .basePrefix, cursor := σ.cursor.advance (-σ.buf.length), buf := [] }
      else
        let buf := σ.buf ++ [c]
        if buf = ascii "inf" then { σ with stage := .finished, cursor := σ.cursor.advance 1, buf, isInf := true }
        else if buf = ascii "nan" then { σ with stage := .finished, cursor := σ.cursor.advance 1, buf, isNan := true }
        else if buf.length = 3 then
          { σ with stage := .basePrefix, cursor := σ.cursor.advance (1 - buf.length), buf := [] }
        else { σ with cursor := σ.cursor.advance 1, buf }
  | .basePrefix =>
      if ¬ tm.hexfloat then { σ with stage := .int }
      else if σ.cursor.Eos m then
        { σ with stage := .int, cursor := σ.cursor.advance (-σ.buf.length), buf := [] }
      else
        let buf := σ.buf ++ [c]
        if buf.length = 2 then
          if buf = [48, 120] then { σ with stage := .int, cursor := σ.cursor.advance 1, base := 16, buf := [] }
          else { σ with stage := .int, cursor := σ.cursor.advance (1 - buf.length), buf := [] }
        else { σ with cursor := σ.cursor.advance 1, buf }
  | .int => σ.stepDigits tm m false
  | .frac => σ.stepDigits tm m true
  | .expSign =>
      if signed then
        { σ with
          stage := .expInt
          expSign := if c = 43 then 1 else -1
          cursor := σ.cursor.advance 1
          digitNum := 0 }
      else { σ with stage := .expInt, digitNum := 0 }
  | .expInt =>
      if ¬ σ.cursor.Eos m ∧ isdigit c then
        { σ with
          cursor := σ.cursor.advance 1
          expVal := toInt32 (σ.expVal * 10 + v)
          digitNum := σ.digitNum + 1 }
      else if σ.digitNum ≠ 0 then { σ with stage := .finished }
      else if tm.exp then { σ with stage := .failed }
      -- back to where the exponent began
      else { σ with stage := .finished, cursor := σ.cursor.advance (if σ.expSign ≠ 0 then -2 else -1) }
  | .finished | .failed => σ

def DoubleStage.rank : DoubleStage → Nat
  | .sign => 7
  | .special => 6
  | .basePrefix => 5
  | .int => 4
  | .frac => 3
  | .expSign => 2
  | .expInt => 1
  | .finished | .failed => 0

theorem ScanningDouble.stepDigits_lt (tm : Modifiers) (m : Nat → UInt8) {frac : Bool} {σ : ScanningDouble}
    (h : frac = false ∧ σ.stage = .int ∨ frac = true ∧ σ.stage = .frac) :
    Prod.Lex (· < ·) (· < ·) ((σ.stepDigits tm m frac).stage.rank, (σ.stepDigits tm m frac).cursor.size)
      (σ.stage.rank, σ.cursor.size) := by
  have hstage : 3 ≤ σ.stage.rank := by
    rcases h with ⟨-, h⟩ | ⟨-, h⟩ <;> rw [h] <;> decide
  have hlate (c : Prop) [Decidable c] : (if c then DoubleStage.finished else DoubleStage.failed).rank < 3 := by
    split <;> decide
  unfold stepDigits
  dsimp only
  split
  · exact .left _ _ (Nat.lt_of_lt_of_le (show 0 < 3 by decide) hstage)
  · rename_i heos
    split
    · split <;> exact .right _ (Cursor.advance_lt heos)
    · split
      · rename_i hdot
        rcases h with ⟨-, hint⟩ | ⟨hfrac, -⟩
        · rw [hint]
          exact .left _ _ (show 3 < 4 by decide)
        · exact absurd hfrac hdot.1
      · split
        · exact .left _ _ (Nat.lt_of_lt_of_le (show 2 < 3 by decide) hstage)
        · exact .left _ _ (Nat.lt_of_lt_of_le (hlate _) hstage)

theorem ScanningDouble.step_lt (tm : Modifiers) (m : Nat → UInt8) {σ : ScanningDouble} (h : σ.stage.rank ≠ 0) :
    Prod.Lex (· < ·) (· < ·) ((σ.step tm m).stage.rank, (σ.step tm m).cursor.size) (σ.stage.rank, σ.cursor.size) := by
  obtain ⟨stage, cursor, sign, base, expSign, expVal, e, isNan, isInf, digitNum, buf⟩ := σ
  unfold step
  cases stage with
  | sign =>
      dsimp only
      split <;> exact .left _ _ (show 6 < 7 by decide)
  | special =>
      dsimp only
      split
      · exact .left _ _ (show 5 < 6 by decide)
      · rename_i heos
        split
        · exact .left _ _ (show 0 < 6 by decide)
        · split
          · exact .left _ _ (show 0 < 6 by decide)
          · split
            · exact .left _ _ (show 5 < 6 by decide)
            · exact .right _ (Cursor.advance_lt heos)
  | basePrefix =>
      dsimp only
      split
      · exact .left _ _ (show 4 < 5 by decide)
      · split
        · exact .left _ _ (show 4 < 5 by decide)
        · rename_i heos
          split
          · split <;> exact .left _ _ (show 4 < 5 by decide)
          · exact .right _ (Cursor.advance_lt heos)
  | int => exact stepDigits_lt tm m (.inl ⟨rfl, rfl⟩)
  | frac => exact stepDigits_lt tm m (.inr ⟨rfl, rfl⟩)
  | expSign =>
      dsimp only
      split <;> exact .left _ _ (show 1 < 2 by decide)
  | expInt =>
      dsimp only
      split
      · rename_i hdigit
        exact .right _ (Cursor.advance_lt hdigit.1)
      · split
        · exact .left _ _ (show 0 < 1 by decide)
        · split <;> exact .left _ _ (show 0 < 1 by decide)
  | finished | failed => exact absurd rfl h

/-- The loop. -/
def ScanningDouble.loop (tm : Modifiers) (m : Nat → UInt8) (σ : ScanningDouble) : ScanningDouble :=
  if _ : σ.stage.rank = 0 then σ else (σ.step tm m).loop tm m
termination_by (σ.stage.rank, σ.cursor.size)
decreasing_by exact σ.step_lt tm m ‹_›

/-- The number, whose digits stand for an integer that is multiplied with a power of the base. -/
def ScanningDouble.result (σ : ScanningDouble) : ScannedDouble :=
  { isNan := σ.isNan
    isInf := σ.isInf
    sign := σ.sign
    base := σ.base
    buf := σ.buf
    e := toInt32 (σ.e + (if σ.expSign = -1 then -σ.expVal else σ.expVal) - σ.buf.length) }

/-- `scan_double` -/
def Fs.scanDouble (fs : Fs) (m : Nat → UInt8) (str size : Nat) (val : Bool) : Option Nat × Stored :=
  let cursor := fs.limit (skipSpaces m str size)
  let σ := ScanningDouble.loop fs.modifiers m ⟨.sign, cursor, 0, 10, 0, 0, 0, false, false, 0, []⟩
  match σ.stage with
  | .failed => (none, .nothing)
  | _ => (some (σ.cursor.s - str), if val then .double fs.length σ.result else .nothing)

/-! ## The loop -/

/-- What `vsnscanf` returns, what is stored (by pointer), and where it ends. -/
structure Scanned where
  matched : Nat
  stored : List Stored
  str : Nat
  size : Nat

/-- A specifier. -/
def Fs.scan (fs : Fs) (m : Nat → UInt8) (str size : Nat) (val : Bool) (passes : Nat) : Option (Option Nat × Stored) :=
  match fs.type with
  | .char => some (fs.scanChar m str size val)
  | .str => fs.scanStr m str size val passes
  | .int => some (fs.scanInt m str size val)
  | .double => some (fs.scanDouble m str size val)
  | .percent => some (if m str ≠ 37 then none else some 1, .nothing)
  | .endOfString => (fs.scanEos m str size passes).map fun consumed => (consumed, .nothing)
  | _ => some (some 0, .nothing)

/-- What a specifier does where `i` arguments have been fetched, and how many have been then; none where it does not match. -/
def Scanned.spec (passes : Nat) (m : Nat → UInt8) (a : Args) (fs : Fs) (r : Scanned) (i : Nat) :
    Option (Scanned × Option Nat) :=
  let parameter := fs.precision = asParameter
  let fs := if parameter then { fs with precision := (a.int i).toInt } else fs
  let i := if parameter then i + 1 else i
  let val : Bool := fs.type ≠ .percent ∧ fs.type ≠ .endOfString ∧ fs.width ≠ asParameter
  let i := if val then i + 1 else i
  (fs.scan m r.str r.size val passes).map fun (consumed, stored) =>
    let r := { r with stored := if val then r.stored ++ [stored] else r.stored }
    match consumed with
    | none => (r, none)
    | some n =>
        ({ r with
            matched := if fs.type ≠ .percent then r.matched + 1 else r.matched
            str := r.str + n
            size := toSize ((r.size : Int) - n) }, some i)

/-- The loop of `vsnscanf`. -/
def scanLoop (passes : Nat) (m : Nat → UInt8) (a : Args) (format : List UInt8) (r : Scanned) (i : Nat) : Option Scanned :=
  match format with
  | [] => some r
  | c :: format =>
      if c = 0 then some r
      else if c ≠ 37 then
        if isspace c then
          let cursor := skipSpaces m r.str r.size
          scanLoop passes m a format { r with str := cursor.s, size := cursor.size } i
        else if r.size ≠ 0 ∧ c = m r.str then
          scanLoop passes m a format { r with str := r.str + 1, size := r.size - 1 } i
        else some r
      else
        match r.spec passes m a (fsProcess format).1 i with
        | none => none
        | some (r, none) => some r
        | some (r, some i) => scanLoop passes m a (fsProcess format).2 r i
termination_by format.length
decreasing_by
  · exact Nat.lt_succ_self _
  · exact Nat.lt_succ_self _
  · exact Nat.lt_succ_of_le (fsProcess_suffix format).length_le

/-- `vsnscanf`; the precisions are among the arguments, and the pointers. -/
def vsnscanf (passes : Nat) (m : Nat → UInt8) (size : BitVec 32) (format : List UInt8) (a : Args) : Option Scanned :=
  scanLoop passes m a format ⟨0, [], 0, size.toNat⟩ 0

end YieldStm32.Stdio
