import Mathlib.Data.List.DropRight
import YieldStm32.Net.Http.Request

/-!
# HTTP messages

What the bytes of a request and of a response are; nothing here is of the program, but its table of codes.

* `HeaderLine` : a line of a header;
* `Announces` : the lengths a header announces;
* `ResponseHeader`, `Message` : the header of a response with so many bytes of body, and a request.
-/

namespace YieldStm32

namespace Http

open Stdio

/-- A header line: what stands before the colon, and what stands between it and the line's end. -/
structure HeaderLine where
  name : List UInt8
  value : List UInt8
  name_ne : name ≠ []
  name_token : ∀ c ∈ name, c ≠ 0 ∧ c ≠ 58 ∧ ¬ isspace c
  value_line : ∀ c ∈ value, c ≠ 10 ∧ c ≠ 13

namespace HeaderLine

variable (line : HeaderLine)

def bytes : List UInt8 := line.name ++ 58 :: line.value ++ crlf

/-- The value without the whitespace around it. -/
def text : List UInt8 := (line.value.rdropWhile isspace).dropWhile isspace

def isLength : Prop := sameWord line.name (ascii "content-length")

instance : Decidable line.isLength := inferInstanceAs (Decidable (sameWord ..))

end HeaderLine

def headerBytes (fields : List HeaderLine) : List UInt8 := fields.flatMap HeaderLine.bytes

/-- What a header says of the body's length is `n`. -/
def Announces (fields : List HeaderLine) (n : Nat) : Prop := ∀ line ∈ fields, line.isLength → Denotes line.text n

theorem headerBytes_append (fields : List HeaderLine) (line : HeaderLine) :
    headerBytes (fields ++ [line]) = headerBytes fields ++ line.bytes := by
  simp [headerBytes]

theorem Announces.concat {fields : List HeaderLine} {n : Nat} (h : Announces fields n) {line : HeaderLine}
    (hline : line.isLength → Denotes line.text n) : Announces (fields ++ [line]) n := by
  intro l hl
  rcases List.mem_append.1 hl with hl | hl
  · exact h l hl
  · rw [List.mem_singleton] at hl
    subst hl
    exact hline

/-! ## Responses -/

/-- One status line of the table, and the lines `name: value` behind it; the length they announce is `n`. -/
structure ResponseHeader (n : Nat) where
  status : List UInt8
  status_line : ∀ c ∈ status, c ≠ 10 ∧ c ≠ 13
  of_table : ∃ code spec, getStatusCodeSpec code = some spec ∧ statusLine spec = status ++ crlf
  fields : List HeaderLine
  spaced : ∀ line ∈ fields, ∃ text, line.value = 32 :: text
  announces : Announces fields n
  announced : ∃ line ∈ fields, line.isLength

def ResponseHeader.bytes {n : Nat} (header : ResponseHeader n) : List UInt8 :=
  header.status ++ crlf ++ headerBytes header.fields

/-- A header with one more line. -/
def ResponseHeader.concat {n : Nat} (header : ResponseHeader n) (line : HeaderLine)
    (hspaced : ∃ text, line.value = 32 :: text) (hline : line.isLength → Denotes line.text n) : ResponseHeader n :=
  { header with
    fields := header.fields ++ [line]
    spaced := fun l hl => (List.mem_append.1 hl).elim (header.spaced l) fun h => by rwa [List.mem_singleton.1 h]
    announces := header.announces.concat hline
    announced := header.announced.imp fun _ h => ⟨List.mem_append_left _ h.1, h.2⟩ }

theorem ResponseHeader.bytes_concat {n : Nat} (header : ResponseHeader n) (line : HeaderLine)
    (hspaced : ∃ text, line.value = 32 :: text) (hline : line.isLength → Denotes line.text n) :
    (header.concat line hspaced hline).bytes = header.bytes ++ line.bytes := by
  rw [bytes, bytes, concat, headerBytes_append, ← List.append_assoc]

/-- The bytes are a response: a header, an empty line, and a body of the length the header announces. -/
def IsResponse (bytes : List UInt8) : Prop :=
  ∃ body, ∃ header : ResponseHeader body.length, bytes = header.bytes ++ crlf ++ body

/-! ## Requests -/

/-- A request; without a length it has no body. -/
structure Message where
  start : List UInt8
  fields : List HeaderLine
  body : List UInt8
  start_line : ∀ c ∈ start, c ≠ 10 ∧ c ≠ 13
  announces : Announces fields body.length
  unannounced : (∀ line ∈ fields, ¬ line.isLength) → body = []

def Message.bytes (m : Message) : List UInt8 := m.start ++ crlf ++ headerBytes m.fields ++ crlf ++ m.body

end Http

end YieldStm32
