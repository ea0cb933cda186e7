import YieldStm32.Net.Http.Request

/-!
# Opening a connection (`WebSocket_Listen` in `net/websocket/src/websocket.c`)

From the connection on: the request line, the fields of the header, and the reply. The socket is that of `Http`; what the
stack holds where a function does not initialise it is given.

* `parseRequestLine`, `parseFieldLine` : lines;
* `Listening`, `takeField` : what the loop over the fields has seen, and what it makes of one more;
* `recvFields` : the loop;
* `reply` : what is handed to the socket in answer;
* `listen` : all of it.
-/

namespace YieldStm32

namespace WSListen

open Stdio Ring

/-! ## Tables -/

inductive FieldName where
  | unknown | empty | host | origin | connection | upgrade | secWsKey | secWsProtocol | secWsVersion | secWsAccept
deriving DecidableEq, Repr

/-- `BIT_VAL(name)`; the first name is 1. -/
def FieldName.mask (name : FieldName) : Nat := 1 <<< (name.ctorIdx + 1)

structure FieldSpec where
  name : FieldName
  type : Http.FieldType
  str : List UInt8
deriving DecidableEq

def fieldSpecs : List FieldSpec :=
  [⟨.host, .str, ascii "Host"⟩,
   ⟨.origin, .str, ascii "Origin"⟩,
   ⟨.connection, .str, ascii "Connection"⟩,
   ⟨.upgrade, .str, ascii "Upgrade"⟩,
   ⟨.secWsKey, .str, ascii "Sec-WebSocket-Key"⟩,
   ⟨.secWsProtocol, .str, ascii "Sec-WebSocket-Protocol"⟩,
   ⟨.secWsVersion, .int, ascii "Sec-WebSocket-Version"⟩,
   ⟨.secWsAccept, .str, ascii "Sec-WebSocket-Accept"⟩]

/-- `WebSocket_GetFieldSpec(0, str)`: the first name the line starts with. -/
def findFieldSpec (line : List UInt8) : Option FieldSpec := fieldSpecs.find? fun l => startsWord l.str line

inductive Version where
  | v1_0 | v1_1 | v2_0 | v3_0
deriving DecidableEq, Repr

/-- `WebSocket_GetVersionSpec(0, str)` -/
def getVersionSpec (str : List UInt8) : Option Version :=
  ([(.v1_0, ascii "HTTP/1.0"), (.v1_1, ascii "HTTP/1.1"), (.v2_0, ascii "HTTP/2"), (.v3_0, ascii "HTTP/3")].find?
    fun l => l.2 = str).map Prod.fst

inductive Status where
  | switchingProtocols | badRequest | notFound
deriving DecidableEq, Repr

/-- `WebSocket_GetStatusCodeSpec(code, 0, 0)` -/
def getStatusCodeSpec : Status → BitVec 32 × List UInt8
  | .switchingProtocols => (101, ascii "Switching Protocols")
  | .badRequest => (400, ascii "Bad Request")
  | .notFound => (404, ascii "Not Found")

/-! ## Lines -/

/-- The size of a line buffer. -/
def lineSize : Nat := 257

/-- `WebSocket_ParseRequestLine`: three words, the first of them `GET` and the last a version. -/
def parseRequestLine (text : List UInt8) : Option (List UInt8) :=
  let method := scanStr 9 32 (cstring text)
  let url := scanStr lineSize 32 (method.2.dropWhile isspace)
  let version := scanStr 9 0 (url.2.dropWhile isspace)
  if method.1 = ascii "GET" then (getVersionSpec version.1).map fun _ => url.1 else none

structure Field where
  name : FieldName
  value : Http.Value := .str []
deriving DecidableEq, Repr

/-- `WebSocket_ParseFieldLine` on a line's text. A string is copied into 32 bytes; that of an unknown field is cut one byte
short of what is left of the line. -/
def parseFieldLine (text : List UInt8) : Option Field :=
  if text.headD 0 = 0 then some ⟨.empty, .str []⟩
  else
    let name := text.takeWhile fun c => c ≠ 0 ∧ c ≠ 58
    match text.drop name.length with
    | 58 :: rest =>
        let value := rest.dropWhile isspace
        match findFieldSpec text with
        | none => some ⟨.unknown, .str ((cstring value).take (min 32 value.length - 1))⟩
        | some fs =>
            match fs.type with
            | .int => (scanInt (cstring value)).map fun i => ⟨fs.name, .int i⟩
            | .str => some ⟨fs.name, .str ((cstring value).take 31)⟩
    | _ => none

/-! ## The header -/

/-- What the stack holds when a line is about to be received: the line's buffer, the bytes from the field's value on, and
`d` of `strcistr`. -/
structure Stack where
  line : Nat → UInt8
  value : Nat → UInt8
  d : Int

structure Listening where
  fieldMask : Nat := 0
  key : List UInt8 := []
deriving DecidableEq, Repr

/-- What a field changes, unless it is refused. -/
def takeField (stack : Stack) (field : Field) (l : Listening) : Option Listening :=
  let l := { l with fieldMask := l.fieldMask ||| field.name.mask }
  match field.name, field.value with
  | .connection, .str s =>
      if strcistr (copyIn stack.value 0 (s ++ [0])) s.length (ascii "Upgrade") stack.d then some l else none
  | .upgrade, .str s => if sameWord s (ascii "websocket") then some l else none
  | .secWsVersion, .int i => if i = 13 then some l else none
  | .secWsKey, .str s => if s.length = 24 then some { l with key := s } else none
  | _, _ => some l

/-- `Websocket_RecvFieldLine` -/
def recvFieldLine (stack : Stack) (t : Http.Sock) : Option (Option Field × Http.Sock) :=
  match Http.recvLine lineSize stack.line t with
  | none => none
  | some (.error _, _, t) => some (none, t)
  | some (.ok len, line, t) => some (parseFieldLine (copyOut line 0 len), t)

/-- The loop over the fields up to the empty line, unless a line or a field is refused; `held i` is the stack of the
`i`-th line. -/
def recvFields (held : Nat → Stack) : Nat → Nat → Listening → Http.Sock → Option (Option Listening × Http.Sock)
  | 0, _, _, _ => none
  | fuel + 1, i, l, t =>
      match recvFieldLine (held i) t with
      | none => none
      | some (none, t) => some (none, t)
      | some (some field, t) =>
          if field.name = .empty then some (some l, t)
          else match takeField (held i) field l with
            | none => some (none, t)
            | some l => recvFields held fuel (i + 1) l t

theorem recvFields_succ (held : Nat → Stack) (fuel i : Nat) (l : Listening) (t : Http.Sock) :
    recvFields held (fuel + 1) i l t =
      match recvFieldLine (held i) t with
      | none => none
      | some (none, t) => some (none, t)
      | some (some field, t) =>
          if field.name = .empty then some (some l, t)
          else match takeField (held i) field l with
            | none => some (none, t)
            | some l => recvFields held fuel (i + 1) l t := rfl

def fieldReqMask : Nat :=
  FieldName.host.mask ||| FieldName.secWsVersion.mask ||| FieldName.secWsKey.mask ||| FieldName.connection.mask |||
    FieldName.upgrade.mask

/-! ## The reply -/

def statusLine (status : Status) : List UInt8 :=
  printed 256 (ascii "HTTP/1.1" ++ ascii " " ++ printInt (getStatusCodeSpec status).1 ++ ascii " " ++
    (getStatusCodeSpec status).2 ++ Http.crlf)

def fieldLine (str value : List UInt8) : List UInt8 :=
  printed lineSize (str ++ ascii ": " ++ cstring value ++ Http.crlf)

/-- The texts are handed to the socket one after the other; each of them whatever became of the ones before if `all`, else
up to the first that fails. What comes out is what was handed over, and whether nothing failed. -/
def handOver (all : Bool) : List (List UInt8) → Http.Sock → Option (List (List UInt8) × Bool × Http.Sock)
  | [], t => some ([], true, t)
  | text :: texts, t =>
      match t.send text with
      | none => none
      | some (.ok _, t) => (handOver all texts t).map fun r => (text :: r.1, r.2.1, r.2.2)
      | some (.error _, t) =>
          if all then (handOver all texts t).map fun r => (text :: r.1, false, r.2.2) else some ([text], false, t)

structure Listened where
  opened : Bool
  handed : List (List UInt8) := []
  sock : Http.Sock

/-- `WebSocket_SendErrorReply` -/
def refuse (status : Status) (t : Http.Sock) : Option Listened :=
  (handOver false [statusLine status, Http.crlf] t).map fun r => ⟨false, r.1, r.2.2⟩

/-- The answer that opens the connection; `accept` is what `WebSocket_ComputeAccept` makes of the key. -/
def reply (accept : List UInt8) (t : Http.Sock) : Option Listened :=
  (handOver true
    [statusLine .switchingProtocols, fieldLine (ascii "Upgrade") (ascii "websocket"),
      fieldLine (ascii "Connection") (ascii "Upgrade"), fieldLine (ascii "Sec-WebSocket-Accept") accept,
      Http.crlf] t).map fun r => ⟨r.2.1, r.1, r.2.2⟩

/-- `WebSocket_Listen` behind its validation, once a connection is there. -/
def listen (accept : List UInt8 → List UInt8) (url : Option (List UInt8)) (stack : Stack) (held : Nat → Stack)
    (fuel : Nat) (t : Http.Sock) : Option Listened :=
  match Http.recvLine (lineSize - 1) stack.line t with
  | none => none
  | some (.error _, _, t) => some ⟨false, [], t⟩
  | some (.ok len, line, t) =>
      match parseRequestLine (copyOut line 0 len) with
      | none => some ⟨false, [], t⟩
      | some reqUrl =>
          if url.all (· = reqUrl) then
            match recvFields held fuel 0 {} t with
            | none => none
            | some (none, t) => refuse .badRequest t
            | some (some l, t) =>
                if l.fieldMask &&& fieldReqMask = fieldReqMask then reply (accept l.key) t else refuse .badRequest t
          else refuse .notFound t

end WSListen

end YieldStm32
