import Mathlib.Algebra.Group.Int.Defs
import YieldStm32.Lib.Ring
import YieldStm32.Util.Stdio

/-!
# HTTP requests (`net/uhttpsrv/src/uhttpsrv.c`)

What a callback can do with a request. The socket's functions are those of `sock_funcs`: what they return is given with the
socket, and a call whose turn is not there does not return. A failed `assert`, and an argument that is not of the type a
field has, end it all.

* `Sock` : a connection's byte streams;
* `recvLine`, `parseFieldLine`, `renderFieldLine` : lines;
* `Request` : the state the calls share, with two ghosts: `failed`, whether the request ever was in the error state, and
  `late`, how many times the socket was used since;
* `Call`, `Call.exec` : the calls;
* `Event`, `Event.exec` : all that a callback can do.
-/

namespace YieldStm32

namespace Http

open Stdio

def efatal : Int := -1

/-! ## Sockets -/

/-- What becomes of a send: all but `short` bytes are taken, or it fails when `n` bytes are. -/
inductive SendResult where
  | ok (short : Nat)
  | error (ec : Int) (n : Nat)
deriving DecidableEq, Repr

/-- `incoming` has not been received yet. The receives to come return up to `n + 1` bytes each, or fail. `consumed` and
`uses` count the bytes received and the calls. -/
structure Sock where
  incoming : List UInt8
  recvs : List (Except Int Nat)
  sends : List SendResult
  wire : List UInt8 := []
  consumed : Nat := 0
  uses : Nat := 0

/-- A count as an `err_t`. -/
def asErr (n : Nat) : Int := (BitVec.ofNat 32 n).toInt

/-- `sock_funcs.recv`; it waits for at least one byte. -/
def Sock.recv (t : Sock) (size : Nat) : Option (Except Int (List UInt8) × Sock) :=
  match t.recvs with
  | [] => none
  | .error ec :: recvs => some (.error ec, { t with recvs := recvs, uses := t.uses + 1 })
  | .ok n :: recvs =>
      let bytes := t.incoming.take (min (n + 1) size)
      if bytes = [] then none
      else some (if asErr bytes.length < 0 then .error (asErr bytes.length) else .ok bytes,
        { t with
          incoming := t.incoming.drop bytes.length
          recvs := recvs
          consumed := t.consumed + bytes.length
          uses := t.uses + 1 })

/-- `sock_funcs.send` -/
def Sock.send (t : Sock) (bytes : List UInt8) : Option (Except Int Nat × Sock) :=
  match t.sends with
  | [] => none
  | .ok short :: sends =>
      let n := bytes.length - short
      some (if asErr n < 0 then .error (asErr n) else .ok n,
        { t with sends := sends, wire := t.wire ++ bytes.take n, uses := t.uses + 1 })
  | .error ec n :: sends =>
      some (.error ec, { t with sends := sends, wire := t.wire ++ bytes.take n, uses := t.uses + 1 })

/-! ## Names -/

inductive Method where
  | unknown | get | head | post | put | delete | connect | options | trace | patch
deriving DecidableEq, Repr

inductive StatusCode where
  | unknown | ok | switchingProtocols | badRequest | notFound | methodNotAllowed | internalSrvErr
deriving DecidableEq, Repr

inductive FieldName where
  | unknown | empty | contentLength | server | host | contentEncoding | acceptEncoding | connection | contentType | origin
  | allow | accessControlRequestMethod | accessControlRequestHeaders | accessControlAllowOrigin
  | accessControlAllowMethods | accessControlAllowHeaders | upgrade | secWsKey | secWsProtocol | secWsVersion | secWsAccept
deriving DecidableEq, Repr

/-- `HTTP_FIELD_TYPE_FLOAT` is of no field. -/
inductive FieldType where
  | int
  | str
deriving DecidableEq, Repr

structure FieldSpec where
  name : FieldName
  type : FieldType
  str : List UInt8
deriving DecidableEq

def fieldSpecs : List FieldSpec :=
  [⟨.host, .str, ascii "host"⟩,
   ⟨.contentLength, .int, ascii "content-length"⟩,
   ⟨.server, .str, ascii "server"⟩,
   ⟨.accessControlAllowOrigin, .str, ascii "access-control-allow-origin"⟩,
   ⟨.contentEncoding, .str, ascii "content-encoding"⟩,
   ⟨.acceptEncoding, .str, ascii "accept-encoding"⟩,
   ⟨.connection, .str, ascii "connection"⟩,
   ⟨.contentType, .str, ascii "content-type"⟩,
   ⟨.allow, .str, ascii "allow"⟩,
   ⟨.origin, .str, ascii "origin"⟩,
   ⟨.accessControlRequestMethod, .str, ascii "access-control-request-method"⟩,
   ⟨.accessControlRequestHeaders, .str, ascii "access-control-request-headers"⟩,
   ⟨.accessControlAllowOrigin, .str, ascii "access-control-allow-origin"⟩,
   ⟨.accessControlAllowMethods, .str, ascii "access-control-allow-methods"⟩,
   ⟨.accessControlAllowHeaders, .str, ascii "access-control-allow-headers"⟩,
   ⟨.upgrade, .str, ascii "Upgrade"⟩,
   ⟨.secWsKey, .str, ascii "Sec-WebSocket-Key"⟩,
   ⟨.secWsProtocol, .str, ascii "Sec-WebSocket-Protocol"⟩,
   ⟨.secWsVersion, .int, ascii "Sec-WebSocket-Version"⟩,
   ⟨.secWsAccept, .str, ascii "Sec-WebSocket-Accept"⟩]

/-- `UHTTPSrv_GetFieldSpec(name, 0)` -/
def getFieldSpec (name : FieldName) : Option FieldSpec := fieldSpecs.find? (·.name = name)

/-- `UHTTPSrv_GetFieldSpec(0, str)`: the first name the line starts with. -/
def findFieldSpec (line : List UInt8) : Option FieldSpec := fieldSpecs.find? fun l => startsWord l.str line

/-- `UHTTPSrv_GetMethodSpec(0, str)` -/
def getMethodSpec (str : List UInt8) : Option Method :=
  ([(.get, ascii "GET"), (.head, ascii "HEAD"), (.post, ascii "POST"), (.put, ascii "PUT"), (.delete, ascii "DELETE"),
    (.connect, ascii "CONNECT"), (.options, ascii "OPTIONS"), (.trace, ascii "TRACE"), (.patch, ascii "PATCH")].find?
      fun l => l.2 = str).map Prod.fst

/-- `UHTTPSrv_GetStatusCodeSpec(code, 0)`; the assertion is that there is a code. -/
def getStatusCodeSpec : StatusCode → Option (BitVec 32 × List UInt8)
  | .unknown => none
  | .ok => some (200, ascii "OK")
  | .switchingProtocols => some (101, ascii "Switching Protocols")
  | .badRequest => some (400, ascii "Bad Request")
  | .notFound => some (404, ascii "Not Found")
  | .methodNotAllowed => some (405, ascii "Method Not Allowed")
  | .internalSrvErr => some (500, ascii "Internal Server Error")

/-! ## Lines -/

def maxLineLen : Nat := 256

def crlf : List UInt8 := [13, 10]

/-- The loop of `UHTTPSrv_RecvLine`; `n` bytes are in the buffer. -/
def recvLineLoop (size : Nat) : Nat → Nat → (Nat → UInt8) → Sock → Option (Except Int Nat × (Nat → UInt8) × Sock)
  | 0, _, _, _ => none
  | fuel + 1, n, line, t =>
      match t.recv 1 with
      | none => none
      | some (.error ec, t) => some (.error ec, line, t)
      | some (.ok bytes, t) =>
          let line := Ring.copyIn line n bytes
          if line n = 10 then some (.ok n, line, t)
          else if n + 1 = size then some (.error efatal, line, t)
          else recvLineLoop size fuel (n + 1) line t

/-- The length of a text without the whitespace at its end. -/
def trimmed (line : Nat → UInt8) : Nat → Nat
  | 0 => 0
  | n + 1 => if isspace (line n) then trimmed line n else n + 1

/-- `UHTTPSrv_RecvLine` -/
def recvLine (size : Nat) (line : Nat → UInt8) (t : Sock) : Option (Except Int Nat × (Nat → UInt8) × Sock) :=
  match recvLineLoop size size 0 line t with
  | none => none
  | some (.error ec, line, t) => some (.error ec, line, t)
  | some (.ok n, line, t) => some (.ok (trimmed line n), Ring.copyIn line (trimmed line n) [0], t)

inductive Value where
  | int (i : BitVec 32)
  | str (s : List UInt8)
deriving DecidableEq, Repr

/-- `uhttp_field_t` -/
structure Field where
  name : FieldName
  nameStr : List UInt8 := []
  value : Value := .str []
deriving DecidableEq, Repr

/-- `UHTTPSrv_ParseFieldLine` on a line's text. -/
def parseFieldLine (text : List UInt8) : Option Field :=
  let name := text.takeWhile fun c => c ≠ 0 ∧ c ≠ 58
  match text.drop name.length with
  | 58 :: rest =>
      let value := cstring (rest.dropWhile isspace)
      match findFieldSpec text with
      | none => some ⟨.unknown, name, .str value⟩
      | some fs =>
          match fs.type with
          | .int => (scanInt value).map fun i => ⟨fs.name, name, .int i⟩
          | .str => some ⟨fs.name, name, .str value⟩
  | _ => none

/-- `UHTTPSrv_ParseFieldLine` on a line that was not received: its length is an error code, so that the line's end comes out
before its start and no loop takes a turn. -/
def parseNoLine (line : Nat → UInt8) : Option Field :=
  if line 0 = 58 then some ⟨.unknown, [], .str (cstring (Ring.copyOut line 1 maxLineLen))⟩ else none

inductive Arg where
  | int (i : BitVec 32)
  | str (s : List UInt8)
deriving DecidableEq, Repr

/-- `UHTTPSrv_RenderFieldLine`: nothing for a name that the assertion refuses, or an argument of another type; no line for
a name that is of no field. -/
def renderFieldLine (size : Nat) (name : FieldName) (arg : Arg) : Option (Option (List UInt8)) :=
  if name = .unknown then none
  else match getFieldSpec name with
    | none => some none
    | some fs =>
        match fs.type, arg with
        | .int, .int i => some (some (printed size (fs.str ++ ascii ": " ++ printInt i ++ crlf)))
        | .str, .str s => some (some (printed size (fs.str ++ ascii ": " ++ cstring s ++ crlf)))
        | _, _ => none

/-- The status line as it is rendered for a code of the table. -/
def statusLine (spec : BitVec 32 × List UInt8) : List UInt8 :=
  ascii "HTTP/1.1" ++ ascii " " ++ printInt spec.1 ++ ascii " " ++ spec.2 ++ crlf

/-- `UHTTPSrv_ParseRequestLine`: three words, the first of them a method. The version is looked up, but the test that
follows is of the method again; nothing uses it. -/
def parseRequestLine (text : List UInt8) : Option (Method × List UInt8) :=
  let method := scanStr 9 32 (cstring text)
  let url := scanStr maxLineLen 32 (method.2.dropWhile isspace)
  (getMethodSpec method.1).map fun m => (m, url.1)

/-! ## Requests -/

inductive ReqType where
  | standard
  | websocket
deriving DecidableEq, Repr

inductive HttpState where
  | error | readFields | readBody | sendStatus | sendFields | sendBody | done
deriving DecidableEq, Repr

structure Request where
  sock : Sock
  method : Method
  line : Nat → UInt8
  lineLen : Nat
  url : List UInt8
  type : ReqType := .standard
  state : HttpState := .readFields
  bodyBleft : Nat := 0
  respBleft : Nat := 0
  wsFields : Nat := 0
  wsKey : List UInt8 := List.replicate 24 0
  failed : Bool := false
  late : Nat := 0

/-- `BIT_VAL(name)` -/
def FieldName.mask (name : FieldName) : Nat := 1 <<< name.ctorIdx

def wsFieldsReq : Nat :=
  FieldName.host.mask ||| FieldName.secWsVersion.mask ||| FieldName.secWsKey.mask ||| FieldName.connection.mask |||
    FieldName.upgrade.mask

namespace Request

variable (req : Request)

/-- `req->state = HTTP_STATE_ERROR` -/
def fail : Request := { req with state := .error, failed := true }

/-- The socket as a use of it left it. -/
def use (t : Sock) : Request :=
  { req with sock := t, late := if req.failed then req.late + (t.uses - req.sock.uses) else req.late }

/-- The error state, unless the request is in the state a call needs. -/
def require (state : HttpState) : Request := if req.state = state then req else req.fail

/-- What a field of the header changes. -/
def take (field : Field) : Request :=
  match field.name, field.value with
  | .contentLength, .int i => { req with bodyBleft := i.toNat }
  | .connection, .str s =>
      if sameWord s (ascii "Upgrade") then { req with wsFields := req.wsFields ||| field.name.mask } else req
  | .upgrade, .str s =>
      if sameWord s (ascii "websocket") then { req with wsFields := req.wsFields ||| field.name.mask } else req
  | .secWsVersion, .int i => if i = 13 then { req with wsFields := req.wsFields ||| field.name.mask } else req
  | .host, .str s => if s.length ≠ 0 then { req with wsFields := req.wsFields ||| field.name.mask } else req
  | .secWsKey, .str s =>
      if s.length = 24 then { req with wsKey := s, wsFields := req.wsFields ||| field.name.mask } else req
  | _, _ => req

/-- The empty line at the header's end. -/
def headerEnd : Request :=
  { req with
    state := if req.bodyBleft ≠ 0 then .readBody else .sendStatus
    type := if req.method = .get ∧ req.bodyBleft = 0 ∧ req.wsFields = wsFieldsReq then .websocket else .standard }

/-- `UHTTPSrv_ReadHeaderField`. A length is unsigned, so that no failure to receive a line is seen. -/
def readHeaderField : Option (Int × Option Field × Request) :=
  let req := req.require .readFields
  if req.state = .error then some (efatal, none, req)
  else match recvLine maxLineLen req.line req.sock with
    | none => none
    | some (.error ec, line, t) =>
        let req := { req.use t with line := line, lineLen := (2 ^ 32 + ec).toNat }
        match parseNoLine line with
        | none => some (efatal, none, req.fail)
        | some field => some (0, some field, req.take field)
    | some (.ok len, line, t) =>
        let req := { req.use t with line := line, lineLen := len }
        if len = 0 then some (0, some ⟨.empty, [], .str []⟩, req.headerEnd)
        else match parseFieldLine (Ring.copyOut line 0 len) with
          | none => some (efatal, none, req.fail)
          | some field => some (0, some field, req.take field)

/-- The loop of `UHTTPSrv_ReadBody`: what was received, unless a receive failed. `stored` is whether there is somewhere to
store it. -/
def readBodyLoop (stored : Bool) (size : Nat) : Nat → List UInt8 → Sock → Option (Option (List UInt8) × Sock)
  | 0, out, t => some (some out, t)
  | fuel + 1, out, t =>
      if out.length < size then
        match t.recv (if stored then size - out.length else min 16 (size - out.length)) with
        | none => none
        | some (.error _, t) => some (none, t)
        | some (.ok bytes, t) => readBodyLoop stored size fuel (out ++ bytes) t
      else some (some out, t)

/-- `UHTTPSrv_ReadBody` -/
def readBody (stored : Bool) (size : Nat) : Option (Int × List UInt8 × Request) :=
  let req := req.require .readBody
  if req.state = .error then some (efatal, [], req)
  else
    let size := min size req.bodyBleft
    if size = 0 then some (0, [], req)
    else match readBodyLoop stored size size [] req.sock with
      | none => none
      | some (none, t) => some (efatal, [], (req.use t).fail)
      | some (some out, t) =>
          let req := { req.use t with bodyBleft := req.bodyBleft - out.length }
          some (asErr out.length, out, if req.bodyBleft = 0 then { req with state := .sendStatus } else req)

/-- `UHTTPSrv_SendHeaderField` -/
def sendHeaderField (name : FieldName) (arg : Arg) : Option (Int × Request) :=
  let req := req.require .sendFields
  if req.state = .error then some (efatal, req)
  else match renderFieldLine 256 name arg with
    | none => none
    | some none => some (efatal, req.fail)
    | some (some line) =>
        match req.sock.send line with
        | none => none
        | some (.error _, t) => some (efatal, (req.use t).fail)
        | some (.ok _, t) => some (0, req.use t)

/-- `UHTTPSrv_SendStatus`. What becomes of its four fields is not looked at. -/
def sendStatus (code : StatusCode) (resSize : Nat) : Option (Int × Request) :=
  if req.state = .error then some (efatal, req)
  else match getStatusCodeSpec code with
    | none => none
    | some spec =>
        match req.sock.send (printed 32 (statusLine spec)) with
        | none => none
        | some (.error _, t) => some (efatal, (req.use t).fail)
        | some (.ok _, t) => do
            let req := { req.use t with state := .sendFields }
            let (_, req) ← req.sendHeaderField .contentLength (.int (BitVec.ofNat 32 resSize))
            let (_, req) ← req.sendHeaderField .server (.str (ascii "uHTTP"))
            let (_, req) ← req.sendHeaderField .connection (.str (ascii "keep-alive"))
            let (_, req) ← req.sendHeaderField .accessControlAllowOrigin (.str (ascii "*"))
            some (0, { req with respBleft := resSize, state := .sendFields })

/-- `UHTTPSrv_EndHeader` -/
def endHeader : Option (Int × Request) :=
  let req := req.require .sendFields
  if req.state = .error then some (efatal, req)
  else match req.sock.send crlf with
    | none => none
    | some (.error _, t) => some (efatal, (req.use t).fail)
    | some (.ok _, t) => some (0, { req.use t with state := if req.respBleft ≠ 0 then .sendBody else .done })

/-- `UHTTPSrc_SendBody` -/
def sendBody (bytes : List UInt8) : Option (Int × Request) :=
  let req := req.require .sendBody
  if req.state = .error then some (efatal, req)
  else if bytes.length = 0 then some (0, req)
  else if bytes.length > req.respBleft then some (efatal, req)
  else match req.sock.send bytes with
    | none => none
    | some (.error _, t) => some (efatal, (req.use t).fail)
    | some (.ok n, t) =>
        let req := { req.use t with respBleft := req.respBleft - n }
        some (n, if req.respBleft = 0 then { req with state := .done } else req)

end Request

/-! ## Calls -/

inductive Call where
  | readHeaderField
  | readBody (stored : Bool) (size : Nat)
  | sendStatus (code : StatusCode) (resSize : Nat)
  | sendHeaderField (name : FieldName) (arg : Arg)
  | endHeader
  | sendBody (bytes : List UInt8)

/-- What a call returns, and the request it leaves. -/
def Call.exec (req : Request) : Call → Option (Int × Request)
  | .readHeaderField => req.readHeaderField.map fun r => (r.1, r.2.2)
  | .readBody stored size => (req.readBody stored size).map fun r => (r.1, r.2.2)
  | .sendStatus code resSize => req.sendStatus code resSize
  | .sendHeaderField name arg => req.sendHeaderField name arg
  | .endHeader => req.endHeader
  | .sendBody bytes => req.sendBody bytes

/-- What a callback does. The functions of `ws.c` receive from and send to the request's socket, whatever the state is;
`UHTTPSrvWS_Accept` makes calls. -/
inductive Event where
  | call (call : Call)
  | wsRecv (size : Nat)
  | wsSend (bytes : List UInt8)

def Event.exec (req : Request) : Event → Option Request
  | .call c => (c.exec req).map Prod.snd
  | .wsRecv size => (req.sock.recv size).map fun r => req.use r.2
  | .wsSend bytes => (req.sock.send bytes).map fun r => req.use r.2

/-- The callback's argument in `UHTTPSrv_ServeTask`. -/
def Request.fresh (sock : Sock) (method : Method) (line : Nat → UInt8) (lineLen : Nat) (url : List UInt8) : Request :=
  { sock := sock, method := method, line := line, lineLen := lineLen, url := url }

end Http

end YieldStm32
