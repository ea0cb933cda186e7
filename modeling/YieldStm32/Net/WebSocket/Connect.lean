import YieldStm32.Net.Http.StartLine
import YieldStm32.Util.Base64
import YieldStm32.Util.Sha1
import YieldStm32.Util.Strcistr

/-!
# Opening a connection as a client (`WebSocket_Connect` in `net/websocket/src/websocket.c`)

From the connection on, with the socket of `Http` and the lines of `WSListen`.

* `computeAccept` : what stands for a key in the answer;
* `sendRequest` : the request line, and the fields;
* `takeField`, `recvFields` : the loop over the fields of the answer;
* `connect` : all of it;
* `computeAccept_eq` : a key is answered as RFC 6455 says.
-/

namespace YieldStm32

namespace WSConnect

open Stdio Ring
open WSListen (FieldName Field Stack fieldLine handOver lineSize recvFieldLine)

/-! ## Keys -/

def magic : List UInt8 := ascii "258EAFA5-E914-47DA-95CA-C5AB0DC85B11"

/-- `WebSocket_ComputeAccept` -/
def computeAccept (key : List UInt8) : List UInt8 :=
  let sha1 := (Digest.SHA1.digest (Digest.SHA1.digest Digest.SHA1.initState 0 key).2 1 magic).2
  (Base64.encode (Digest.SHA1.getHashVal sha1 20).2 29).2

/-- The key that is made of a nonce. -/
def keyOf (nonce : Vector UInt8 16) : List UInt8 := (Base64.encode nonce.toList 25).2

/-! ## The request -/

/-- `url ? "/" : url` -/
def target (url : Option (List UInt8)) : Option (List UInt8) := if url.isSome then some (ascii "/") else url

/-- The line of `WebSocket_SendRequestLine`, unless a null pointer is printed. -/
def requestLine (url : Option (List UInt8)) : Option (List UInt8) :=
  (target url).map fun url => printed lineSize (ascii "GET " ++ url ++ ascii " " ++ ascii "HTTP/1.1" ++ Http.crlf)

/-- The fields, and the empty line. -/
def requestFields (key : List UInt8) : List (List UInt8) :=
  [fieldLine (ascii "Upgrade") (ascii "websocket"), fieldLine (ascii "Connection") (ascii "Upgrade"),
    fieldLine (ascii "Sec-WebSocket-Key") key, fieldLine (ascii "Sec-WebSocket-Version") (printInt 13), Http.crlf]

/-- Whether the request is sent. -/
def sendRequest (url : Option (List UInt8)) (nonce : Vector UInt8 16) (t : Http.Sock) : Option (Bool × Http.Sock) :=
  match requestLine url with
  | none => none
  | some line =>
      match handOver false [line] t with
      | none => none
      | some (_, false, t) => some (false, t)
      | some (_, true, t) => (handOver true (requestFields (keyOf nonce)) t).map Prod.snd

/-! ## The answer -/

/-- `WebSocket_RecvStatusLine` : the code, if the line is good. -/
def recvStatusLine (line : Nat → UInt8) (t : Http.Sock) : Option (Option StartLine.StatusCode × Http.Sock) :=
  match Http.recvLine (lineSize - 1) line t with
  | none => none
  | some (.error _, _, t) => some (none, t)
  | some (.ok len, line, t) =>
      match StartLine.parseStatusLine false true (copyOut line 0 len) ⟨none, .unknown⟩ with
      | .returned ec out => some (if ec < 0 then none else some out.code, t)
      | .nullRead => none
      | .reset => none

/-- What a field makes of the mask, unless it is refused. -/
def takeField (key : List UInt8) (stack : Stack) (field : Field) (fieldMask : Nat) : Option Nat :=
  let fieldMask := fieldMask ||| field.name.mask
  match field.name, field.value with
  | .connection, .str s =>
      if strcistr (copyIn stack.value 0 (s ++ [0])) s.length (ascii "Upgrade") stack.d then some fieldMask else none
  | .upgrade, .str s => if sameWord s (ascii "websocket") then some fieldMask else none
  | .secWsAccept, .str s => if s.length = 28 ∧ (computeAccept key).take 28 = s then some fieldMask else none
  | _, _ => some fieldMask

section

variable (key : List UInt8) (stack : Stack) (s : List UInt8) (fieldMask : Nat)

theorem takeField_connection (hs : 0 ∉ s) (h : s = ascii "Upgrade") :
    takeField key stack ⟨.connection, .str s⟩ fieldMask = some (fieldMask ||| FieldName.connection.mask) := by
  have hne : s ≠ [] := by
    rw [h]
    decide
  have hfind : strcistr (copyIn stack.value 0 (s ++ [0])) s.length (ascii "Upgrade") stack.d = true := by
    rw [← h]
    exact strcistr_self (stringAt_copyIn stack.value hs) hne stack.d
  exact if_pos hfind

theorem takeField_upgrade (h : sameWord s (ascii "websocket")) :
    takeField key stack ⟨.upgrade, .str s⟩ fieldMask = some (fieldMask ||| FieldName.upgrade.mask) := if_pos h

theorem takeField_accept (hlen : s.length = 28) (h : (computeAccept key).take 28 = s) :
    takeField key stack ⟨.secWsAccept, .str s⟩ fieldMask = some (fieldMask ||| FieldName.secWsAccept.mask) :=
  if_pos ⟨hlen, h⟩

end

/-- The loop over the fields up to the empty line, unless a line or a field is refused. -/
def recvFields (key : List UInt8) (held : Nat → Stack) : Nat → Nat → Nat → Http.Sock → Option (Option Nat × Http.Sock)
  | 0, _, _, _ => none
  | fuel + 1, i, fieldMask, t =>
      match recvFieldLine (held i) t with
      | none => none
      | some (none, t) => some (none, t)
      | some (some field, t) =>
          if field.name = .empty then some (some fieldMask, t)
          else match takeField key (held i) field fieldMask with
            | none => some (none, t)
            | some fieldMask => recvFields key held fuel (i + 1) fieldMask t

def fieldReqMask : Nat := FieldName.secWsAccept.mask ||| FieldName.connection.mask ||| FieldName.upgrade.mask

structure Connected where
  opened : Bool
  sock : Http.Sock

/-- What becomes of the answer to a key. -/
def recvAnswer (key : List UInt8) (stack : Stack) (held : Nat → Stack) (fuel : Nat) (t : Http.Sock) : Option Connected :=
  match recvStatusLine stack.line t with
  | none => none
  | some (code, t) =>
      if code = some .switchingProtocols then
        match recvFields key held fuel 0 0 t with
        | none => none
        | some (none, t) => some ⟨false, t⟩
        | some (some fieldMask, t) => some ⟨fieldMask &&& fieldReqMask = fieldReqMask, t⟩
      else some ⟨false, t⟩

/-- `WebSocket_Connect` behind its validation, once a connection is there. -/
def connect (url : Option (List UInt8)) (nonce : Vector UInt8 16) (stack : Stack) (held : Nat → Stack) (fuel : Nat)
    (t : Http.Sock) : Option Connected :=
  match sendRequest url nonce t with
  | none => none
  | some (false, t) => some ⟨false, t⟩
  | some (true, t) => recvAnswer (keyOf nonce) stack held fuel t

/-! ## What keys are -/

/-- What is in base 64 is text, and no line ends in it. -/
theorem encode_plain (xs : List UInt8) : ∀ c ∈ Rfc4648.encode xs, c ≠ 0 ∧ ¬ isspace c := by
  have hchar : ∀ v < 64, Rfc4648.char v ≠ 0 ∧ ¬ isspace (Rfc4648.char v) := by decide
  intro c hc
  obtain ⟨v, hv, rfl⟩ | rfl := Rfc4648.encode_chars xs c hc
  · exact hchar v hv
  · decide

theorem keyOf_eq (nonce : Vector UInt8 16) : keyOf nonce = Rfc4648.encode nonce.toList := by
  have hlen : nonce.toList.length = 16 := nonce.length_toList
  rw [keyOf, Base64.encode_eq (by omega), hlen, if_neg (by decide)]

theorem length_keyOf (nonce : Vector UInt8 16) : (keyOf nonce).length = 24 := by
  rw [keyOf_eq, Rfc4648.length_encode, nonce.length_toList]

/-- **The answer to a key**: the SHA-1 of the key and of the fixed text behind it, in base 64. -/
theorem computeAccept_eq {key : List UInt8} (hkey : key.length = 24) :
    computeAccept key = Rfc4648.encode (Fips180.Sha1.digest (key ++ magic)) := by
  have hlen : ([key].flatten ++ magic).length < 2 ^ 32 := by
    rw [List.flatten_singleton, List.length_append, hkey]
    decide
  have hval := Digest.SHA1.getHashVal_digest [key] magic hlen (show (1 : Int) ≠ 0 by decide) 20
  have hdigest := Digest.SHA1.length_digest (key ++ magic)
  rw [List.flatten_singleton, Nat.min_self, List.take_of_length_le (Nat.le_of_eq hdigest)] at hval
  have hsecond : (Digest.SHA1.getHashVal (Digest.SHA1.digest (Digest.SHA1.digest Digest.SHA1.initState 0 key).2 1 magic).2 20).2 =
      Fips180.Sha1.digest (key ++ magic) := congrArg Prod.snd hval
  rw [computeAccept, hsecond, Base64.encode_eq (by omega), hdigest, if_neg (by decide)]

theorem length_computeAccept {key : List UInt8} (hkey : key.length = 24) : (computeAccept key).length = 28 := by
  rw [computeAccept_eq hkey, Rfc4648.length_encode, Digest.SHA1.length_digest]

end WSConnect

end YieldStm32
