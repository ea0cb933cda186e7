import YieldStm32.Net.WebSocket.Connect
import YieldStm32.Net.WebSocket.Upgrade

/-!
# The client against the server

What `WebSocket_Connect` sends is what `WebSocket_Listen` receives, and the other way around.

* `End`, `exchange` : the two ends, and the bytes between them;
* `Interoperates` : both come out open, and the URL is seen;
* `recvAnswer_reply` : the client takes the answer of a server that opens;
* `exchange_refused` : it never comes to that.
-/

namespace YieldStm32

namespace Interop

open Stdio Ring
open Http (Sock HeaderLine headerBytes crlf)
open WSListen (Stack Listened fieldLine handOver lineSize statusLine)
open WSConnect (Connected keyOf computeAccept)
open Upgrade (Delivers)

/-! ## An exchange -/

/-- What an end of a connection has of its own: how much is there at each receive, and what its stack holds. -/
structure End where
  chunk : Nat → Nat
  stack : Stack
  held : Nat → Stack

/-- A socket on which `bytes` arrive, and that takes all that is sent. -/
def End.sock (e : End) (bytes : List UInt8) : Sock :=
  { incoming := bytes
    recvs := (List.range bytes.length).map fun i => .ok (e.chunk i)
    sends := List.replicate 6 (.ok 0) }

/-- The URL that `WebSocket_Listen` compares. -/
def seenUrl (server : End) (t : Sock) : Option (List UInt8) :=
  match Http.recvLine (lineSize - 1) server.stack.line t with
  | some (.ok len, line, _) => WSListen.parseRequestLine (copyOut line 0 len)
  | _ => none

structure Exchange where
  seen : Option (List UInt8)
  listened : Listened
  connected : Connected

/-- The request is sent, the server answers, and the client has the answer; there are no more lines than bytes. -/
def exchange (url : List UInt8) (nonce : Vector UInt8 16) (client server : End) : Option Exchange :=
  match WSConnect.sendRequest (some url) nonce (client.sock []) with
  | none => none
  | some (_, sent) =>
      match WSListen.listen computeAccept (some url) server.stack server.held (sent.wire.length + 1)
          (server.sock sent.wire) with
      | none => none
      | some listened =>
          (WSConnect.connect (some url) nonce client.stack client.held (listened.sock.wire.length + 1)
            (client.sock listened.sock.wire)).map fun connected =>
              ⟨seenUrl server (server.sock sent.wire), listened, connected⟩

/-- The server sees the URL, and both ends open. -/
def Interoperates (url : List UInt8) (nonce : Vector UInt8 16) (client server : End) : Prop :=
  ∃ x ∈ exchange url nonce client server, x.seen = some url ∧ x.listened.opened = true ∧ x.connected.opened = true

/-! ## Sending -/

theorem End.sock_delivers (e : End) (bytes : List UInt8) : Delivers (e.sock bytes) bytes where
  incoming := List.prefix_refl bytes
  recvs i hi := ⟨e.chunk i, by rw [End.sock, List.getElem?_map, List.getElem?_range hi, Option.map_some]⟩

/-- Texts that are all taken are on the wire one after the other. -/
theorem handOver_taken (all : Bool) {texts : List (List UInt8)} {n : Nat} {t : Sock}
    (hsends : t.sends = List.replicate (texts.length + n) (.ok 0)) (hlen : ∀ text ∈ texts, text.length < 2 ^ 31) :
    ∃ t', handOver all texts t = some (texts, true, t') ∧ t'.wire = t.wire ++ texts.flatten ∧
      t'.sends = List.replicate n (.ok 0) ∧ t.SameReceiving t' := by
  induction texts generalizing t with
  | nil =>
      rw [List.length_nil, Nat.zero_add] at hsends
      exact ⟨t, rfl, by simp, hsends, rfl, rfl, rfl⟩
  | cons text texts ih =>
      rw [List.length_cons, Nat.add_right_comm, List.replicate_succ] at hsends
      have hsend := Http.Sock.send_ok hsends (hlen text (List.mem_cons_self ..))
      rw [Nat.sub_zero, List.take_length] at hsend
      obtain ⟨t', hrest, hwire, hleft, hsame⟩ := @ih (t.sent (List.replicate (texts.length + n) (.ok 0)) text) rfl
        fun text h => hlen text (List.mem_cons_of_mem _ h)
      refine ⟨t', ?_, ?_, hleft, (Http.Sock.send_keeps hsend).trans hsame⟩
      · rw [handOver, hsend]
        dsimp only
        rw [hrest]
        rfl
      · rw [hwire, Http.Sock.sent, List.append_assoc, List.flatten_cons]

theorem length_printed_le (size : Nat) (text : List UInt8) : (printed size text).length ≤ size - 1 := by
  rw [printed, List.length_take]
  exact Nat.min_le_left ..

/-! ## Lines -/

/-- A field whose value is one word; it fits the line it is printed to. -/
structure SentField where
  name : List UInt8
  value : List UInt8
  name_ne : name ≠ []
  name_token : ∀ c ∈ name, c ≠ 0 ∧ c ≠ 58 ∧ ¬ isspace c
  value_word : ∀ c ∈ value, c ≠ 0 ∧ ¬ isspace c
  short : name.length + value.length ≤ 252

namespace SentField

variable (f : SentField)

def text : List UInt8 := fieldLine f.name f.value

def line : HeaderLine where
  name := f.name
  value := 32 :: f.value
  name_ne := f.name_ne
  name_token := f.name_token
  value_line := by
    intro c hc
    rcases List.mem_cons.1 hc with rfl | hc
    · decide
    · have hspace := (f.value_word c hc).2
      constructor <;> rintro rfl <;> exact hspace (by decide)

theorem cstring_value : cstring f.value = f.value :=
  List.takeWhile_eq_self_iff.2 fun c hc => by simpa using (f.value_word c hc).1

theorem text_eq : f.text = f.line.bytes := by
  have hbytes : f.name ++ ascii ": " ++ f.value ++ crlf = f.line.bytes := by
    simp [HeaderLine.bytes, line, show ascii ": " = [58, 32] by decide]
  have hlen : (f.name ++ ascii ": " ++ f.value ++ crlf).length ≤ lineSize - 1 := by
    have hshort := f.short
    simp [crlf, lineSize, show ascii ": " = [58, 32] by decide]
    omega
  rw [text, fieldLine, cstring_value, printed, List.take_of_length_le hlen, hbytes]

theorem length_bytes_lt : f.line.bytes.length < 257 := by
  rw [← text_eq, text, fieldLine]
  exact Nat.lt_of_le_of_lt (length_printed_le ..) (by decide)

theorem valueOf_line : Upgrade.valueOf f.line = f.value := by
  have hspace : ∀ c ∈ f.value, ¬ isspace c := fun c hc => (f.value_word c hc).2
  have hvalue : cstring f.value = f.value := f.cstring_value
  rw [Upgrade.valueOf, HeaderLine.text, line]
  dsimp only
  cases hv : f.value with
  | nil => decide
  | cons c v =>
      rw [hv] at hspace hvalue
      have hend : (32 :: c :: v).rdropWhile isspace = 32 :: c :: v := List.rdropWhile_eq_self_iff.2 fun hne => by
        rw [List.getLast_cons (List.cons_ne_nil c v)]
        simpa using hspace _ (List.getLast_mem (List.cons_ne_nil c v))
      rw [hend, List.dropWhile_cons_of_pos (by decide), List.dropWhile_cons_of_neg (by simpa using hspace c (List.mem_cons_self ..)), hvalue]

end SentField

theorem flatten_texts (fields : List SentField) :
    (fields.map SentField.text).flatten = headerBytes (fields.map SentField.line) := by
  rw [headerBytes, List.flatMap_map, List.flatMap_def]
  exact congrArg List.flatten (List.map_congr_left fun f _ => f.text_eq)

theorem length_texts (fields : List SentField) : ∀ text ∈ fields.map SentField.text ++ [crlf], text.length < 2 ^ 31 := by
  intro text h
  rcases List.mem_append.1 h with h | h
  · obtain ⟨f, -, rfl⟩ := List.mem_map.1 h
    rw [f.text_eq]
    exact Nat.lt_trans f.length_bytes_lt (by decide)
  · rw [List.mem_singleton.1 h]
    decide

/-! ## The request -/

def upgradeField : SentField := ⟨ascii "Upgrade", ascii "websocket", by decide, by decide, by decide, by decide⟩

def connectionField : SentField := ⟨ascii "Connection", ascii "Upgrade", by decide, by decide, by decide, by decide⟩

def versionField : SentField := ⟨ascii "Sec-WebSocket-Version", printInt 13, by decide, by decide, by decide, by decide⟩

/-- A key that is made of a nonce. -/
def keyField (nonce : Vector UInt8 16) : SentField where
  name := ascii "Sec-WebSocket-Key"
  value := keyOf nonce
  name_ne := by decide
  name_token := by decide
  value_word := WSConnect.keyOf_eq nonce ▸ WSConnect.encode_plain nonce.toList
  short := by
    rw [WSConnect.length_keyOf]
    decide

/-- The answer to a key. -/
def acceptField {key : List UInt8} (h : key.length = 24) : SentField where
  name := ascii "Sec-WebSocket-Accept"
  value := computeAccept key
  name_ne := by decide
  name_token := by decide
  value_word := WSConnect.computeAccept_eq h ▸ WSConnect.encode_plain _
  short := by
    rw [WSConnect.length_computeAccept h]
    decide

/-- What the client says of itself. -/
def requestHeader (nonce : Vector UInt8 16) : List SentField :=
  [upgradeField, connectionField, keyField nonce, versionField]

/-- All that the client sends. -/
def requestBytes (nonce : Vector UInt8 16) : List UInt8 :=
  Upgrade.offeredStart ++ crlf ++ (headerBytes ((requestHeader nonce).map SentField.line) ++ crlf)

theorem length_requestBytes (nonce : Vector UInt8 16) : 5 ≤ (requestBytes nonce).length := by
  have hstart : 5 ≤ Upgrade.offeredStart.length := by decide
  rw [requestBytes, List.append_assoc, List.length_append]
  exact Nat.le_trans hstart (Nat.le_add_right ..)

/-- **The request line**: the URL is not in it. -/
theorem requestLine_eq (url : List UInt8) : WSConnect.requestLine (some url) = some (Upgrade.offeredStart ++ crlf) := by
  have hline : printed lineSize (ascii "GET " ++ ascii "/" ++ ascii " " ++ ascii "HTTP/1.1" ++ crlf) =
      Upgrade.offeredStart ++ crlf := by
    decide
  rw [WSConnect.requestLine, WSConnect.target, if_pos Option.isSome_some, Option.map_some, hline]

theorem requestFields_eq (nonce : Vector UInt8 16) :
    WSConnect.requestFields (keyOf nonce) = (requestHeader nonce).map SentField.text ++ [crlf] := rfl

theorem sendRequest_taken (url : List UInt8) (nonce : Vector UInt8 16) {t : Sock}
    (hsends : t.sends = List.replicate 6 (.ok 0)) :
    ∃ t', WSConnect.sendRequest (some url) nonce t = some (true, t') ∧ t'.wire = t.wire ++ requestBytes nonce ∧
      t.SameReceiving t' := by
  obtain ⟨t1, hline, hwire1, hsends1, hsame1⟩ := @handOver_taken false [Upgrade.offeredStart ++ crlf] 5 t hsends
    (by decide)
  obtain ⟨t2, hfields, hwire2, -, hsame2⟩ := @handOver_taken true (WSConnect.requestFields (keyOf nonce)) 0 t1 hsends1
    (length_texts (requestHeader nonce))
  refine ⟨t2, ?_, ?_, hsame1.trans hsame2⟩
  · rw [WSConnect.sendRequest, requestLine_eq]
    dsimp only
    rw [hline]
    dsimp only
    rw [hfields]
    rfl
  · rw [hwire2, hwire1, requestFields_eq, List.flatten_append, flatten_texts, List.flatten_singleton, List.flatten_singleton,
      List.append_assoc]
    rfl

/-! ## The server -/

/-- A refusal, on a socket that takes all that is sent. -/
theorem refuse_taken (status : WSListen.Status) {t : Sock} (hsends : t.sends = List.replicate 6 (.ok 0)) :
    ∃ l, WSListen.refuse status t = some l ∧ l.opened = false ∧ l.sock.wire = t.wire ++ (statusLine status ++ crlf) := by
  have hlen : ∀ text ∈ [statusLine status, crlf], text.length < 2 ^ 31 := by
    cases status <;> decide
  obtain ⟨t', hr, hwire, -, -⟩ := @handOver_taken false [statusLine status, crlf] 4 t hsends hlen
  refine ⟨⟨false, [statusLine status, crlf], t'⟩, ?_, rfl, ?_⟩
  · rw [WSListen.refuse, hr]
    rfl
  · rw [hwire]
    simp

/-- What a server that opens says of itself. -/
def answerHeader {key : List UInt8} (hkey : key.length = 24) : List SentField :=
  [upgradeField, connectionField, acceptField hkey]

/-- An answer that opens the connection, on such a socket. -/
theorem reply_taken {key : List UInt8} (hkey : key.length = 24) {t : Sock} (hsends : t.sends = List.replicate 6 (.ok 0)) :
    ∃ l, WSListen.reply (computeAccept key) t = some l ∧ l.opened = true ∧
      l.sock.wire = t.wire ++
        (statusLine .switchingProtocols ++ (headerBytes ((answerHeader hkey).map SentField.line) ++ crlf)) := by
  have hlen : ∀ text ∈ statusLine .switchingProtocols :: ((answerHeader hkey).map SentField.text ++ [crlf]),
      text.length < 2 ^ 31 := by
    intro text h
    rcases List.mem_cons.1 h with rfl | h
    · decide
    · exact length_texts _ text h
  obtain ⟨t', hr, hwire, -, -⟩ :=
    @handOver_taken true (statusLine .switchingProtocols :: ((answerHeader hkey).map SentField.text ++ [crlf])) 1 t hsends hlen
  refine ⟨⟨true, _, t'⟩, congrArg (Option.map _) hr, rfl, ?_⟩
  rw [hwire, List.flatten_cons, List.flatten_append, flatten_texts, List.flatten_singleton]

/-- No host is named. -/
theorem no_host (nonce : Vector UInt8 16) :
    ∀ l ∈ (requestHeader nonce).map SentField.line, ¬ Upgrade.Required.host.Names l := by
  intro l hl
  have hnames : ∀ f ∈ requestHeader nonce, f.name ∈ [ascii "Upgrade", ascii "Connection", ascii "Sec-WebSocket-Key",
      ascii "Sec-WebSocket-Version"] := by
    simp [requestHeader, upgradeField, connectionField, keyField, versionField]
  have hhost : ∀ name ∈ [ascii "Upgrade", ascii "Connection", ascii "Sec-WebSocket-Key", ascii "Sec-WebSocket-Version"],
      ¬ startsWord (ascii "Host") name := by
    decide
  obtain ⟨f, hf, rfl⟩ := List.mem_map.1 hl
  exact hhost _ (hnames f hf)

/-- What the server answers. -/
def refusal (url : List UInt8) : WSListen.Status := if url = ascii "/" then .badRequest else .notFound

/-- **The server refuses** what the client sends: the URL is another one, or there is no host. -/
theorem listen_refuses (url : List UInt8) (nonce : Vector UInt8 16) (server : End) {fuel : Nat} (hfuel : 5 ≤ fuel) :
    seenUrl server (server.sock (requestBytes nonce)) = some (ascii "/") ∧
      ∃ l, WSListen.listen computeAccept (some url) server.stack server.held fuel (server.sock (requestBytes nonce)) = some l ∧
        l.opened = false ∧ l.sock.wire = statusLine (refusal url) ++ crlf := by
  have hstart : ∀ c ∈ Upgrade.offeredStart, c ≠ 10 := by decide
  have hparse : WSListen.parseRequestLine (Upgrade.offeredStart.rdropWhile isspace) = some (ascii "/") := by decide
  have hd := server.sock_delivers (requestBytes nonce)
  constructor
  · obtain ⟨len, line, t1, hr, htext, -⟩ :=
      @Upgrade.recvLine_start Upgrade.offeredStart _ _ (lineSize - 1) server.stack.line hstart hd (by decide)
    rw [seenUrl, hr]
    dsimp only
    rw [htext, hparse]
  · have hshort : ∀ l ∈ (requestHeader nonce).map SentField.line, l.bytes.length < 257 := by
      intro l hl
      obtain ⟨f, -, rfl⟩ := List.mem_map.1 hl
      exact f.length_bytes_lt
    have hcases := @Upgrade.listen_cases Upgrade.offeredStart (ascii "/") _ _ fuel computeAccept (some url) server.stack
      server.held hstart (by decide) hparse hshort hd hfuel
    obtain ⟨t', ⟨hwire, hsends, -⟩, heq⟩ : ∃ t', (server.sock (requestBytes nonce)).SameSending t' ∧
        WSListen.listen computeAccept (some url) server.stack server.held fuel (server.sock (requestBytes nonce)) =
          WSListen.refuse (refusal url) t' := by
      by_cases hurl : url = ascii "/"
      · rw [if_pos (by simpa using hurl)] at hcases
        obtain ⟨o, t', hsame, -, hall, heq⟩ := hcases
        refine ⟨t', hsame, ?_⟩
        rw [heq, refusal, if_pos hurl]
        cases o with
        | none => rfl
        | some x =>
            refine if_neg fun hmask => ?_
            obtain ⟨l, hl, hhost⟩ := (hall x rfl).1 hmask .host
            exact no_host nonce l hl hhost
      · rw [if_neg (by simpa using hurl)] at hcases
        rwa [refusal, if_neg hurl]
    obtain ⟨l, hl, hopened, hlwire⟩ := refuse_taken (refusal url) (hsends.trans rfl)
    exact ⟨l, heq.trans hl, hopened, by rw [hlwire, hwire]; rfl⟩

/-! ## The client -/

def codeOf : WSListen.Status → StartLine.StatusCode
  | .switchingProtocols => .switchingProtocols
  | .badRequest => .badRequest
  | .notFound => .notFound

/-- A status line without its end. -/
def statusWords : WSListen.Status → List UInt8
  | .switchingProtocols => ascii "HTTP/1.1 101 Switching Protocols"
  | .badRequest => ascii "HTTP/1.1 400 Bad Request"
  | .notFound => ascii "HTTP/1.1 404 Not Found"

theorem statusLine_eq (status : WSListen.Status) : statusLine status = statusWords status ++ crlf := by
  cases status <;> decide

theorem length_statusLine (status : WSListen.Status) : 4 ≤ (statusLine status).length := by
  cases status <;> decide

theorem statusWords_parse (status : WSListen.Status) :
    StartLine.parseStatusLine false true ((statusWords status).rdropWhile isspace) ⟨none, .unknown⟩ =
      .returned 0 ⟨none, codeOf status⟩ := by
  cases status <;> rfl

/-- **A status line**: what it was printed from is what it is read as. -/
theorem recvStatusLine_line (status : WSListen.Status) {bytes : List UInt8} {t : Sock} (line : Nat → UInt8)
    (hd : Delivers t (statusLine status ++ bytes)) :
    ∃ t', WSConnect.recvStatusLine line t = some (some (codeOf status), t') ∧ Delivers t' bytes := by
  have hstart : ∀ c ∈ statusWords status, c ≠ 10 := by cases status <;> decide
  have hsize : (statusWords status ++ crlf).length ≤ lineSize - 1 := by cases status <;> decide
  rw [statusLine_eq] at hd
  obtain ⟨len, line', t', hr, htext, hd', -⟩ := Upgrade.recvLine_start line hstart hd hsize
  refine ⟨t', ?_, hd'⟩
  rw [WSConnect.recvStatusLine, hr]
  dsimp only
  rw [htext, statusWords_parse]
  exact congrArg (fun code => some (code, t')) (if_neg (by decide))

/-- A field is taken, whatever the stack holds. -/
def Takes (key : List UInt8) (f : SentField) (name : WSListen.FieldName) : Prop :=
  name ≠ .empty ∧ ∀ stack fieldMask, ∃ field, WSListen.parseFieldLine (Upgrade.lineText f.line) = some field ∧
    field.name = name ∧ WSConnect.takeField key stack field fieldMask = some (fieldMask ||| name.mask)

/-- The loop over fields that are all taken. -/
theorem recvFields_taken {key : List UInt8} {held : Nat → Stack} {fields : List (SentField × WSListen.FieldName)}
    {fuel i fieldMask : Nat} {t : Sock} (htakes : ∀ f ∈ fields, Takes key f.1 f.2)
    (hd : Delivers t (headerBytes (fields.map fun f => f.1.line) ++ crlf)) (hfuel : fields.length + 1 ≤ fuel) :
    ∃ t', WSConnect.recvFields key held fuel i fieldMask t =
      some (some (fields.foldl (fun m f => m ||| f.2.mask) fieldMask), t') := by
  induction fields generalizing fuel i fieldMask t with
  | nil =>
      obtain ⟨fuel, rfl⟩ := Nat.exists_eq_add_of_le' hfuel
      obtain ⟨line, t', hr, -⟩ := @Upgrade.recvLine_emptyLine t lineSize (held i).line hd (by decide)
      refine ⟨t', ?_⟩
      rw [List.length_nil, Nat.zero_add, WSConnect.recvFields, WSListen.recvFieldLine, hr]
      rfl
  | cons f fields ih =>
      obtain ⟨fuel, rfl⟩ := Nat.exists_eq_succ_of_ne_zero (show fuel ≠ 0 by omega)
      rw [List.map_cons] at hd
      obtain ⟨len, line, t1, hr, htext, hd1, -⟩ :=
        @Upgrade.recvLine_headerLine f.1.line _ t lineSize (held i).line hd (Nat.le_of_lt f.1.length_bytes_lt)
      obtain ⟨hne, htake⟩ := htakes f (List.mem_cons_self ..)
      obtain ⟨field, hparse, hname, htaken⟩ := htake (held i) fieldMask
      obtain ⟨t', hrun⟩ := @ih fuel (i + 1) (fieldMask ||| f.2.mask) t1 (fun f h => htakes f (List.mem_cons_of_mem _ h)) hd1
        (Nat.le_of_succ_le_succ hfuel)
      refine ⟨t', ?_⟩
      rw [WSConnect.recvFields, WSListen.recvFieldLine, hr]
      dsimp only
      rw [htext, hparse]
      dsimp only
      rw [if_neg (hname ▸ hne), htaken]
      exact hrun

theorem parse_sent (f : SentField) {fs : WSListen.FieldSpec} (hfind : WSListen.findFieldSpec f.name = some fs)
    (htype : fs.type = .str) (hlen : f.value.length ≤ 31) :
    WSListen.parseFieldLine (Upgrade.lineText f.line) = some ⟨fs.name, .str f.value⟩ := by
  have hname : WSListen.findFieldSpec f.line.name = some fs := hfind
  rw [Upgrade.wsParse_eq, hname, f.valueOf_line, List.take_of_length_le hlen]
  dsimp only
  rw [htype]

theorem takes_upgrade (key : List UInt8) : Takes key upgradeField .upgrade := by
  refine ⟨by decide, fun stack fieldMask => ⟨⟨.upgrade, .str (ascii "websocket")⟩, ?_, rfl, ?_⟩⟩
  · exact @parse_sent upgradeField ⟨.upgrade, .str, ascii "Upgrade"⟩ (by decide) rfl (by decide)
  · exact WSConnect.takeField_upgrade key stack _ fieldMask (by decide)

theorem takes_connection (key : List UInt8) : Takes key connectionField .connection := by
  refine ⟨by decide, fun stack fieldMask => ⟨⟨.connection, .str (ascii "Upgrade")⟩, ?_, rfl, ?_⟩⟩
  · exact @parse_sent connectionField ⟨.connection, .str, ascii "Connection"⟩ (by decide) rfl (by decide)
  · exact WSConnect.takeField_connection key stack _ fieldMask (by decide) rfl

theorem takes_accept {key : List UInt8} (hkey : key.length = 24) : Takes key (acceptField hkey) .secWsAccept := by
  have hlen := WSConnect.length_computeAccept hkey
  have hfind : WSListen.findFieldSpec (ascii "Sec-WebSocket-Accept") =
      some ⟨.secWsAccept, .str, ascii "Sec-WebSocket-Accept"⟩ := by
    decide
  refine ⟨by decide, fun stack fieldMask => ⟨⟨.secWsAccept, .str (computeAccept key)⟩, ?_, rfl, ?_⟩⟩
  · exact @parse_sent (acceptField hkey) _ hfind rfl (Nat.le_trans (Nat.le_of_eq hlen) (by decide))
  · exact WSConnect.takeField_accept key stack _ fieldMask hlen (List.take_of_length_le (Nat.le_of_eq hlen))

/-- **The client takes the answer** of a server that opens. -/
theorem recvAnswer_reply {key : List UInt8} (hkey : key.length = 24) (client : End) {fuel : Nat} (hfuel : 4 ≤ fuel) {t : Sock}
    (hd : Delivers t
      (statusLine .switchingProtocols ++ (headerBytes ((answerHeader hkey).map SentField.line) ++ crlf))) :
    ∃ c, WSConnect.recvAnswer key client.stack client.held fuel t = some c ∧ c.opened = true := by
  obtain ⟨t1, hstatus, hd1⟩ := recvStatusLine_line .switchingProtocols client.stack.line hd
  have htakes : ∀ f ∈ [(upgradeField, WSListen.FieldName.upgrade), (connectionField, .connection),
      (acceptField hkey, .secWsAccept)], Takes key f.1 f.2 := by
    simp only [List.forall_mem_cons, List.not_mem_nil]
    exact ⟨takes_upgrade key, takes_connection key, takes_accept hkey, fun _ h => nomatch h⟩
  obtain ⟨t2, hrun⟩ := @recvFields_taken key client.held _ fuel 0 0 t1 htakes hd1 hfuel
  refine ⟨⟨true, t2⟩, ?_, rfl⟩
  have hmask : (0 ||| WSListen.FieldName.upgrade.mask ||| WSListen.FieldName.connection.mask |||
      WSListen.FieldName.secWsAccept.mask) &&& WSConnect.fieldReqMask = WSConnect.fieldReqMask := by
    decide
  rw [WSConnect.recvAnswer, hstatus]
  dsimp only
  rw [if_pos (by decide), hrun]
  exact congrArg (fun opened => some (⟨opened, t2⟩ : Connected)) (decide_eq_true hmask)

theorem sendRequest_sock (url : List UInt8) (nonce : Vector UInt8 16) (client : End) (bytes : List UInt8) :
    ∃ t, WSConnect.sendRequest (some url) nonce (client.sock bytes) = some (true, t) ∧ t.wire = requestBytes nonce ∧
      Delivers t bytes := by
  obtain ⟨t, hsend, hwire, hincoming, hrecvs, -⟩ := @sendRequest_taken url nonce (client.sock bytes) rfl
  have hd := client.sock_delivers bytes
  exact ⟨t, hsend, hwire, hincoming ▸ hd.incoming, hrecvs ▸ hd.recvs⟩

/-- **A server that opens** on the key of a nonce opens the client too. -/
theorem connect_reply (url : List UInt8) (nonce : Vector UInt8 16) (client : End) {t : Sock} (hwire : t.wire = [])
    (hsends : t.sends = List.replicate 6 (.ok 0)) :
    ∃ l c, WSListen.reply (computeAccept (keyOf nonce)) t = some l ∧ l.opened = true ∧
      WSConnect.connect (some url) nonce client.stack client.held (l.sock.wire.length + 1) (client.sock l.sock.wire) =
        some c ∧ c.opened = true := by
  have hkey := WSConnect.length_keyOf nonce
  obtain ⟨l, hl, hopened, hlwire⟩ := reply_taken hkey hsends
  obtain ⟨t', hsend, -, hd⟩ := sendRequest_sock url nonce client l.sock.wire
  rw [hwire, List.nil_append] at hlwire
  have hfuel : 4 ≤ l.sock.wire.length + 1 := by
    rw [hlwire, List.length_append]
    exact Nat.le_succ_of_le (Nat.le_trans (length_statusLine .switchingProtocols) (Nat.le_add_right ..))
  rw [hlwire] at hd
  obtain ⟨c, hc, hcopened⟩ := @recvAnswer_reply _ hkey client (l.sock.wire.length + 1) hfuel _ hd
  refine ⟨l, c, hl, hopened, ?_, hcopened⟩
  rw [WSConnect.connect, hsend]
  exact hc

/-- A client that is refused does not open. -/
theorem connect_refused (url : List UInt8) (nonce : Vector UInt8 16) (client : End) {status : WSListen.Status}
    (hstatus : status ≠ .switchingProtocols) (fuel : Nat) (bytes : List UInt8) :
    ∃ c, WSConnect.connect (some url) nonce client.stack client.held fuel (client.sock (statusLine status ++ bytes)) =
      some c ∧ c.opened = false := by
  obtain ⟨t, hsend, -, hd⟩ := sendRequest_sock url nonce client (statusLine status ++ bytes)
  obtain ⟨t', hline, -⟩ := recvStatusLine_line status client.stack.line hd
  have hcode : some (codeOf status) ≠ some .switchingProtocols := by
    cases status with
    | switchingProtocols => exact absurd rfl hstatus
    | badRequest => decide
    | notFound => decide
  refine ⟨⟨false, t'⟩, ?_, rfl⟩
  rw [WSConnect.connect, hsend]
  dsimp only
  rw [WSConnect.recvAnswer, hline]
  exact if_neg hcode

/-! ## Between them -/

/-- Once the server has answered. -/
theorem exchange_answered {url : List UInt8} {nonce : Vector UInt8 16} {client server : End} {l : Listened}
    (hl : WSListen.listen computeAccept (some url) server.stack server.held ((requestBytes nonce).length + 1)
      (server.sock (requestBytes nonce)) = some l) :
    exchange url nonce client server =
      (WSConnect.connect (some url) nonce client.stack client.held (l.sock.wire.length + 1) (client.sock l.sock.wire)).map
        fun connected => ⟨seenUrl server (server.sock (requestBytes nonce)), l, connected⟩ := by
  obtain ⟨sent, hsend, hwire, -⟩ := sendRequest_sock url nonce client []
  unfold exchange
  rw [hsend]
  dsimp only
  rw [hwire]
  simp only [hl]

/-- **An exchange**: it comes to its end, with neither of the two open. -/
theorem exchange_refused (url : List UInt8) (nonce : Vector UInt8 16) (client server : End) :
    ∃ x, exchange url nonce client server = some x ∧ x.seen = some (ascii "/") ∧ x.listened.opened = false ∧
      x.connected.opened = false := by
  obtain ⟨hseen, l, hl, hopened, hlwire⟩ :=
    @listen_refuses url nonce server ((requestBytes nonce).length + 1) (Nat.le_succ_of_le (length_requestBytes nonce))
  have hstatus : refusal url ≠ .switchingProtocols := by
    rw [refusal]
    split <;> decide
  obtain ⟨c, hc, hcopened⟩ := connect_refused url nonce client hstatus (l.sock.wire.length + 1) crlf
  refine ⟨⟨some (ascii "/"), l, c⟩, ?_, rfl, hopened, hcopened⟩
  have hclient : WSConnect.connect (some url) nonce client.stack client.held (l.sock.wire.length + 1)
      (client.sock l.sock.wire) = some c := by
    rw [hlwire] at hc ⊢
    exact hc
  rw [exchange_answered hl, hclient, hseen]
  exact Option.map_some ..

/-- **The two never come together**: whatever URL is wanted, an exchange ends with both of them closed. -/
theorem never_interoperates (url : List UInt8) (nonce : Vector UInt8 16) (client server : End) :
    (∃ x, exchange url nonce client server = some x ∧ x.listened.opened = false ∧ x.connected.opened = false) ∧
      ¬ Interoperates url nonce client server := by
  obtain ⟨x, hx, -, hlistened, hconnected⟩ := exchange_refused url nonce client server
  refine ⟨⟨x, hx, hlistened, hconnected⟩, ?_⟩
  rintro ⟨x', hx', -, hopened, -⟩
  obtain rfl := Option.some.inj (hx.symm.trans hx')
  rw [hlistened] at hopened
  cases hopened

/-- An end with zeros on its stack, and one byte there at a time. -/
def clearEnd : End := ⟨fun _ => 0, Upgrade.clearStack, fun _ => Upgrade.clearStack⟩

/-- `/chat` is wanted, and `/` is asked for. -/
theorem not_interoperates_chat : ¬ Interoperates (ascii "/chat") (Vector.replicate 16 0) clearEnd clearEnd := by
  rintro ⟨x, hx, hseen, -⟩
  obtain ⟨x', hx', hseen', -⟩ := exchange_refused (ascii "/chat") (Vector.replicate 16 0) clearEnd clearEnd
  obtain rfl := Option.some.inj (hx'.symm.trans hx)
  exact absurd (hseen'.symm.trans hseen) (by decide)

end Interop

end YieldStm32
