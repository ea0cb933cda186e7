import YieldStm32.Lib.Mask
import YieldStm32.Net.Http.FieldNames
import YieldStm32.Net.Http.KeepAlive

/-!
# Upgrade requests

What `UHTTPSrv_ReadHeaderField` and `WebSocket_Listen` make of one header.

* `readHeader`, `requestType` : a request's header read to its end, and the type it comes out with;
* `Required`, `Required.meets`, `Required.takes` : the five fields, and the two tests of their values;
* `readHeader_fields`, `recvFields_fields` : what the two loops come to on a header's lines;
* `agree_iff` : when they agree.
-/

namespace YieldStm32

namespace Upgrade

open Stdio Ring Mask
open Http (Sock Request HeaderLine headerBytes crlf recvLine recvLineLoop trimmed)

/-! ## The two readers -/

/-- The loop of `HTTPSrvWebsite_Callback` over the header. -/
def readHeader : Nat → Request → Option Request
  | 0, _ => none
  | fuel + 1, req =>
      if req.state = .readFields then
        match req.readHeaderField with
        | none => none
        | some (ec, _, req) => if ec < 0 then some req else readHeader fuel req
      else some req

/-- A request read from a connection. -/
def request (line : Nat → UInt8) (t : Sock) : Option Request :=
  match Http.recvRequest [] t line with
  | some ⟨.serving req, _⟩ => some req
  | _ => none

/-- What a request is marked as. -/
def requestType (fuel : Nat) (line : Nat → UInt8) (t : Sock) : Option Http.ReqType :=
  (request line t).bind fun req => (readHeader fuel req).map Request.type

/-- The answer is that the protocol is switched. -/
def Answers101 (r : WSListen.Listened) : Prop := WSListen.statusLine .switchingProtocols ∈ r.handed

instance (r : WSListen.Listened) : Decidable (Answers101 r) := inferInstanceAs (Decidable (_ ∈ _))

/-! ## Fields -/

/-- The fields that both want. -/
inductive Required where
  | host | secWsVersion | secWsKey | connection | upgrade
deriving DecidableEq, Repr

namespace Required

def httpSpec : Required → Http.FieldSpec
  | host => ⟨.host, .str, ascii "host"⟩
  | secWsVersion => ⟨.secWsVersion, .int, ascii "Sec-WebSocket-Version"⟩
  | secWsKey => ⟨.secWsKey, .str, ascii "Sec-WebSocket-Key"⟩
  | connection => ⟨.connection, .str, ascii "connection"⟩
  | upgrade => ⟨.upgrade, .str, ascii "Upgrade"⟩

def wsSpec : Required → WSListen.FieldSpec
  | host => ⟨.host, .str, ascii "Host"⟩
  | secWsVersion => ⟨.secWsVersion, .int, ascii "Sec-WebSocket-Version"⟩
  | secWsKey => ⟨.secWsKey, .str, ascii "Sec-WebSocket-Key"⟩
  | connection => ⟨.connection, .str, ascii "Connection"⟩
  | upgrade => ⟨.upgrade, .str, ascii "Upgrade"⟩

/-- A line that both take for one of the field. -/
def Names (r : Required) (l : HeaderLine) : Prop := startsWord r.wsSpec.str l.name

instance (r : Required) (l : HeaderLine) : Decidable (r.Names l) := inferInstanceAs (Decidable (startsWord ..))

/-- The test of `UHTTPSrv_ReadHeaderField`. -/
def meets (s : List UInt8) : Required → Prop
  | host => s ≠ []
  | secWsVersion => scanInt s = some 13
  | secWsKey => s.length = 24
  | connection => sameWord s (ascii "Upgrade")
  | upgrade => sameWord s (ascii "websocket")

instance (s : List UInt8) : ∀ r : Required, Decidable (r.meets s)
  | host => inferInstanceAs (Decidable (_ ≠ _))
  | secWsVersion => inferInstanceAs (Decidable (_ = _))
  | secWsKey => inferInstanceAs (Decidable (_ = _))
  | connection => inferInstanceAs (Decidable (sameWord ..))
  | upgrade => inferInstanceAs (Decidable (sameWord ..))

/-- The test of `WebSocket_Listen`; it looks at the first 31 bytes of a string, and at what the stack holds behind. -/
def takes (stack : WSListen.Stack) (s : List UInt8) : Required → Prop
  | host => True
  | secWsVersion => scanInt s = some 13
  | secWsKey => s.length = 24
  | connection =>
      strcistr (copyIn stack.value 0 (s.take 31 ++ [0])) (s.take 31).length (ascii "Upgrade") stack.d = true
  | upgrade => sameWord s (ascii "websocket")

instance (stack : WSListen.Stack) (s : List UInt8) : ∀ r : Required, Decidable (r.takes stack s)
  | host => isTrue trivial
  | secWsVersion => inferInstanceAs (Decidable (_ = _))
  | secWsKey => inferInstanceAs (Decidable (_ = _))
  | connection => inferInstanceAs (Decidable (_ = true))
  | upgrade => inferInstanceAs (Decidable (sameWord ..))

end Required

/-- The value as a string of C. -/
def valueOf (l : HeaderLine) : List UInt8 := cstring l.text

/-- A line that `UHTTPSrv_ReadHeaderField` takes for a length. -/
def NamesLength (l : HeaderLine) : Prop := startsWord (ascii "content-length") l.name

instance (l : HeaderLine) : Decidable (NamesLength l) := inferInstanceAs (Decidable (startsWord ..))

/-! ## The condition -/

/-- The numbers can be read, and the last length is 0. -/
structure Bodiless (fields : List HeaderLine) : Prop where
  readable : ∀ l ∈ fields, NamesLength l → (scanInt (valueOf l)).isSome = true
  zero : ∀ l ∈ (fields.filter fun l => NamesLength l).getLast?, scanInt (valueOf l) = some 0

/-- Each field has a value that `UHTTPSrv_ReadHeaderField` wants. -/
structure Met (fields : List HeaderLine) : Prop where
  some_meets : ∀ r : Required, ∃ l ∈ fields, r.Names l ∧ r.meets (valueOf l)
  versions : ∀ l ∈ fields, Required.secWsVersion.Names l → (scanInt (valueOf l)).isSome = true
  bodiless : Bodiless fields

/-- No line is refused by `WebSocket_Listen`. -/
def Taken (held : Nat → WSListen.Stack) (fields : List HeaderLine) : Prop :=
  ∀ i l, fields[i]? = some l → ∀ r : Required, r.Names l → r.takes (held i) (valueOf l)

/-- A field comes twice, with a value that is wanted and with one that is refused. -/
def Mixed (held : Nat → WSListen.Stack) (fields : List HeaderLine) : Prop := Met fields ∧ ¬ Taken held fields

/-- Each field is there and none is refused, but the hosts have no value, or `Upgrade` never stands for itself in the
connection, or there is a length that `WebSocket_Listen` knows nothing of. -/
def Loose (held : Nat → WSListen.Stack) (fields : List HeaderLine) : Prop :=
  (∀ r : Required, ∃ l ∈ fields, r.Names l) ∧ Taken held fields ∧
    ((∀ l ∈ fields, Required.host.Names l → valueOf l = []) ∨
      (∀ l ∈ fields, Required.connection.Names l → ¬ sameWord (valueOf l) (ascii "Upgrade")) ∨ ¬ Bodiless fields)

/-! ## Looking names up -/

/-- A name that is comparable with no other of a table is found where it stands. -/
theorem find?_unambiguous {α : Type*} {specs : List α} {str : α → List UInt8} {a : α} (ha : a ∈ specs)
    (hu : ∀ b ∈ specs, startsWord (str b) (str a) ∨ startsWord (str a) (str b) → b = a) (line : List UInt8) :
    specs.find? (fun l => startsWord (str l) line) = some a ↔ startsWord (str a) line := by
  constructor
  · intro h
    simpa using List.find?_some h
  · intro h
    have hsome : (specs.find? fun l => startsWord (str l) line).isSome = true :=
      List.find?_isSome.2 ⟨a, ha, by simpa using h⟩
    obtain ⟨b, hb⟩ := Option.isSome_iff_exists.1 hsome
    have hstarts : startsWord (str b) line := by simpa using List.find?_some hb
    rw [hb, hu b (List.mem_of_find?_eq_some hb) (List.prefix_or_prefix_of_prefix hstarts h)]

theorem httpSpec_mem (r : Required) : r.httpSpec ∈ Http.fieldSpecs := by
  cases r <;> decide

theorem wsSpec_mem (r : Required) : r.wsSpec ∈ WSListen.fieldSpecs := by
  cases r <;> decide

theorem http_unambiguous (r : Required) : ∀ fs ∈ Http.fieldSpecs,
    startsWord fs.str r.httpSpec.str ∨ startsWord r.httpSpec.str fs.str → fs = r.httpSpec := by
  cases r <;> decide

theorem ws_unambiguous (r : Required) : ∀ fs ∈ WSListen.fieldSpecs,
    startsWord fs.str r.wsSpec.str ∨ startsWord r.wsSpec.str fs.str → fs = r.wsSpec := by
  cases r <;> decide

theorem names_iff_http (r : Required) (l : HeaderLine) :
    r.Names l ↔ Http.findFieldSpec l.name = some r.httpSpec := by
  have hsame : r.wsSpec.str.map tolower = r.httpSpec.str.map tolower := by cases r <;> decide
  rw [Http.findFieldSpec, find?_unambiguous (httpSpec_mem r) (http_unambiguous r), Required.Names, startsWord, startsWord,
    hsame]

theorem names_iff_ws (r : Required) (l : HeaderLine) : r.Names l ↔ WSListen.findFieldSpec l.name = some r.wsSpec :=
  (find?_unambiguous (wsSpec_mem r) (ws_unambiguous r) l.name).symm

def lengthSpec : Http.FieldSpec := ⟨.contentLength, .int, ascii "content-length"⟩

theorem length_unambiguous : ∀ fs ∈ Http.fieldSpecs,
    startsWord fs.str lengthSpec.str ∨ startsWord lengthSpec.str fs.str → fs = lengthSpec := by
  decide

theorem namesLength_iff (l : HeaderLine) : NamesLength l ↔ Http.findFieldSpec l.name = some lengthSpec :=
  (find?_unambiguous (by decide) length_unambiguous l.name).symm

theorem spec_of_name (r : Required) : ∀ fs ∈ Http.fieldSpecs, fs.name = r.httpSpec.name → fs = r.httpSpec := by
  cases r <;> decide

theorem wsSpec_of_name (r : Required) : ∀ fs ∈ WSListen.fieldSpecs, fs.name = r.wsSpec.name → fs = r.wsSpec := by
  cases r <;> decide

theorem spec_int : ∀ fs ∈ Http.fieldSpecs, fs.type = .int → fs = lengthSpec ∨ fs = Required.secWsVersion.httpSpec := by
  decide

theorem wsSpec_int : ∀ fs ∈ WSListen.fieldSpecs, fs.type = .int → fs = Required.secWsVersion.wsSpec := by
  decide

/-! ## A line in `UHTTPSrv_ReadHeaderField` -/

/-- A line's text, as it is parsed. -/
def lineText (l : HeaderLine) : List UInt8 := l.name ++ 58 :: l.value.rdropWhile isspace

theorem parse_eq (l : HeaderLine) : Http.parseFieldLine (lineText l) =
    match Http.findFieldSpec l.name with
    | none => some ⟨.unknown, l.name, .str (valueOf l)⟩
    | some fs =>
        match fs.type with
        | .int => (scanInt (valueOf l)).map fun i => ⟨fs.name, l.name, .int i⟩
        | .str => some ⟨fs.name, l.name, .str (valueOf l)⟩ := Http.parseFieldLine_eq l

/-- The numbers of a line can be read. -/
def Readable (l : HeaderLine) : Prop :=
  (NamesLength l → (scanInt (valueOf l)).isSome = true) ∧
    (Required.secWsVersion.Names l → (scanInt (valueOf l)).isSome = true)

theorem parse_isSome (l : HeaderLine) : (Http.parseFieldLine (lineText l)).isSome = true ↔ Readable l := by
  rw [parse_eq, Readable, namesLength_iff, names_iff_http]
  cases hf : Http.findFieldSpec l.name with
  | none => simp
  | some fs =>
      dsimp only
      cases ht : fs.type with
      | int =>
          rw [Option.isSome_map]
          obtain rfl | rfl := spec_int fs (List.mem_of_find?_eq_some hf) ht
          · exact ⟨fun h => ⟨fun _ => h, fun _ => h⟩, fun h => h.1 rfl⟩
          · exact ⟨fun h => ⟨fun _ => h, fun _ => h⟩, fun h => h.2 rfl⟩
      | str =>
          refine iff_of_true rfl ⟨fun h => ?_, fun h => ?_⟩
          all_goals
            cases h
            cases ht

theorem parse_name {l : HeaderLine} {field : Http.Field} (h : Http.parseFieldLine (lineText l) = some field) :
    field.name = ((Http.findFieldSpec l.name).map Http.FieldSpec.name).getD .unknown :=
  FieldNames.http_parse_name (Http.name_ended l) h

/-- One of the five fields. -/
theorem take_required {r : Required} {l : HeaderLine} {field : Http.Field} (req : Request) (hr : r.Names l)
    (h : Http.parseFieldLine (lineText l) = some field) :
    (req.take field).wsFields =
      if r.meets (valueOf l) then req.wsFields ||| r.httpSpec.name.mask else req.wsFields := by
  rw [parse_eq, (names_iff_http r l).1 hr] at h
  cases r with
  | secWsVersion =>
      obtain ⟨i, hi, rfl⟩ := Option.map_eq_some_iff.1 h
      have hiff : Required.secWsVersion.meets (valueOf l) ↔ i = 13 := by
        rw [Required.meets, hi, Option.some.injEq]
      rw [if_congr hiff rfl rfl]
      exact apply_ite Request.wsFields _ _ _
  | host =>
      cases h
      exact (apply_ite Request.wsFields _ _ _).trans (if_congr (not_congr List.length_eq_zero_iff) rfl rfl)
  | secWsKey | connection | upgrade =>
      cases h
      exact apply_ite Request.wsFields _ _ _

theorem take_unrequired {field : Http.Field} (req : Request) (h : ∀ r : Required, field.name ≠ r.httpSpec.name) :
    (req.take field).wsFields = req.wsFields := by
  unfold Request.take
  split
  · rfl
  all_goals first | rfl | (rename_i hn _; first
    | exact absurd hn (h .connection) | exact absurd hn (h .upgrade) | exact absurd hn (h .secWsVersion)
    | exact absurd hn (h .host) | exact absurd hn (h .secWsKey))

/-- What a line adds to the mask. -/
theorem take_bits {l : HeaderLine} {field : Http.Field} {S : Required → Prop} (req : Request)
    (h : Http.parseFieldLine (lineText l) = some field)
    (hb : Bits req.wsFields fun k => ∃ r, S r ∧ k = r.httpSpec.name.ctorIdx) :
    Bits (req.take field).wsFields fun k =>
      ∃ r, (S r ∨ (r.Names l ∧ r.meets (valueOf l))) ∧ k = r.httpSpec.name.ctorIdx := by
  by_cases hr : ∃ r : Required, r.Names l
  · obtain ⟨r, hr⟩ := hr
    have honly : ∀ r' : Required, r'.Names l → r' = r := by
      intro r' hr'
      have heq := Option.some.inj (((names_iff_http r l).1 hr).symm.trans ((names_iff_http r' l).1 hr'))
      revert heq
      cases r <;> cases r' <;> decide
    rw [take_required req hr h]
    split
    · rename_i hmeets
      refine (hb.or (Bits.bit _)).congr fun k => ?_
      constructor
      · rintro (⟨r', hS, rfl⟩ | rfl)
        · exact ⟨r', Or.inl hS, rfl⟩
        · exact ⟨r, Or.inr ⟨hr, hmeets⟩, rfl⟩
      · rintro ⟨r', hS | ⟨hr', -⟩, rfl⟩
        · exact Or.inl ⟨r', hS, rfl⟩
        · exact Or.inr (by rw [honly r' hr'])
    · rename_i hmeets
      refine hb.congr fun k => exists_congr fun r' => and_congr_left fun _ => (or_iff_left ?_).symm
      rintro ⟨hr', hmeets'⟩
      exact hmeets (honly r' hr' ▸ hmeets')
  · have hname : ∀ r : Required, field.name ≠ r.httpSpec.name := by
      intro r hn
      rw [parse_name h] at hn
      cases hf : Http.findFieldSpec l.name with
      | none =>
          rw [hf] at hn
          cases r <;> cases hn
      | some fs =>
          rw [hf] at hn
          have hfs := spec_of_name r fs (List.mem_of_find?_eq_some hf) hn
          exact hr ⟨r, (names_iff_http r l).2 (hf.trans (congrArg some hfs))⟩
    rw [take_unrequired req hname]
    refine hb.congr fun k => exists_congr fun r => and_congr_left fun _ => (or_iff_left ?_).symm
    exact fun h => hr ⟨r, h.1⟩

/-- What a line makes of the length. -/
theorem take_bodyBleft {l : HeaderLine} {field : Http.Field} (req : Request)
    (h : Http.parseFieldLine (lineText l) = some field) :
    (req.take field).bodyBleft =
      if NamesLength l then ((scanInt (valueOf l)).getD 0).toNat else req.bodyBleft := by
  by_cases hl : NamesLength l
  · rw [parse_eq, (namesLength_iff l).1 hl] at h
    obtain ⟨i, hi, rfl⟩ := Option.map_eq_some_iff.1 h
    rw [if_pos hl, hi, Request.take_length req rfl rfl]
    rfl
  · rw [if_neg hl]
    apply Request.take_other
    intro hn
    apply hl
    rw [parse_name h] at hn
    cases hf : Http.findFieldSpec l.name with
    | none =>
        rw [hf] at hn
        cases hn
    | some fs =>
        rw [hf] at hn
        obtain ⟨hstr, -⟩ := Http.fieldSpecs_length fs (List.mem_of_find?_eq_some hf) hn
        have hstarts := List.find?_some hf
        rw [hstr] at hstarts
        simpa [NamesLength] using hstarts

/-! ## Receiving what is there -/

/-- The bytes come next, one for each receive. -/
structure Delivers (t : Sock) (bytes : List UInt8) : Prop where
  incoming : bytes <+: t.incoming
  recvs : ∀ i < bytes.length, ∃ n, t.recvs[i]? = some (.ok n)

theorem recv_delivers {t : Sock} {c : UInt8} {bytes : List UInt8} (h : Delivers t (c :: bytes)) :
    ∃ t', t.recv 1 = some (.ok [c], t') ∧ Delivers t' bytes ∧ t'.sends = t.sends := by
  obtain ⟨rest, hin⟩ := h.incoming
  obtain ⟨n, hn⟩ := h.recvs 0 (Nat.succ_pos _)
  obtain ⟨r, recvs, hrecvs⟩ : ∃ r recvs, t.recvs = r :: recvs := by
    cases hr : t.recvs with
    | nil =>
        rw [hr] at hn
        cases hn
    | cons r recvs => exact ⟨r, recvs, rfl⟩
  obtain rfl : r = .ok n := by
    rw [hrecvs] at hn
    exact Option.some.inj hn
  have hbytes : t.incoming.take (min (n + 1) 1) = [c] := by
    rw [← hin, Nat.min_eq_right (by omega)]
    rfl
  refine ⟨{ t with
      incoming := t.incoming.drop 1
      recvs := recvs
      consumed := t.consumed + 1
      uses := t.uses + 1 }, ?_, ⟨⟨rest, ?_⟩, fun i hi => ?_⟩, rfl⟩
  · unfold Sock.recv
    rw [hrecvs]
    dsimp only
    rw [hbytes, if_neg (List.cons_ne_nil _ _)]
    rfl
  · rw [← hin]
    rfl
  · have hnext := h.recvs (i + 1) (Nat.succ_lt_succ hi)
    rwa [hrecvs] at hnext

theorem recvLineLoop_delivers {L bytes : List UInt8} {t : Sock} {size fuel n : Nat} (line : Nat → UInt8)
    (hL : ∀ c ∈ L, c ≠ 10) (hd : Delivers t (L ++ 10 :: bytes)) (hsize : n + L.length < size)
    (hfuel : L.length < fuel) :
    ∃ line' t', recvLineLoop size fuel n line t = some (.ok (n + L.length), line', t') ∧ Delivers t' bytes ∧
      t'.sends = t.sends := by
  induction fuel generalizing n line t L with
  | zero => exact absurd hfuel (Nat.not_lt_zero _)
  | succ fuel ih =>
      cases L with
      | nil =>
          obtain ⟨t', hr, hd', hsends⟩ := recv_delivers hd
          refine ⟨copyIn line n [10], t', ?_, hd', hsends⟩
          rw [recvLineLoop, hr]
          dsimp only
          rw [if_pos (by rw [Http.copyIn_singleton, if_pos rfl])]
          rfl
      | cons c L =>
          obtain ⟨t1, hr, hd1, hsends1⟩ := recv_delivers hd
          rw [List.length_cons] at hsize hfuel
          obtain ⟨line', t', hloop, hd', hsends⟩ := ih (copyIn line n [c])
            (fun d hd => hL d (List.mem_cons_of_mem _ hd)) hd1 (n := n + 1) (by omega) (by omega)
          refine ⟨line', t', ?_, hd', hsends.trans hsends1⟩
          rw [recvLineLoop, hr]
          dsimp only
          rw [if_neg (by rw [Http.copyIn_singleton, if_pos rfl]; exact hL c (List.mem_cons_self ..)),
            if_neg (by omega), hloop, List.length_cons, show n + 1 + L.length = n + (L.length + 1) by omega]

/-- A line that fits is received. -/
theorem recvLine_delivers {L bytes : List UInt8} {t : Sock} {size : Nat} (line : Nat → UInt8) (hL : ∀ c ∈ L, c ≠ 10)
    (hd : Delivers t (L ++ 10 :: bytes)) (hsize : L.length < size) :
    ∃ len line' t', recvLine size line t = some (.ok len, line', t') ∧ copyOut line' 0 len = L.rdropWhile isspace ∧
      Delivers t' bytes ∧ t'.sends = t.sends := by
  obtain ⟨line', t', hloop, hd', hsends⟩ :=
    recvLineLoop_delivers (n := 0) line hL hd (by rwa [Nat.zero_add]) hsize
  have hr : recvLine size line t = some (.ok (trimmed line' (0 + L.length)),
      copyIn line' (trimmed line' (0 + L.length)) [0], t') := by
    rw [recvLine, hloop]
  obtain ⟨rest, hin⟩ := hd.incoming
  rw [List.append_assoc, List.cons_append] at hin
  obtain ⟨ec, hec, -⟩ | ⟨len, hlen, htext, -⟩ := Http.recvLine_line hL hin.symm hr
  · cases hec
  · obtain rfl := Except.ok.inj hlen
    exact ⟨_, _, t', hr, htext, hd', hsends⟩

theorem recvLine_headerLine {l : HeaderLine} {fields : List HeaderLine} {t : Sock} {size : Nat} (line : Nat → UInt8)
    (hd : Delivers t (headerBytes (l :: fields) ++ crlf)) (hsize : l.bytes.length ≤ size) :
    ∃ len line' t', recvLine size line t = some (.ok len, line', t') ∧ copyOut line' 0 len = lineText l ∧
      Delivers t' (headerBytes fields ++ crlf) ∧ t'.sends = t.sends := by
  have hbytes : headerBytes (l :: fields) ++ crlf =
      (l.name ++ 58 :: l.value ++ [13]) ++ 10 :: (headerBytes fields ++ crlf) := by
    simp [headerBytes, HeaderLine.bytes, crlf]
  have hlen : l.bytes.length = (l.name ++ 58 :: l.value ++ [13]).length + 1 := by
    simp [HeaderLine.bytes, crlf]
    omega
  rw [hbytes] at hd
  have hsize' : (l.name ++ 58 :: l.value ++ [13]).length < size := by omega
  obtain ⟨len, line', t', hr, htext, hd', hsends⟩ := recvLine_delivers line (Http.headerLine_no_lf l) hd hsize'
  rw [Http.rdropWhile_headerLine] at htext
  exact ⟨len, line', t', hr, htext, hd', hsends⟩

theorem recvLine_emptyLine {t : Sock} {size : Nat} (line : Nat → UInt8) (hd : Delivers t (headerBytes [] ++ crlf))
    (hsize : 1 < size) : ∃ line' t', recvLine size line t = some (.ok 0, line', t') ∧ t'.sends = t.sends := by
  have hL : ∀ c ∈ [(13 : UInt8)], c ≠ 10 := by
    intro c hc
    rw [List.mem_singleton.1 hc]
    decide
  obtain ⟨len, line', t', hr, htext, -, hsends⟩ := @recvLine_delivers [13] [] t size line hL hd hsize
  have hlen := Http.length_copyOut line' len
  rw [htext] at hlen
  obtain rfl : len = 0 := hlen.symm
  exact ⟨line', t', hr, hsends⟩

/-! ## The loop over the header -/

theorem lineText_ne (l : HeaderLine) : lineText l ≠ [] := by
  simp [lineText]

theorem readHeaderField_line {req : Request} {l : HeaderLine} {fields : List HeaderLine} (hs : req.state = .readFields)
    (hd : Delivers req.sock (headerBytes (l :: fields) ++ crlf)) (hshort : l.bytes.length < 257) :
    ∃ line t len, Delivers t (headerBytes fields ++ crlf) ∧ req.readHeaderField =
      match Http.parseFieldLine (lineText l) with
      | none => some (Http.efatal, none, (req.got t line len).fail)
      | some field => some (0, some field, (req.got t line len).take field) := by
  obtain ⟨len, line, t, hr, htext, hd', -⟩ :=
    @recvLine_headerLine l fields req.sock Http.maxLineLen req.line hd (Nat.le_of_lt_succ hshort)
  have hlen : len ≠ 0 := by
    rintro rfl
    exact lineText_ne l htext.symm
  refine ⟨line, t, len, hd', ?_⟩
  unfold Request.readHeaderField
  rw [Request.require_of_eq hs, if_neg (by rw [hs]; decide), hr]
  dsimp only
  rw [if_neg hlen, htext]
  rfl

theorem readHeaderField_emptyLine {req : Request} (hs : req.state = .readFields)
    (hd : Delivers req.sock (headerBytes [] ++ crlf)) :
    ∃ line t field, req.readHeaderField = some (0, some field, (req.got t line 0).headerEnd) := by
  obtain ⟨line, t, hr, -⟩ := @recvLine_emptyLine req.sock Http.maxLineLen req.line hd (by decide)
  refine ⟨line, t, ⟨.empty, [], .str []⟩, ?_⟩
  unfold Request.readHeaderField
  rw [Request.require_of_eq hs, if_neg (by rw [hs]; decide), hr]
  rfl

theorem take_same (req : Request) (field : Http.Field) :
    (req.take field).method = req.method ∧ (req.take field).type = req.type := by
  unfold Request.take
  split
  all_goals first | exact ⟨rfl, rfl⟩ | (split <;> exact ⟨rfl, rfl⟩)

/-- The length that is left behind a header. -/
def lengthAfter (n : Nat) (fields : List HeaderLine) : Nat :=
  fields.foldl (fun n l => if NamesLength l then ((scanInt (valueOf l)).getD 0).toNat else n) n

theorem lengthAfter_nil (n : Nat) : lengthAfter n [] = n := rfl

theorem lengthAfter_cons (n : Nat) (l : HeaderLine) (fields : List HeaderLine) : lengthAfter n (l :: fields) =
    lengthAfter (if NamesLength l then ((scanInt (valueOf l)).getD 0).toNat else n) fields := rfl

theorem wsFieldsReq_bits : Bits Http.wsFieldsReq fun k => ∃ r : Required, k = r.httpSpec.name.ctorIdx := by
  refine (((((Bits.bit _).or (Bits.bit _)).or (Bits.bit _)).or (Bits.bit _)).or (Bits.bit _)).congr fun k => ?_
  constructor
  · rintro ((((rfl | rfl) | rfl) | rfl) | rfl)
    exacts [⟨.host, rfl⟩, ⟨.secWsVersion, rfl⟩, ⟨.secWsKey, rfl⟩, ⟨.connection, rfl⟩, ⟨.upgrade, rfl⟩]
  · rintro ⟨r, rfl⟩
    cases r <;> simp [Required.httpSpec]

theorem httpBit_inj : ∀ r r' : Required, r.httpSpec.name.ctorIdx = r'.httpSpec.name.ctorIdx → r = r' := by
  rintro (_ | _ | _ | _ | _) (_ | _ | _ | _ | _) h
  all_goals first | rfl | exact absurd h (by decide)

theorem readHeader_fields {fields : List HeaderLine} {req : Request} {S : Required → Prop} {fuel : Nat}
    (hs : req.state = .readFields) (hm : req.method = .get) (ht : req.type = .standard)
    (hb : Bits req.wsFields fun k => ∃ r, S r ∧ k = r.httpSpec.name.ctorIdx)
    (hd : Delivers req.sock (headerBytes fields ++ crlf)) (hshort : ∀ l ∈ fields, l.bytes.length < 257)
    (hfuel : fields.length + 2 ≤ fuel) :
    ∃ req', readHeader fuel req = some req' ∧ (req'.type = .websocket ↔
      (∀ l ∈ fields, Readable l) ∧ lengthAfter req.bodyBleft fields = 0 ∧
        ∀ r, S r ∨ ∃ l ∈ fields, r.Names l ∧ r.meets (valueOf l)) := by
  induction fields generalizing req S fuel with
  | nil =>
      obtain ⟨line, t, field, hr⟩ := readHeaderField_emptyLine hs hd
      obtain ⟨fuel, rfl⟩ := Nat.exists_eq_add_of_le' hfuel
      refine ⟨(req.got t line 0).headerEnd, ?_, ?_⟩
      · have hdone : (req.got t line 0).headerEnd.state ≠ .readFields := by
          rw [Request.headerEnd]
          dsimp only
          split <;> decide
        rw [List.length_nil, Nat.zero_add, readHeader, if_pos hs, hr]
        dsimp only
        rw [if_neg (by decide), readHeader, if_neg hdone]
      · have hreq : req.wsFields = Http.wsFieldsReq ↔ ∀ r, S r := by
          rw [hb.eq_iff wsFieldsReq_bits]
          constructor
          · intro h r
            obtain ⟨r', hS, hr'⟩ := (h _).2 ⟨r, rfl⟩
            rwa [httpBit_inj r r' hr']
          · exact fun h k => exists_congr fun r => and_iff_right (h r)
        have htype : (req.got t line 0).headerEnd.type = .websocket ↔
            req.method = .get ∧ req.bodyBleft = 0 ∧ req.wsFields = Http.wsFieldsReq := by
          show (if req.method = .get ∧ req.bodyBleft = 0 ∧ req.wsFields = Http.wsFieldsReq then Http.ReqType.websocket
            else .standard) = .websocket ↔ _
          split <;> simp_all
        rw [htype, hreq]
        simp [hm, lengthAfter_nil]
  | cons l fields ih =>
      obtain ⟨fuel, rfl⟩ := Nat.exists_eq_succ_of_ne_zero (show fuel ≠ 0 by omega)
      obtain ⟨line, t, len, hd', hr⟩ := readHeaderField_line hs hd (hshort l (List.mem_cons_self ..))
      have hread := parse_isSome l
      rw [readHeader, if_pos hs, hr]
      cases hp : Http.parseFieldLine (lineText l) with
      | none =>
          rw [hp] at hread
          refine ⟨(req.got t line len).fail, if_pos (by decide), ?_⟩
          have htype : (req.got t line len).fail.type = .standard := ht
          rw [htype]
          refine iff_of_false (by decide) fun h => ?_
          exact absurd (hread.2 (h.1 l (List.mem_cons_self ..))) (by decide)
      | some field =>
          rw [hp] at hread
          dsimp only
          rw [if_neg (by decide)]
          obtain ⟨-, hstate, -, hsock, -⟩ := Request.take_keeps (req.got t line len) field
          obtain ⟨hmethod, htype⟩ := take_same (req.got t line len) field
          have hfuel' : fields.length + 2 ≤ fuel := by
            rw [List.length_cons] at hfuel
            omega
          obtain ⟨req', hreq', hiff⟩ := ih (hstate.trans hs) (hmethod.trans hm) (htype.trans ht)
            (take_bits (req.got t line len) hp hb) (hsock ▸ hd') (fun l hl => hshort l (List.mem_cons_of_mem _ hl)) hfuel'
          refine ⟨req', hreq', hiff.trans ?_⟩
          rw [take_bodyBleft (req.got t line len) hp, List.forall_mem_cons, iff_true_intro (hread.1 rfl), true_and]
          refine and_congr_right fun _ => and_congr_right fun _ => forall_congr' fun r => ?_
          rw [or_assoc, List.exists_mem_cons_iff]

/-! ## A line in `WebSocket_Listen` -/

open WSListen (Stack Listening takeField recvFields)

theorem wsParse_eq (l : HeaderLine) : WSListen.parseFieldLine (lineText l) =
    match WSListen.findFieldSpec l.name with
    | none => some ⟨.unknown, .str ((valueOf l).take (min 32 l.text.length - 1))⟩
    | some fs =>
        match fs.type with
        | .int => (scanInt (valueOf l)).map fun i => ⟨fs.name, .int i⟩
        | .str => some ⟨fs.name, .str ((valueOf l).take 31)⟩ := FieldNames.ws_parse (Http.name_ended l)

theorem wsParse_name {l : HeaderLine} {field : WSListen.Field} (h : WSListen.parseFieldLine (lineText l) = some field) :
    field.name = ((WSListen.findFieldSpec l.name).map WSListen.FieldSpec.name).getD .unknown :=
  FieldNames.ws_parse_name (Http.name_ended l) h

theorem wsName_iff {l : HeaderLine} {field : WSListen.Field} (h : WSListen.parseFieldLine (lineText l) = some field)
    (r : Required) : field.name = r.wsSpec.name ↔ r.Names l := by
  rw [wsParse_name h, names_iff_ws]
  cases hf : WSListen.findFieldSpec l.name with
  | none => cases r <;> simp [Required.wsSpec]
  | some fs =>
      constructor
      · exact fun hn => congrArg some (wsSpec_of_name r fs (List.mem_of_find?_eq_some hf) hn)
      · intro hn
        cases hn
        rfl

theorem wsName_ne_empty {l : HeaderLine} {field : WSListen.Field}
    (h : WSListen.parseFieldLine (lineText l) = some field) : field.name ≠ .empty := by
  have hspecs : ∀ fs ∈ WSListen.fieldSpecs, fs.name ≠ .empty := by decide
  rw [wsParse_name h]
  cases hf : WSListen.findFieldSpec l.name with
  | none => decide
  | some fs => exact hspecs fs (List.mem_of_find?_eq_some hf)

theorem length_take_iff (s : List UInt8) : (s.take 31).length = 24 ↔ s.length = 24 := by
  rw [List.length_take]
  omega

theorem sameWord_take_iff {s w : List UInt8} (hw : w.length < 31) : sameWord (s.take 31) w ↔ sameWord s w := by
  by_cases hs : s.length ≤ 31
  · rw [List.take_of_length_le hs]
  · have hlen : ∀ {a : List UInt8}, sameWord a w → a.length = w.length := by
      intro a ha
      simpa using congrArg List.length ha
    refine iff_of_false (fun h => ?_) fun h => ?_
    · have := hlen h
      rw [List.length_take] at this
      omega
    · have := hlen h
      omega

/-- What is made of a line; nothing where it is refused. -/
def takeLine (stack : Stack) (l : HeaderLine) (x : Listening) : Option Listening :=
  (WSListen.parseFieldLine (lineText l)).bind fun field => takeField stack field x

theorem takeField_other {stack : Stack} {field : WSListen.Field} (x : Listening)
    (h : ∀ r : Required, field.name ≠ r.wsSpec.name) : (takeField stack field x).isSome = true := by
  unfold takeField
  dsimp only
  split
  · rename_i hn _
    exact absurd hn (h .connection)
  · rename_i hn _
    exact absurd hn (h .upgrade)
  · rename_i hn _
    exact absurd hn (h .secWsVersion)
  · rename_i hn _
    exact absurd hn (h .secWsKey)
  · rfl

theorem takeLine_isSome (stack : Stack) (l : HeaderLine) (x : Listening) :
    (takeLine stack l x).isSome = true ↔ ∀ r : Required, r.Names l → r.takes stack (valueOf l) := by
  by_cases hr : ∃ r : Required, r.Names l
  · obtain ⟨r, hr⟩ := hr
    have honly : (∀ r' : Required, r'.Names l → r'.takes stack (valueOf l)) ↔ r.takes stack (valueOf l) := by
      refine ⟨fun h => h r hr, fun h r' hr' => ?_⟩
      have heq := Option.some.inj (((names_iff_ws r l).1 hr).symm.trans ((names_iff_ws r' l).1 hr'))
      have : r' = r := by
        revert heq
        cases r <;> cases r' <;> decide
      rwa [this]
    rw [honly, takeLine, wsParse_eq, (names_iff_ws r l).1 hr]
    cases r with
    | host => exact iff_of_true rfl trivial
    | secWsVersion =>
        show Option.isSome (((scanInt (valueOf l)).map _).bind _) = true ↔ scanInt (valueOf l) = some 13
        cases scanInt (valueOf l) with
        | none => simp
        | some i =>
            rw [Option.some.injEq]
            show (if i = 13 then some _ else none).isSome = true ↔ i = 13
            split <;> simp_all
    | secWsKey =>
        refine Iff.trans ?_ (length_take_iff (valueOf l))
        show (if ((valueOf l).take 31).length = 24 then some _ else none).isSome = true ↔ _
        split <;> simp_all
    | connection =>
        show (if strcistr _ _ _ _ = true then some _ else none).isSome = true ↔ strcistr _ _ _ _ = true
        split <;> simp_all
    | upgrade =>
        refine Iff.trans ?_ (sameWord_take_iff (s := valueOf l) (w := ascii "websocket") (by decide))
        show (if sameWord ((valueOf l).take 31) (ascii "websocket") then some _ else none).isSome = true ↔ _
        split <;> simp_all
  · refine iff_of_true ?_ fun r h => absurd ⟨r, h⟩ hr
    obtain ⟨field, hp⟩ : ∃ field, WSListen.parseFieldLine (lineText l) = some field := by
      rw [wsParse_eq]
      cases hf : WSListen.findFieldSpec l.name with
      | none => exact ⟨_, rfl⟩
      | some fs =>
          cases ht : fs.type with
          | int =>
              have hfs := wsSpec_int fs (List.mem_of_find?_eq_some hf) ht
              exact absurd ⟨_, (names_iff_ws .secWsVersion l).2 (hf.trans (congrArg some hfs))⟩ hr
          | str => exact ⟨⟨fs.name, .str ((valueOf l).take 31)⟩, by dsimp only; rw [ht]⟩
    rw [takeLine, hp]
    exact takeField_other x fun r hn => hr ⟨r, (wsName_iff hp r).1 hn⟩

theorem takeField_mask {stack : Stack} {field : WSListen.Field} {x x' : Listening} (h : takeField stack field x = some x') :
    x'.fieldMask = x.fieldMask ||| field.name.mask := by
  unfold takeField at h
  dsimp only at h
  split at h
  case h_5 =>
    cases h
    rfl
  all_goals
    split at h
    · cases h
      rfl
    · cases h

theorem wsBit_iff (name : WSListen.FieldName) (r : Required) :
    name.mask.testBit (r.wsSpec.name.ctorIdx + 1) = true ↔ name = r.wsSpec.name := by
  cases name <;> cases r <;> decide

theorem takeLine_mask {stack : Stack} {l : HeaderLine} {x x' : Listening} (h : takeLine stack l x = some x')
    (r : Required) : x'.fieldMask.testBit (r.wsSpec.name.ctorIdx + 1) = true ↔
      x.fieldMask.testBit (r.wsSpec.name.ctorIdx + 1) = true ∨ r.Names l := by
  obtain ⟨field, hp, htake⟩ := Option.bind_eq_some_iff.1 h
  rw [takeField_mask htake, Nat.testBit_or, Bool.or_eq_true, wsBit_iff, wsName_iff hp]

/-! ## The loop over the fields -/

theorem fieldReqMask_bits : Bits WSListen.fieldReqMask fun k => ∃ r : Required, k = r.wsSpec.name.ctorIdx + 1 := by
  refine (((((Bits.bit _).or (Bits.bit _)).or (Bits.bit _)).or (Bits.bit _)).or (Bits.bit _)).congr fun k => ?_
  constructor
  · rintro ((((rfl | rfl) | rfl) | rfl) | rfl)
    exacts [⟨.host, rfl⟩, ⟨.secWsVersion, rfl⟩, ⟨.secWsKey, rfl⟩, ⟨.connection, rfl⟩, ⟨.upgrade, rfl⟩]
  · rintro ⟨r, rfl⟩
    cases r <;> simp [Required.wsSpec]

theorem fieldReqMask_iff (m : Nat) : m &&& WSListen.fieldReqMask = WSListen.fieldReqMask ↔
    ∀ r : Required, m.testBit (r.wsSpec.name.ctorIdx + 1) = true := by
  have hm : Bits m fun k => m.testBit k = true := fun _ => Iff.rfl
  rw [hm.covers_iff fieldReqMask_bits]
  exact ⟨fun h r => h _ ⟨r, rfl⟩, fun h k ⟨r, hk⟩ => hk ▸ h r⟩

/-- The lines from the `i`-th on are taken. -/
def TakenFrom (held : Nat → Stack) (i : Nat) (fields : List HeaderLine) : Prop :=
  ∀ j l, fields[j]? = some l → ∀ r : Required, r.Names l → r.takes (held (i + j)) (valueOf l)

theorem takenFrom_cons (held : Nat → Stack) (i : Nat) (l : HeaderLine) (fields : List HeaderLine) :
    TakenFrom held i (l :: fields) ↔
      (∀ r : Required, r.Names l → r.takes (held i) (valueOf l)) ∧ TakenFrom held (i + 1) fields := by
  constructor
  · intro h
    refine ⟨h 0 l rfl, fun j l' hl' => ?_⟩
    rw [Nat.add_assoc, Nat.add_comm 1 j]
    exact h (j + 1) l' hl'
  · rintro ⟨hhead, htail⟩ j l' hl'
    cases j with
    | zero =>
        cases hl'
        exact hhead
    | succ j =>
        have := htail j l' hl'
        rwa [Nat.add_assoc, Nat.add_comm 1 j] at this

theorem recvFields_line {held : Nat → Stack} {i fuel : Nat} {x : Listening} {t : Sock} {l : HeaderLine}
    {fields : List HeaderLine} (hd : Delivers t (headerBytes (l :: fields) ++ crlf)) (hshort : l.bytes.length < 257) :
    ∃ t', Delivers t' (headerBytes fields ++ crlf) ∧ t'.sends = t.sends ∧ recvFields held (fuel + 1) i x t =
      match takeLine (held i) l x with
      | none => some (none, t')
      | some x' => recvFields held fuel (i + 1) x' t' := by
  obtain ⟨len, line, t', hr, htext, hd', hsends⟩ :=
    @recvLine_headerLine l fields t WSListen.lineSize (held i).line hd (Nat.le_of_lt hshort)
  refine ⟨t', hd', hsends, ?_⟩
  rw [WSListen.recvFields_succ, WSListen.recvFieldLine, hr, takeLine]
  dsimp only
  rw [htext]
  cases hp : WSListen.parseFieldLine (lineText l) with
  | none => rfl
  | some field =>
      dsimp only
      rw [if_neg (wsName_ne_empty hp)]
      rfl

/-- **The fields of a header**: the loop accepts them if no line is refused, and has then seen what there is. -/
theorem recvFields_fields {held : Nat → Stack} {fields : List HeaderLine} {i fuel : Nat} {x : Listening} {t : Sock}
    (hd : Delivers t (headerBytes fields ++ crlf)) (hshort : ∀ l ∈ fields, l.bytes.length < 257)
    (hfuel : fields.length + 1 ≤ fuel) :
    ∃ o t', recvFields held fuel i x t = some (o, t') ∧ t'.sends = t.sends ∧
      (o.isSome = true ↔ TakenFrom held i fields) ∧
      ∀ x' ∈ o, ∀ r : Required, x'.fieldMask.testBit (r.wsSpec.name.ctorIdx + 1) = true ↔
        x.fieldMask.testBit (r.wsSpec.name.ctorIdx + 1) = true ∨ ∃ l ∈ fields, r.Names l := by
  induction fields generalizing i fuel x t with
  | nil =>
      obtain ⟨fuel, rfl⟩ := Nat.exists_eq_add_of_le' hfuel
      obtain ⟨line, t', hr, hsends⟩ := @recvLine_emptyLine t WSListen.lineSize (held i).line hd (by decide)
      refine ⟨some x, t', ?_, hsends, iff_of_true rfl (fun j l hl => by cases hl), ?_⟩
      · rw [List.length_nil, Nat.zero_add, WSListen.recvFields_succ, WSListen.recvFieldLine, hr]
        rfl
      · rintro x' ⟨⟩ r
        simp
  | cons l fields ih =>
      obtain ⟨fuel, rfl⟩ := Nat.exists_eq_succ_of_ne_zero (show fuel ≠ 0 by omega)
      obtain ⟨t1, hd1, hsends1, heq⟩ := @recvFields_line held i fuel x t l fields hd
        (hshort l (List.mem_cons_self ..))
      have hsome := takeLine_isSome (held i) l x
      rw [heq, takenFrom_cons]
      cases ho : takeLine (held i) l x with
      | none =>
          rw [ho] at hsome
          refine ⟨none, t1, rfl, hsends1, ?_, fun x' hx' => by cases hx'⟩
          exact iff_of_false (by decide) fun h => absurd (hsome.2 h.1) (by decide)
      | some x1 =>
          rw [ho] at hsome
          obtain ⟨o, t', hrun, hsends, hiff, hmask⟩ := @ih (i + 1) fuel x1 t1 hd1
            (fun l hl => hshort l (List.mem_cons_of_mem _ hl)) (Nat.le_of_succ_le_succ hfuel)
          refine ⟨o, t', hrun, hsends.trans hsends1, ?_, fun x' hx' r => ?_⟩
          · rw [hiff, and_iff_right (hsome.1 rfl)]
          · rw [hmask x' hx' r, takeLine_mask ho r, List.exists_mem_cons_iff, or_assoc]

theorem recvFieldLine_keeps {stack : Stack} {t t' : Sock} {o : Option WSListen.Field}
    (h : WSListen.recvFieldLine stack t = some (o, t')) : t.SameSending t' := by
  unfold WSListen.recvFieldLine at h
  split at h
  · cases h
  · rename_i hline
    cases h
    exact Http.recvLine_keeps hline
  · rename_i hline
    cases h
    exact Http.recvLine_keeps hline

/-- While the header is read nothing is sent. -/
theorem recvFields_keeps {held : Nat → Stack} {fuel i : Nat} {x : Listening} {t t' : Sock} {o : Option Listening}
    (h : recvFields held fuel i x t = some (o, t')) : t.SameSending t' := by
  induction fuel generalizing i x t with
  | zero => cases h
  | succ fuel ih =>
      rw [WSListen.recvFields_succ] at h
      split at h
      · cases h
      · rename_i hline
        cases h
        exact recvFieldLine_keeps hline
      · rename_i field t1 hline
        have hk := recvFieldLine_keeps hline
        split at h
        · cases h
          exact hk
        · split at h
          · cases h
            exact hk
          · exact hk.trans (ih h)

/-! ## The reply -/

theorem send_total {t : Sock} (bytes : List UInt8) (h : t.sends ≠ []) :
    ∃ r t', t.send bytes = some (r, t') ∧ t'.sends = t.sends.tail := by
  cases hs : t.sends with
  | nil => exact absurd hs h
  | cons s sends =>
      rw [Sock.send, hs]
      cases s with
      | ok short => exact ⟨_, _, rfl, rfl⟩
      | error ec n => exact ⟨_, _, rfl, rfl⟩

/-- Texts are handed over from the first on, and all of them where nothing stops at a failure. -/
theorem handOver_total {all : Bool} {texts : List (List UInt8)} {t : Sock} (h : texts.length ≤ t.sends.length) :
    ∃ r, WSListen.handOver all texts t = some r ∧ r.1 <+: texts ∧ (all = true → r.1 = texts) := by
  induction texts generalizing t with
  | nil => exact ⟨([], true, t), rfl, List.prefix_refl _, fun _ => rfl⟩
  | cons text texts ih =>
      have hne : t.sends ≠ [] := by
        rintro hnil
        rw [hnil] at h
        exact absurd h (Nat.not_succ_le_zero _)
      obtain ⟨r, t', hsend, hsends⟩ := send_total text hne
      have hlen : texts.length ≤ t'.sends.length := by
        rw [hsends, List.length_tail]
        exact Nat.le_sub_one_of_lt h
      obtain ⟨rest, hrest, hpre, hall⟩ := ih hlen
      rw [WSListen.handOver, hsend]
      cases r with
      | ok n =>
          refine ⟨(text :: rest.1, rest.2.1, rest.2.2), ?_, List.cons_prefix_cons.2 ⟨rfl, hpre⟩, ?_⟩
          · dsimp only
            rw [hrest]
            rfl
          · exact fun h => congrArg (text :: ·) (hall h)
      | error ec =>
          cases all with
          | true =>
              refine ⟨(text :: rest.1, false, rest.2.2), ?_, List.cons_prefix_cons.2 ⟨rfl, hpre⟩, ?_⟩
              · dsimp only
                rw [if_pos rfl, hrest]
                rfl
              · exact fun h => congrArg (text :: ·) (hall h)
          | false =>
              refine ⟨([text], false, t'), rfl, List.cons_prefix_cons.2 ⟨rfl, List.nil_prefix⟩, ?_⟩
              intro h
              cases h

theorem reply_answers {t : Sock} (accept : List UInt8) (h : 5 ≤ t.sends.length) :
    ∃ r, WSListen.reply accept t = some r ∧ Answers101 r := by
  obtain ⟨r, hr, -, hall⟩ := @handOver_total true
    [WSListen.statusLine .switchingProtocols, WSListen.fieldLine (ascii "Upgrade") (ascii "websocket"),
      WSListen.fieldLine (ascii "Connection") (ascii "Upgrade"),
      WSListen.fieldLine (ascii "Sec-WebSocket-Accept") accept, crlf] t h
  refine ⟨⟨r.2.1, r.1, r.2.2⟩, ?_, ?_⟩
  · rw [WSListen.reply, hr]
    rfl
  · show _ ∈ r.1
    rw [hall rfl]
    exact List.mem_cons_self ..

theorem refuse_answers {t : Sock} (h : 5 ≤ t.sends.length) :
    ∃ r, WSListen.refuse .badRequest t = some r ∧ ¬ Answers101 r := by
  obtain ⟨r, hr, hpre, -⟩ := @handOver_total false [WSListen.statusLine .badRequest, crlf] t
    (Nat.le_trans (by decide) h)
  refine ⟨⟨false, r.1, r.2.2⟩, ?_, fun hmem => ?_⟩
  · rw [WSListen.refuse, hr]
    rfl
  · exact absurd (hpre.subset hmem) (by decide)

/-! ## The verdicts -/

theorem lengthAfter_eq (n : Nat) (fields : List HeaderLine) : lengthAfter n fields =
    ((fields.filter fun l => NamesLength l).getLast?.map fun l => ((scanInt (valueOf l)).getD 0).toNat).getD n := by
  induction fields generalizing n with
  | nil => rfl
  | cons l fields ih =>
      rw [lengthAfter_cons, ih]
      by_cases hl : NamesLength l
      · rw [if_pos hl, List.filter_cons_of_pos (by simpa using hl), List.getLast?_cons]
        cases (fields.filter fun l => NamesLength l).getLast? <;> rfl
      · rw [if_neg hl, List.filter_cons_of_neg (by simpa using hl)]

theorem lengthAfter_zero {fields : List HeaderLine} (h : ∀ l ∈ fields, NamesLength l → (scanInt (valueOf l)).isSome = true) :
    lengthAfter 0 fields = 0 ↔ ∀ l ∈ (fields.filter fun l => NamesLength l).getLast?, scanInt (valueOf l) = some 0 := by
  rw [lengthAfter_eq]
  cases hlast : (fields.filter fun l => NamesLength l).getLast? with
  | none => simp
  | some l =>
      obtain ⟨hl, hnames⟩ := List.mem_filter.1 (List.mem_of_getLast? hlast)
      obtain ⟨i, hi⟩ := Option.isSome_iff_exists.1 (h l hl (by simpa using hnames))
      simp only [Option.map_some, Option.getD_some, Option.mem_def, Option.some.injEq, forall_eq', hi]
      exact BitVec.toNat_inj (x := i) (y := 0)

theorem met_iff (fields : List HeaderLine) : Met fields ↔
    (∀ l ∈ fields, Readable l) ∧ lengthAfter 0 fields = 0 ∧
      ∀ r : Required, False ∨ ∃ l ∈ fields, r.Names l ∧ r.meets (valueOf l) := by
  constructor
  · rintro ⟨hmeets, hversions, hreadable, hzero⟩
    exact ⟨fun l hl => ⟨hreadable l hl, hversions l hl⟩, (lengthAfter_zero hreadable).2 hzero, fun r => Or.inr (hmeets r)⟩
  · rintro ⟨hreadable, hlength, hmeets⟩
    have hlengths := fun l hl => (hreadable l hl).1
    exact ⟨fun r => (hmeets r).resolve_left id, fun l hl => (hreadable l hl).2, hlengths,
      (lengthAfter_zero hlengths).1 hlength⟩

/-- Where no line is refused, only the hosts, the connection and a length can make a difference. -/
theorem met_iff_of_taken {held : Nat → Stack} {fields : List HeaderLine} (hp : ∀ r : Required, ∃ l ∈ fields, r.Names l)
    (ht : Taken held fields) : Met fields ↔
      ¬ ((∀ l ∈ fields, Required.host.Names l → valueOf l = []) ∨
        (∀ l ∈ fields, Required.connection.Names l → ¬ sameWord (valueOf l) (ascii "Upgrade")) ∨ ¬ Bodiless fields) := by
  have htakes : ∀ l ∈ fields, ∀ r : Required, r.Names l → ∃ stack, r.takes stack (valueOf l) := by
    intro l hl r hr
    obtain ⟨i, hi⟩ := List.mem_iff_getElem?.1 hl
    exact ⟨held i, ht i l hi r hr⟩
  constructor
  · rintro ⟨hmeets, -, hb⟩ (hhost | hconn | hbody)
    · obtain ⟨l, hl, hr, hm⟩ := hmeets .host
      exact hm (hhost l hl hr)
    · obtain ⟨l, hl, hr, hm⟩ := hmeets .connection
      exact hconn l hl hr hm
    · exact hbody hb
  · intro h
    push Not at h
    obtain ⟨⟨host, hhost, hhostN, hhostM⟩, ⟨conn, hconn, hconnN, hconnM⟩, hb⟩ := h
    refine ⟨fun r => ?_, fun l hl hr => ?_, hb⟩
    · obtain ⟨l, hl, hr⟩ := hp r
      obtain ⟨stack, htake⟩ := htakes l hl r hr
      cases r with
      | host => exact ⟨host, hhost, hhostN, hhostM⟩
      | connection => exact ⟨conn, hconn, hconnN, hconnM⟩
      | secWsVersion | secWsKey | upgrade => exact ⟨l, hl, hr, htake⟩
    · obtain ⟨stack, htake⟩ := htakes l hl .secWsVersion hr
      rw [show scanInt (valueOf l) = some 13 from htake]
      rfl

/-! ## The request line -/

theorem recvLine_start {start bytes : List UInt8} {t : Sock} {size : Nat} (line : Nat → UInt8) (hstart : ∀ c ∈ start, c ≠ 10)
    (hd : Delivers t (start ++ crlf ++ bytes)) (hsize : (start ++ crlf).length ≤ size) :
    ∃ len line' t', recvLine size line t = some (.ok len, line', t') ∧
      copyOut line' 0 len = start.rdropWhile isspace ∧ Delivers t' bytes ∧ t'.sends = t.sends := by
  have hL : ∀ c ∈ start ++ [13], c ≠ 10 := by
    intro c hc
    rcases List.mem_append.1 hc with hc | hc
    · exact hstart c hc
    · rw [List.mem_singleton.1 hc]
      decide
  have hbytes : start ++ crlf ++ bytes = (start ++ [13]) ++ 10 :: bytes := by simp [crlf]
  have hlen : (start ++ [13]).length < size := by
    simp [crlf] at hsize ⊢
    omega
  rw [hbytes] at hd
  obtain ⟨len, line', t', hr, htext, hd', hsends⟩ := recvLine_delivers line hL hd hlen
  rw [List.rdropWhile_concat_pos _ _ _ (by decide)] at htext
  exact ⟨len, line', t', hr, htext, hd', hsends⟩

/-- **The HTTP daemon**: a request is marked where each field has a value that is wanted. -/
theorem requestType_fields {start url : List UInt8} {fields : List HeaderLine} {t : Sock} {fuel : Nat}
    (line : Nat → UInt8) (hstart : ∀ c ∈ start, c ≠ 10) (hlen : (start ++ crlf).length < 257)
    (hget : Http.parseRequestLine (start.rdropWhile isspace) = some (.get, url))
    (hshort : ∀ l ∈ fields, l.bytes.length < 257)
    (hd : Delivers t (start ++ crlf ++ (headerBytes fields ++ crlf))) (hfuel : fields.length + 2 ≤ fuel) :
    ∃ type, requestType fuel line t = some type ∧ (type = .websocket ↔ Met fields) := by
  obtain ⟨len, line', t', hr, htext, hd', -⟩ :=
    @recvLine_start start _ t Http.maxLineLen line hstart hd (Nat.le_of_lt_succ hlen)
  have hreq : request line t = some (Request.fresh t' .get line' len url) := by
    rw [request, Http.recvRequest, hr]
    dsimp only
    rw [htext, hget]
  have hbits : Bits (Request.fresh t' .get line' len url).wsFields
      fun k => ∃ r : Required, False ∧ k = r.httpSpec.name.ctorIdx :=
    Bits.zero.congr fun k => by simp
  obtain ⟨req', hread, hiff⟩ := @readHeader_fields fields (Request.fresh t' .get line' len url) (fun _ => False) fuel
    rfl rfl rfl hbits hd' hshort hfuel
  refine ⟨req'.type, ?_, hiff.trans (met_iff fields).symm⟩
  exact Option.bind_eq_some_iff.2 ⟨_, hreq, congrArg (Option.map Request.type) hread⟩

/-- A request in `WebSocket_Listen`: where the URL is the wanted one, its fields decide. -/
theorem listen_cases {start reqUrl : List UInt8} {fields : List HeaderLine} {t : Sock} {fuel : Nat}
    {accept : List UInt8 → List UInt8} {url : Option (List UInt8)} {stack : Stack} {held : Nat → Stack}
    (hstart : ∀ c ∈ start, c ≠ 10) (hlen : (start ++ crlf).length < 257)
    (hparse : WSListen.parseRequestLine (start.rdropWhile isspace) = some reqUrl)
    (hshort : ∀ l ∈ fields, l.bytes.length < 257)
    (hd : Delivers t (start ++ crlf ++ (headerBytes fields ++ crlf))) (hfuel : fields.length + 1 ≤ fuel) :
    if url.all (· = reqUrl) = true then
      ∃ (o : Option Listening) (t' : Sock), t.SameSending t' ∧ (o.isSome = true ↔ Taken held fields) ∧
        (∀ x ∈ o, (x.fieldMask &&& WSListen.fieldReqMask = WSListen.fieldReqMask ↔
          ∀ r : Required, ∃ l ∈ fields, r.Names l)) ∧
        WSListen.listen accept url stack held fuel t = o.elim (WSListen.refuse .badRequest t') fun x =>
          if x.fieldMask &&& WSListen.fieldReqMask = WSListen.fieldReqMask then WSListen.reply (accept x.key) t'
          else WSListen.refuse .badRequest t'
    else ∃ t', t.SameSending t' ∧ WSListen.listen accept url stack held fuel t = WSListen.refuse .notFound t' := by
  obtain ⟨len, line', t1, hr, htext, hd1, -⟩ :=
    @recvLine_start start _ t (WSListen.lineSize - 1) stack.line hstart hd (Nat.le_of_lt_succ hlen)
  have hkeeps := Http.recvLine_keeps hr
  split
  · rename_i hurl
    obtain ⟨o, t2, hrun, -, hiff, hmask⟩ := @recvFields_fields held fields 0 fuel {} t1 hd1 hshort hfuel
    have htaken : TakenFrom held 0 fields ↔ Taken held fields := by
      simp only [TakenFrom, Taken, Nat.zero_add]
    refine ⟨o, t2, hkeeps.trans (recvFields_keeps hrun), hiff.trans htaken, fun x hx => ?_, ?_⟩
    · rw [fieldReqMask_iff]
      refine forall_congr' fun r => (hmask x hx r).trans (or_iff_right ?_)
      rw [Nat.zero_testBit]
      decide
    · rw [WSListen.listen, hr]
      dsimp only
      rw [htext, hparse]
      dsimp only
      rw [if_pos hurl, hrun]
      cases o <;> rfl
  · rename_i hurl
    refine ⟨t1, hkeeps, ?_⟩
    rw [WSListen.listen, hr]
    dsimp only
    rw [htext, hparse]
    exact if_neg hurl

/-- **`WebSocket_Listen`**: the protocol is switched where each field is there and none is refused. -/
theorem listen_fields {start : List UInt8} {fields : List HeaderLine} {t : Sock} {fuel : Nat}
    {accept : List UInt8 → List UInt8} {url : Option (List UInt8)} {stack : Stack} {held : Nat → Stack}
    (hstart : ∀ c ∈ start, c ≠ 10) (hlen : (start ++ crlf).length < 257)
    (hget : ∃ reqUrl, WSListen.parseRequestLine (start.rdropWhile isspace) = some reqUrl ∧ url.all (· = reqUrl) = true)
    (hshort : ∀ l ∈ fields, l.bytes.length < 257)
    (hd : Delivers t (start ++ crlf ++ (headerBytes fields ++ crlf))) (hsends : 5 ≤ t.sends.length)
    (hfuel : fields.length + 1 ≤ fuel) :
    ∃ r, WSListen.listen accept url stack held fuel t = some r ∧
      (Answers101 r ↔ (∀ r : Required, ∃ l ∈ fields, r.Names l) ∧ Taken held fields) := by
  obtain ⟨reqUrl, hparse, hurl⟩ := hget
  have hcases := @listen_cases start reqUrl fields t fuel accept url stack held hstart hlen hparse hshort hd hfuel
  rw [if_pos hurl] at hcases
  obtain ⟨o, t', ⟨-, hsame, -⟩, htaken, hall, heq⟩ := hcases
  have hleft : 5 ≤ t'.sends.length := by rwa [hsame]
  rw [heq]
  cases o with
  | none =>
      obtain ⟨r, hrefuse, hanswer⟩ := refuse_answers hleft
      refine ⟨r, hrefuse, iff_of_false hanswer fun h => ?_⟩
      exact absurd (htaken.2 h.2) (by decide)
  | some x =>
      rw [Option.elim_some]
      split
      · rename_i h
        obtain ⟨r, hreply, hanswer⟩ := reply_answers (accept x.key) hleft
        exact ⟨r, hreply, iff_of_true hanswer ⟨(hall x rfl).1 h, htaken.1 rfl⟩⟩
      · rename_i h
        obtain ⟨r, hrefuse, hanswer⟩ := refuse_answers hleft
        exact ⟨r, hrefuse, iff_of_false hanswer fun h' => h ((hall x rfl).2 h'.1)⟩

/-- **Two readers of one request**: the one marks it as a websocket's if and only if the other switches the protocol, unless
a field comes twice with a good value and a bad one, or what the second takes the first wants to be more. -/
theorem agree_iff {start url : List UInt8} {fields : List HeaderLine} {t t' : Sock} {fuel : Nat}
    {accept : List UInt8 → List UInt8} {wanted : Option (List UInt8)} {stack : Stack} {held : Nat → Stack}
    (line : Nat → UInt8) (hstart : ∀ c ∈ start, c ≠ 10) (hlen : (start ++ crlf).length < 257)
    (hget : Http.parseRequestLine (start.rdropWhile isspace) = some (.get, url))
    (hwanted : ∃ reqUrl, WSListen.parseRequestLine (start.rdropWhile isspace) = some reqUrl ∧
      wanted.all (· = reqUrl) = true)
    (hshort : ∀ l ∈ fields, l.bytes.length < 257)
    (hd : Delivers t (start ++ crlf ++ (headerBytes fields ++ crlf)))
    (hd' : Delivers t' (start ++ crlf ++ (headerBytes fields ++ crlf))) (hsends : 5 ≤ t'.sends.length)
    (hfuel : fields.length + 2 ≤ fuel) :
    ∃ type r, requestType fuel line t = some type ∧ WSListen.listen accept wanted stack held fuel t' = some r ∧
      ((type = .websocket ↔ Answers101 r) ↔ ¬ Mixed held fields ∧ ¬ Loose held fields) := by
  obtain ⟨type, htype, hmet⟩ := requestType_fields line hstart hlen hget hshort hd hfuel
  obtain ⟨r, hr, hanswer⟩ :=
    @listen_fields start fields t' fuel accept wanted stack held hstart hlen hwanted hshort hd' hsends
      (Nat.le_of_succ_le hfuel)
  refine ⟨type, r, htype, hr, ?_⟩
  rw [hmet, hanswer, Mixed, Loose]
  have hnamed : Met fields → ∀ r : Required, ∃ l ∈ fields, r.Names l :=
    fun h r => (h.some_meets r).imp fun _ hl => ⟨hl.1, hl.2.1⟩
  constructor
  · intro h
    refine ⟨fun hm => hm.2 (h.1 hm.1).2, ?_⟩
    rintro ⟨hp, ht, hmore⟩
    exact (met_iff_of_taken hp ht).1 (h.2 ⟨hp, ht⟩) hmore
  · rintro ⟨hmixed, hloose⟩
    constructor
    · intro hm
      exact ⟨hnamed hm, Classical.not_not.1 fun ht => hmixed ⟨hm, ht⟩⟩
    · rintro ⟨hp, ht⟩
      exact (met_iff_of_taken hp ht).2 fun hmore => hloose ⟨hp, ht, hmore⟩

/-! ## A list of connection options -/

/-- The line of a name and a value, if they make one. -/
def headerLine (name value : String) : Option HeaderLine :=
  if h : ascii name ≠ [] ∧ (∀ c ∈ ascii name, c ≠ 0 ∧ c ≠ 58 ∧ ¬ isspace c) ∧ ∀ c ∈ ascii value, c ≠ 10 ∧ c ≠ 13 then
    some ⟨ascii name, ascii value, h.1, h.2.1, h.2.2⟩
  else none

/-- A client's header. -/
def offered (connection : String) : List HeaderLine :=
  [headerLine "Host" " a", headerLine "Upgrade" " websocket", headerLine "Connection" connection,
    headerLine "Sec-WebSocket-Key" " dGhlIHNhbXBsZSBub25jZQ==", headerLine "Sec-WebSocket-Version" " 13"].reduceOption

def offeredStart : List UInt8 := ascii "GET / HTTP/1.1"

def offeredSock (connection : String) : Sock :=
  ⟨offeredStart ++ crlf ++ (headerBytes (offered connection) ++ crlf), List.replicate 200 (.ok 0),
    List.replicate 5 (.ok 0), [], 0, 0⟩

def clearStack : Stack := ⟨fun _ => 0, fun _ => 0, 1⟩

theorem offeredSock_delivers {connection : String}
    (h : (offeredStart ++ crlf ++ (headerBytes (offered connection) ++ crlf)).length ≤ 200) :
    Delivers (offeredSock connection) (offeredStart ++ crlf ++ (headerBytes (offered connection) ++ crlf)) :=
  ⟨List.prefix_refl _, fun _ hi =>
    ⟨0, List.getElem?_replicate.trans (if_pos (Nat.lt_of_lt_of_le hi h))⟩⟩

theorem agree_iff_upgrade : ∃ type r, requestType 7 (fun _ => 0) (offeredSock " Upgrade") = some type ∧
    WSListen.listen id none clearStack (fun _ => clearStack) 7 (offeredSock " Upgrade") = some r ∧
      ((type = .websocket ↔ Answers101 r) ↔
        ¬ Mixed (fun _ => clearStack) (offered " Upgrade") ∧ ¬ Loose (fun _ => clearStack) (offered " Upgrade")) :=
  @agree_iff offeredStart (ascii "/") _ _ _ _ _ _ _ _ (fun _ => 0) (by decide) (by decide)
    (by decide) ⟨ascii "/", by decide, rfl⟩ (by decide)
    (offeredSock_delivers (by decide +kernel)) (offeredSock_delivers (by decide +kernel)) (by decide) (by decide)

/-- `Connection: keep-alive, Upgrade` -/
theorem not_agree_listed : requestType 7 (fun _ => 0) (offeredSock " keep-alive, Upgrade") = some .standard ∧
    ∃ r, WSListen.listen id none clearStack (fun _ => clearStack) 7 (offeredSock " keep-alive, Upgrade") = some r ∧
      Answers101 r := by
  have hanswers : (WSListen.listen id none clearStack (fun _ => clearStack) 7
      (offeredSock " keep-alive, Upgrade")).any (fun r => Answers101 r) = true := by
    decide +kernel
  obtain ⟨r, hr, hanswer⟩ := (Option.any_eq_true ..).1 hanswers
  exact ⟨by decide +kernel, r, hr, by simpa using hanswer⟩

end Upgrade

end YieldStm32
