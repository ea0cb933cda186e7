import YieldStm32.Net.Http.Absorbing
import YieldStm32.Net.Http.Message

/-!
# Responses

* `Fits` : a field that is one whole line, and does not contradict the length that was announced;
* `Careful` : what a callback may do next for the response to come out whole;
* `Sent` : what is on the wire in each state;
* `isResponse_of_run` : a request that is done has been answered with a response.
-/

namespace YieldStm32

namespace Http

open Stdio Transition

/-! ## The condition -/

/-- A text shorter than its line, without a line's end; and no length but the announced one. -/
def Fits (respBleft : Nat) (name : FieldName) : Arg → Prop
  | .int i => name = .contentLength → i = BitVec.ofNat 32 respBleft
  | .str s => (∀ fs ∈ getFieldSpec name, fs.str.length + (cstring s).length + 4 ≤ 255) ∧
      ∀ c ∈ cstring s, c ≠ 10 ∧ c ≠ 13

instance (respBleft : Nat) (name : FieldName) : ∀ arg, Decidable (Fits respBleft name arg)
  | .int i => inferInstanceAs (Decidable (name = .contentLength → i = BitVec.ofNat 32 respBleft))
  | .str s => inferInstanceAs (Decidable ((∀ fs ∈ getFieldSpec name, fs.str.length + (cstring s).length + 4 ≤ 255) ∧
      ∀ c ∈ cstring s, c ≠ 10 ∧ c ≠ 13))

/-- A response has not been started. -/
def Reading (req : Request) : Prop := req.state = .readFields ∨ req.state = .readBody ∨ req.state = .sendStatus

instance (req : Request) : Decidable (Reading req) := inferInstanceAs (Decidable (_ ∨ _ ∨ _))

/-- One status, whose line fits in its buffer and whose fields are sent, and fields that fit. -/
def Careful (req : Request) : Event → Prop
  | .call (.sendStatus code resSize) => req.state = .error ∨
      (Reading req ∧ (∀ spec ∈ getStatusCodeSpec code, (statusLine spec).length ≤ 31) ∧ resSize < 2 ^ 31 ∧
        ¬ Revives req (.sendStatus code resSize))
  | .call (.sendHeaderField name arg) => req.state = .sendFields → Fits req.respBleft name arg
  | .call _ => True
  | .wsRecv _ => True
  | .wsSend bytes => ∀ r ∈ req.sock.send bytes, r.2.wire = req.sock.wire

instance (req : Request) : ∀ event, Decidable (Careful req event)
  | .call (.sendStatus code resSize) => inferInstanceAs (Decidable (req.state = .error ∨
      (Reading req ∧ (∀ spec ∈ getStatusCodeSpec code, (statusLine spec).length ≤ 31) ∧ resSize < 2 ^ 31 ∧
        ¬ Revives req (.sendStatus code resSize))))
  | .call (.sendHeaderField name arg) => inferInstanceAs (Decidable (req.state = .sendFields → Fits req.respBleft name arg))
  | .call .readHeaderField => isTrue trivial
  | .call (.readBody ..) => isTrue trivial
  | .call .endHeader => isTrue trivial
  | .call (.sendBody _) => isTrue trivial
  | .wsRecv _ => isTrue trivial
  | .wsSend bytes => inferInstanceAs (Decidable (∀ r ∈ req.sock.send bytes, r.2.wire = req.sock.wire))

/-! ## Sending -/

/-- Every send takes all that it is given, or fails. -/
def Delivers (t : Sock) : Prop := ∀ result ∈ t.sends, result = .ok 0 ∨ result.fails = true

theorem Delivers.same {t t' : Sock} (hd : Delivers t) (h : t.SameSending t') : Delivers t' := by
  rw [Delivers, h.2.1]
  exact hd

theorem Delivers.send {t t' : Sock} {bytes : List UInt8} {r : Except Int Nat} (hd : Delivers t)
    (h : t.send bytes = some (r, t')) :
    Delivers t' ∧ ∀ n, r = .ok n → n = bytes.length ∧ t'.wire = t.wire ++ bytes ∧ t.sends = .ok 0 :: t'.sends := by
  cases hsends : t.sends with
  | nil =>
      rw [Sock.send_nil bytes hsends] at h
      cases h
  | cons result sends =>
      have hrest : ∀ res ∈ sends, res = .ok 0 ∨ res.fails = true :=
        fun res hres => hd res (by rw [hsends]; exact List.mem_cons_of_mem _ hres)
      cases result with
      | error ec n =>
          rw [Sock.send_error bytes hsends] at h
          cases h
          exact ⟨hrest, fun n hn => by cases hn⟩
      | ok short =>
          have hshort : short = 0 := by
            rcases hd (.ok short) (by rw [hsends]; exact List.mem_cons_self ..) with h | h <;> cases h
            rfl
          subst hshort
          rw [Sock.send, hsends] at h
          cases h
          refine ⟨hrest, fun n hn => ?_⟩
          split at hn
          · cases hn
          · cases hn
            exact ⟨rfl, congrArg (t.wire ++ ·) (List.take_length ..), rfl⟩

/-! ## Lines -/

def argText : Arg → List UInt8
  | .int i => printInt i
  | .str s => cstring s

theorem renderFieldLine_cases {size : Nat} {name : FieldName} {arg : Arg} {line : List UInt8}
    (h : renderFieldLine size name arg = some (some line)) :
    ∃ fs, getFieldSpec name = some fs ∧ line = printed size (fs.str ++ ascii ": " ++ argText arg ++ crlf) ∧
      (fs.type = .int → ∃ i, arg = .int i) := by
  unfold renderFieldLine at h
  split at h
  · cases h
  · split at h
    · cases h
    · rename_i fs hfs
      refine ⟨fs, hfs, ?_⟩
      split at h
      · rename_i i htype
        cases h
        exact ⟨rfl, fun _ => ⟨i, rfl⟩⟩
      · rename_i s htype
        cases h
        exact ⟨rfl, fun h => by rw [htype] at h; cases h⟩
      · cases h

/-- Every name of the table is a name of a header line, and only one is that of the length. -/
theorem fieldSpecs_names : ∀ fs ∈ fieldSpecs, fs.str ≠ [] ∧ (∀ c ∈ fs.str, c ≠ 0 ∧ c ≠ 58 ∧ ¬ isspace c) ∧
    fs.str.length ≤ 30 ∧ (sameWord fs.str (ascii "content-length") ↔ fs.name = .contentLength) ∧
    (fs.name = .contentLength → fs.type = .int) := by
  decide

theorem getFieldSpec_mem {name : FieldName} {fs : FieldSpec} (h : getFieldSpec name = some fs) :
    fs ∈ fieldSpecs ∧ fs.name = name :=
  ⟨List.mem_of_find?_eq_some h, by simpa using List.find?_some h⟩

/-- The text of a value is what stands behind its space. -/
theorem dropWhile_value {s : List UInt8} {n : Nat} (h : Denotes s n) :
    ((32 :: s).rdropWhile isspace).dropWhile isspace = s := by
  obtain ⟨hne, hall, -⟩ := h
  have hend : (32 :: s).rdropWhile isspace = 32 :: s := by
    apply List.rdropWhile_eq_self_iff.2
    intro hl
    have hlast : (32 :: s).getLast hl ∈ s := by
      rw [List.getLast_cons hne]
      exact List.getLast_mem hne
    simpa using (hall _ hlast).not_isspace
  rw [hend, List.dropWhile_cons_of_pos (by decide)]
  cases s with
  | nil => rfl
  | cons c s => exact List.dropWhile_cons_of_neg (by simpa using (hall c (by simp)).not_isspace)

/-- A field that fits is a line of a header. -/
theorem rendered_line {name : FieldName} {arg : Arg} {line : List UInt8} {n : Nat} (hn : n < 2 ^ 31)
    (h : renderFieldLine 256 name arg = some (some line)) (hfits : Fits n name arg) :
    ∃ l : HeaderLine, l.bytes = line ∧ (∃ text, l.value = 32 :: text) ∧ (l.isLength ↔ name = .contentLength) ∧
      (l.isLength → Denotes l.text n) := by
  obtain ⟨fs, hfs, rfl, htype⟩ := renderFieldLine_cases h
  obtain ⟨hmem, rfl⟩ := getFieldSpec_mem hfs
  obtain ⟨hne, htoken, hlen, hlength, hint⟩ := fieldSpecs_names fs hmem
  have hline : fs.str.length + (argText arg).length + 4 ≤ 255 ∧ ∀ c ∈ argText arg, c ≠ 10 ∧ c ≠ 13 := by
    cases arg with
    | str s => exact ⟨hfits.1 fs hfs, hfits.2⟩
    | int i =>
        obtain ⟨hle, hword⟩ := printInt_word i
        refine ⟨by rw [argText]; omega, fun c hc => ?_⟩
        rcases hword c hc with rfl | hd
        · decide
        · constructor <;> (rintro rfl; exact absurd hd (by decide))
  refine ⟨⟨fs.str, 32 :: argText arg, hne, htoken, ?_⟩, ?_, ⟨_, rfl⟩, hlength, ?_⟩
  · intro c hc
    rcases List.mem_cons.1 hc with rfl | hc
    · decide
    · exact hline.2 c hc
  · rw [HeaderLine.bytes, printed, List.take_of_length_le]
    · simp [ascii]
    · have := hline.1
      simp only [List.length_append, ascii, crlf]
      simp
      omega
  · intro hl
    have hname := hlength.1 hl
    obtain ⟨i, rfl⟩ := htype (hint hname)
    obtain rfl := hfits hname
    have hd := denotes_printInt hn
    rw [HeaderLine.text]
    exact (dropWhile_value hd).symm ▸ hd

/-- One field: it is a line of the header, or it ends in the error state. -/
theorem sendHeaderField_sent {req req' : Request} {ret : Int} {name : FieldName} {arg : Arg} {n : Nat} (hn : n < 2 ^ 31)
    (hd : Delivers req.sock) (hfits : req.state = .sendFields → Fits n name arg)
    (h : req.sendHeaderField name arg = some (ret, req')) :
    Delivers req'.sock ∧ (req'.state = .error ∨
      (req'.state = .sendFields ∧ req'.respBleft = req.respBleft ∧ ∃ l : HeaderLine,
        req'.sock.wire = req.sock.wire ++ l.bytes ∧ (∃ text, l.value = 32 :: text) ∧
        (l.isLength ↔ name = .contentLength) ∧ (l.isLength → Denotes l.text n))) := by
  obtain ⟨-, -, rfl⟩ | ⟨hs, ⟨-, -, rfl⟩ | ⟨line, r, t, hline, hsend, ⟨ec, -, -, rfl⟩ | ⟨m, rfl, -, rfl⟩⟩⟩ :=
    sendHeaderField_cases h
  · exact ⟨hd, Or.inl rfl⟩
  · exact ⟨hd, Or.inl rfl⟩
  · exact ⟨(hd.send hsend).1, Or.inl rfl⟩
  · obtain ⟨hd', hok⟩ := hd.send hsend
    obtain ⟨-, hwire, -⟩ := hok m rfl
    obtain ⟨l, rfl, hrest⟩ := rendered_line hn hline (hfits hs)
    exact ⟨hd', Or.inr ⟨hs, rfl, l, hwire, hrest⟩⟩

/-! ## The wire -/

/-- A header in progress, behind what was on the wire. -/
def Heading (base : List UInt8) (n : Nat) (req : Request) : Prop :=
  ∃ header : ResponseHeader n, req.sock.wire = base ++ header.bytes

/-- What is on the wire. -/
def Sent (base : List UInt8) (req : Request) : Prop :=
  match req.state with
  | .error => True
  | .readFields | .readBody | .sendStatus => req.sock.wire = base
  | .sendFields => req.respBleft < 2 ^ 31 ∧ Heading base req.respBleft req
  | .sendBody => ∃ n, ∃ header : ResponseHeader n, ∃ body, body.length + req.respBleft = n ∧
      req.sock.wire = base ++ (header.bytes ++ crlf ++ body)
  | .done => ∃ bytes, IsResponse bytes ∧ req.sock.wire = base ++ bytes

variable {base : List UInt8} {req req' : Request} {ret : Int}

theorem sent_error (h : req.state = .error) : Sent base req := by
  rw [Sent, h]
  trivial

theorem Reading.sent_iff (h : Reading req) : Sent base req ↔ req.sock.wire = base := by
  rw [Sent]
  rcases h with h | h | h <;> rw [h]

theorem sent_sendFields (h : req.state = .sendFields) :
    Sent base req ↔ req.respBleft < 2 ^ 31 ∧ Heading base req.respBleft req := by
  rw [Sent, h]

theorem sent_sendBody (h : req.state = .sendBody) :
    Sent base req ↔ ∃ n, ∃ header : ResponseHeader n, ∃ body, body.length + req.respBleft = n ∧
      req.sock.wire = base ++ (header.bytes ++ crlf ++ body) := by
  rw [Sent, h]

theorem sent_done (h : req.state = .done) :
    Sent base req ↔ ∃ bytes, IsResponse bytes ∧ req.sock.wire = base ++ bytes := by
  rw [Sent, h]

/-- What is on the wire is told by the state, the counter and the wire. -/
theorem Sent.congr (h : Sent base req) (hs : req'.state = req.state) (hr : req'.respBleft = req.respBleft)
    (hw : req'.sock.wire = req.sock.wire) : Sent base req' := by
  rw [Sent] at h ⊢
  rw [hs]
  unfold Heading at h ⊢
  rw [hr, hw]
  exact h

/-! ## Calls -/

theorem readHeaderField_sent {field : Option Field} (h : req.readHeaderField = some (ret, field, req')) (hi : Sent base req)
    (hd : Delivers req.sock) : Sent base req' ∧ Delivers req'.sock := by
  obtain ⟨-, -, rfl⟩ | ⟨hs, r, line, t, len, hline, hcases⟩ := readHeaderField_cases h
  · exact ⟨sent_error rfl, hd⟩
  · have hk := recvLine_keeps hline
    have hgot : Sent base (req.got t line len) := hi.congr rfl rfl hk.1
    have hwire := (Reading.sent_iff (Or.inl hs)).1 hi
    rcases hcases with ⟨-, rfl⟩ | ⟨-, rfl⟩ | ⟨ec, field, -, -, rfl⟩ | ⟨n, field, -, -, -, rfl⟩
    · exact ⟨sent_error rfl, hd.same hk⟩
    · refine ⟨(Reading.sent_iff (Or.inr ?_)).2 (hk.1.trans hwire), hd.same hk⟩
      show (if _ then HttpState.readBody else .sendStatus) = _ ∨ (if _ then HttpState.readBody else .sendStatus) = _
      split <;> simp
    all_goals
      obtain ⟨-, hstate, -, hsock, -, hresp⟩ := Request.take_keeps (req.got t line len) field
      refine ⟨hgot.congr hstate hresp (by rw [hsock]), ?_⟩
      rw [hsock]
      exact hd.same hk

theorem readBody_sent {stored : Bool} {size : Nat} {out : List UInt8} (h : req.readBody stored size = some (ret, out, req'))
    (hi : Sent base req) (hd : Delivers req.sock) : Sent base req' ∧ Delivers req'.sock := by
  obtain ⟨-, -, rfl⟩ | ⟨hs, ⟨-, rfl⟩ | ⟨r, t, hloop, ⟨-, -, rfl⟩ | ⟨bytes, -, rfl⟩⟩⟩ := readBody_cases h
  · exact ⟨sent_error rfl, hd⟩
  · exact ⟨hi, hd⟩
  · exact ⟨sent_error rfl, hd.same (readBodyLoop_keeps hloop)⟩
  · have hk := readBodyLoop_keeps hloop
    have hwire := (Reading.sent_iff (Or.inr (Or.inl hs))).1 hi
    refine ⟨(Reading.sent_iff (Or.inr ?_)).2 (hk.1.trans hwire), hd.same hk⟩
    show (if _ then HttpState.sendStatus else req.state) = _ ∨ (if _ then HttpState.sendStatus else req.state) = _
    rw [hs]
    split <;> simp

/-- Fields behind a header that has its length. -/
theorem sendAll_sent {fields : List (FieldName × Arg)} {n : Nat} (hn : n < 2 ^ 31) (hd : Delivers req.sock)
    (hi : req.state = .error ∨ (req.state = .sendFields ∧ Heading base n req))
    (hfits : ∀ field ∈ fields, Fits n field.1 field.2) (h : sendAll fields req = some req') :
    Delivers req'.sock ∧ (req'.state = .error ∨ (req'.state = .sendFields ∧ Heading base n req')) := by
  induction fields generalizing req with
  | nil =>
      cases h
      exact ⟨hd, hi⟩
  | cons field fields ih =>
      obtain ⟨⟨r, req1⟩, h1, h⟩ := Option.bind_eq_some_iff.1 h
      obtain ⟨hd1, hcases⟩ := sendHeaderField_sent hn hd (fun _ => hfits field (List.mem_cons_self ..)) h1
      apply ih hd1 _ (fun f hf => hfits f (List.mem_cons_of_mem _ hf)) h
      obtain hs1 | ⟨hs1, -, l, hwire, hspaced, -, hlength⟩ := hcases
      · exact Or.inl hs1
      · refine Or.inr ⟨hs1, ?_⟩
        obtain hs | ⟨-, header, hw⟩ := hi
        · rw [Request.sendHeaderField, Request.require_of_ne (by rw [hs]; decide)] at h1
          cases h1
          cases hs1
        · exact ⟨header.concat l hspaced hlength, by rw [hwire, hw, header.bytes_concat, List.append_assoc]⟩

theorem fits_basicFields {resSize : Nat} : ∀ field ∈ (basicFields resSize).drop 1, Fits resSize field.1 field.2 := by
  intro field hf
  simp only [basicFields, List.drop_succ_cons, List.drop_zero, List.mem_cons, List.not_mem_nil, or_false] at hf
  rcases hf with rfl | rfl | rfl <;> exact ⟨by decide, by decide⟩

theorem statusLine_line {code : StatusCode} {spec : BitVec 32 × List UInt8} (h : getStatusCodeSpec code = some spec) :
    ∃ status, (∀ c ∈ status, c ≠ 10 ∧ c ≠ 13) ∧ statusLine spec = status ++ crlf := by
  refine ⟨ascii "HTTP/1.1" ++ ascii " " ++ printInt spec.1 ++ ascii " " ++ spec.2, ?_, rfl⟩
  cases code with
  | unknown => cases h
  | _ =>
      cases h
      decide

/-- The whole status: a header in progress, unless it comes back from the error state. -/
theorem sendStatus_sent {code : StatusCode} {resSize : Nat} (h : req.sendStatus code resSize = some (ret, req'))
    (hi : Sent base req) (hd : Delivers req.sock) (hc : Careful req (.call (.sendStatus code resSize))) :
    Sent base req' ∧ Delivers req'.sock := by
  obtain ⟨hs, -, rfl⟩ | ⟨hs, spec, r, t, hcode, hsend, ⟨ec, -, -, rfl⟩ | ⟨m, req1, rfl, -, hall, rfl⟩⟩ :=
    sendStatus_cases h
  · exact ⟨sent_error hs, hd⟩
  · exact ⟨sent_error rfl, (hd.send hsend).1⟩
  · obtain ⟨hread, hfit, hsize, hrev⟩ := hc.resolve_left hs
    obtain ⟨hd1, hok⟩ := hd.send hsend
    obtain ⟨-, hwire, hsends⟩ := hok m rfl
    have hline : printed 32 (statusLine spec) = statusLine spec := List.take_of_length_le (hfit spec hcode)
    obtain ⟨status, hstatus, heq⟩ := statusLine_line hcode
    rw [hread.sent_iff.1 hi, hline, heq] at hwire
    -- the length comes first: only behind it is there a header
    obtain ⟨⟨r2, req2⟩, h2, hall'⟩ := Option.bind_eq_some_iff.1 hall
    have hlength : Fits resSize .contentLength (.int (BitVec.ofNat 32 resSize)) := fun _ => rfl
    obtain ⟨hd2, hcases⟩ := sendHeaderField_sent hsize hd1 (fun _ => hlength) h2
    have hgoing : req2.state = .error ∨ (req2.state = .sendFields ∧ Heading base resSize req2) := by
      obtain hs2 | ⟨hs2, -, l, hw2, hspaced, hname, hlength⟩ := hcases
      · exact Or.inl hs2
      · refine Or.inr ⟨hs2, ⟨status, hstatus, ⟨code, spec, hcode, heq⟩, [l], ?_, ?_, ⟨l, by simp, hname.2 rfl⟩⟩, ?_⟩
        · intro k hk
          rwa [List.mem_singleton.1 hk]
        · intro k hk
          rwa [List.mem_singleton.1 hk]
        · rw [hw2]
          show t.wire ++ l.bytes = _
          rw [hwire, ResponseHeader.bytes, headerBytes, List.flatMap_singleton, List.append_assoc, List.append_assoc]
    obtain ⟨hd3, herr | ⟨-, hheading⟩⟩ := sendAll_sent hsize hd2 hgoing fits_basicFields hall'
    · have hcode' : code ≠ .unknown := by
        rintro rfl
        cases hcode
      have hnot : ¬ Breaks t.sends 4 := fun hb => hrev ⟨hs, hcode', 0, t.sends, hsends, hb⟩
      obtain ⟨hnone, -⟩ | ⟨req3, h3, -, ⟨-, -, hb⟩ | ⟨hs3, -, -⟩⟩ :=
        @sendAll_going { req.use t with state := .sendFields } _ (renders_basicFields resSize) rfl
      · cases hnone.symm.trans hall
      · exact absurd hb hnot
      · cases h3.symm.trans hall
        cases hs3.symm.trans herr
    · exact ⟨(sent_sendFields rfl).2 ⟨hsize, hheading⟩, hd3⟩

theorem sendHeaderField_sends {name : FieldName} {arg : Arg} (h : req.sendHeaderField name arg = some (ret, req'))
    (hi : Sent base req) (hd : Delivers req.sock) (hc : req.state = .sendFields → Fits req.respBleft name arg) :
    Sent base req' ∧ Delivers req'.sock := by
  by_cases hs : req.state = .sendFields
  · obtain ⟨hsize, header, hw⟩ := (sent_sendFields hs).1 hi
    obtain ⟨hd1, herr | ⟨hs1, hresp, l, hwire, hspaced, -, hlength⟩⟩ := sendHeaderField_sent hsize hd hc h
    · exact ⟨sent_error herr, hd1⟩
    · refine ⟨(sent_sendFields hs1).2 ?_, hd1⟩
      rw [hresp]
      exact ⟨hsize, header.concat l hspaced hlength, by rw [hwire, hw, header.bytes_concat, List.append_assoc]⟩
  · rw [Request.sendHeaderField, Request.require_of_ne hs] at h
    cases h
    exact ⟨sent_error rfl, hd⟩

/-- A body that is complete. -/
theorem isResponse_of_length {n : Nat} (header : ResponseHeader n) {body : List UInt8} (h : body.length = n) :
    IsResponse (header.bytes ++ crlf ++ body) := by
  subst h
  exact ⟨body, header, rfl⟩

theorem endHeader_sent (h : req.endHeader = some (ret, req')) (hi : Sent base req) (hd : Delivers req.sock) :
    Sent base req' ∧ Delivers req'.sock := by
  obtain ⟨-, -, rfl⟩ | ⟨hs, r, t, hsend, ⟨ec, -, -, rfl⟩ | ⟨m, rfl, rfl⟩⟩ := endHeader_cases h
  · exact ⟨sent_error rfl, hd⟩
  · exact ⟨sent_error rfl, (hd.send hsend).1⟩
  · obtain ⟨hd1, hok⟩ := hd.send hsend
    obtain ⟨-, hwire, -⟩ := hok m rfl
    obtain ⟨-, header, hw⟩ := (sent_sendFields hs).1 hi
    have hwire' : t.wire = base ++ (header.bytes ++ crlf ++ []) := by
      rw [hwire, hw, List.append_nil, List.append_assoc]
    refine ⟨?_, hd1⟩
    by_cases hleft : req.respBleft = 0
    · apply (sent_done (if_neg (by simpa using hleft))).2
      exact ⟨_, isResponse_of_length header (show ([] : List UInt8).length = _ from hleft.symm), hwire'⟩
    · apply (sent_sendBody (if_pos hleft)).2
      exact ⟨_, header, [], Nat.zero_add _, hwire'⟩

theorem sendBody_sent {bytes : List UInt8} (h : req.sendBody bytes = some (ret, req')) (hi : Sent base req)
    (hd : Delivers req.sock) : Sent base req' ∧ Delivers req'.sock := by
  obtain ⟨-, -, rfl⟩ | ⟨hs, rfl | ⟨hle, r, t, hsend, ⟨ec, -, -, rfl⟩ | ⟨m, rfl, rfl⟩⟩⟩ := sendBody_cases h
  · exact ⟨sent_error rfl, hd⟩
  · exact ⟨hi, hd⟩
  · exact ⟨sent_error rfl, (hd.send hsend).1⟩
  · obtain ⟨hd1, hok⟩ := hd.send hsend
    obtain ⟨rfl, hwire, -⟩ := hok m rfl
    obtain ⟨n, header, body, hn, hw⟩ := (sent_sendBody hs).1 hi
    have hwire' : t.wire = base ++ (header.bytes ++ crlf ++ (body ++ bytes)) := by
      rw [hwire, hw]
      simp only [List.append_assoc]
    have hlen : (body ++ bytes).length + (req.respBleft - bytes.length) = n := by
      rw [List.length_append]
      omega
    refine ⟨?_, hd1⟩
    by_cases hleft : req.respBleft - bytes.length = 0
    · apply (sent_done (if_pos hleft)).2
      rw [hleft, Nat.add_zero] at hlen
      exact ⟨_, isResponse_of_length header hlen, hwire'⟩
    · apply (sent_sendBody ((if_neg hleft).trans hs)).2
      exact ⟨n, header, body ++ bytes, hlen, hwire'⟩

/-- What a callback does keeps what is on the wire. -/
theorem exec_sent {event : Event} (h : event.exec req = some req') (hi : Sent base req ∧ Delivers req.sock)
    (hc : Careful req event) : Sent base req' ∧ Delivers req'.sock := by
  obtain ⟨hi, hd⟩ := hi
  cases event with
  | wsRecv size =>
      obtain ⟨⟨r, t⟩, hr, rfl⟩ := Option.map_eq_some_iff.1 h
      have hk := Sock.recv_keeps hr
      exact ⟨hi.congr rfl rfl hk.1, hd.same hk⟩
  | wsSend bytes =>
      obtain ⟨⟨r, t⟩, hr, rfl⟩ := Option.map_eq_some_iff.1 h
      exact ⟨hi.congr rfl rfl (hc _ hr), (hd.send hr).1⟩
  | call call =>
      obtain ⟨⟨ret, r⟩, hr, rfl⟩ := Option.map_eq_some_iff.1 h
      cases call with
      | readHeaderField =>
          obtain ⟨⟨ret, field, r⟩, hread, ⟨⟩⟩ := Option.map_eq_some_iff.1 hr
          exact readHeaderField_sent hread hi hd
      | readBody stored size =>
          obtain ⟨⟨ret, out, r⟩, hread, ⟨⟩⟩ := Option.map_eq_some_iff.1 hr
          exact readBody_sent hread hi hd
      | sendStatus code resSize => exact sendStatus_sent hr hi hd hc
      | sendHeaderField name arg => exact sendHeaderField_sends hr hi hd hc
      | endHeader => exact endHeader_sent hr hi hd
      | sendBody bytes => exact sendBody_sent hr hi hd

/-- **A request that is done has been answered with a response**: behind what was on the wire there are a status line of the
table, lines `name: value`, an empty line, and a body of the length that the lines announce; in every run of a callback's
calls that is careful. -/
theorem isResponse_of_run {sock : Sock} {method : Method} {line : Nat → UInt8} {lineLen : Nat} {url : List UInt8}
    {events : List Event} {req : Request}
    (hsends : ∀ result ∈ sock.sends, result = .ok 0 ∨ result.fails = true)
    (hcareful : Meets Event.exec Careful (Request.fresh sock method line lineLen url) events)
    (hrun : run Event.exec (Request.fresh sock method line lineLen url) events = some req) (hdone : req.state = .done) :
    ∃ bytes, IsResponse bytes ∧ req.sock.wire = sock.wire ++ bytes := by
  have hstart : Sent sock.wire (Request.fresh sock method line lineLen url) := (Reading.sent_iff (Or.inl rfl)).2 rfl
  have hend : Sent sock.wire req ∧ Delivers req.sock :=
    keeps_of_meets (fun _ _ _ hi hc h => exec_sent h hi hc) ⟨hstart, hsends⟩ hcareful hrun
  exact (sent_done hdone).1 hend.1

/-- The empty line that ends a request's header, and a socket that takes all that is sent. -/
def willing (n : Nat) : Sock := ⟨crlf, [.ok 0, .ok 0], List.replicate n (.ok 0), [], 0, 0⟩

/-- A callback that says hello. -/
def hello : List Event :=
  [.call .readHeaderField, .call (.sendStatus .ok 5), .call (.sendHeaderField .contentType (.str (ascii "text/plain"))),
    .call .endHeader, .call (.sendBody (ascii "hello"))]

theorem isResponse_of_run_hello :
    (∀ result ∈ (willing 8).sends, result = .ok 0 ∨ result.fails = true) ∧
      Meets Event.exec Careful (Request.fresh (willing 8) .get (fun _ => 0) 0 []) hello ∧
      ∃ req, run Event.exec (Request.fresh (willing 8) .get (fun _ => 0) 0 []) hello = some req ∧ req.state = .done ∧
        ∃ bytes, IsResponse bytes ∧ req.sock.wire = [] ++ bytes := by
  have hsends : ∀ result ∈ (willing 8).sends, result = .ok 0 ∨ result.fails = true := by decide
  have hcareful : Meets Event.exec Careful (Request.fresh (willing 8) .get (fun _ => 0) 0 []) hello := by decide
  have hstate : (run Event.exec (Request.fresh (willing 8) .get (fun _ => 0) 0 []) hello).map Request.state = some .done := by
    decide
  obtain ⟨req, hrun, hdone⟩ := Option.map_eq_some_iff.1 hstate
  exact ⟨hsends, hcareful, req, hrun, hdone, isResponse_of_run hsends hcareful hrun hdone⟩

/-- A callback that refuses a method. -/
def refusing : List Event := [.call .readHeaderField, .call (.sendStatus .methodNotAllowed 0), .call .endHeader]

theorem run_refusing : (run Event.exec (Request.fresh (willing 6) .get (fun _ => 0) 0 []) refusing).map
    (fun req => (req.state, req.sock.wire.take 36)) = some (.done, ascii "HTTP/1.1 405 Method Not Allowedconte") := by
  decide

/-- The line of status 405 is cut before its end. -/
theorem not_isResponse_refusing :
    ∃ req, run Event.exec (Request.fresh (willing 6) .get (fun _ => 0) 0 []) refusing = some req ∧ req.state = .done ∧
      ¬ ∃ bytes, IsResponse bytes ∧ req.sock.wire = [] ++ bytes := by
  obtain ⟨req, hrun, hvalue⟩ := Option.map_eq_some_iff.1 run_refusing
  obtain ⟨hdone, hsent⟩ := Prod.mk.inj hvalue
  refine ⟨req, hrun, hdone, ?_⟩
  rintro ⟨-, ⟨body, header, rfl⟩, hwire⟩
  obtain ⟨code, spec, hcode, hline⟩ := header.of_table
  rw [ResponseHeader.bytes, ← hline, List.nil_append, List.append_assoc, List.append_assoc] at hwire
  have hpre : (statusLine spec).take 36 <+: ascii "HTTP/1.1 405 Method Not Allowedconte" := by
    rw [← hsent, hwire, List.take_append]
    exact List.prefix_append ..
  cases code with
  | unknown => cases hcode
  | _ =>
      cases hcode
      exact absurd hpre (by decide)

end Http

end YieldStm32
