import YieldStm32.Net.Http.Request

/-!
# What a call can do

One lemma for each call: the ways in which it returns, and the request it leaves.

* `Sock.recv_keeps`, `Sock.send_keeps` : a direction leaves the other alone;
* `Sock.send_ok`, `Sock.send_error` : a send, by what the socket answers;
* `readHeaderField_cases`, `readBody_cases`, `sendHeaderField_cases`, `endHeader_cases`, `sendBody_cases`,
  `sendStatus_cases`;
* `sendHeaderField_keeps`, `sendStatus_keeps`, `endHeader_keeps`, `sendBody_keeps` : what is sent is not received.
-/

namespace YieldStm32

namespace Http

open Stdio

/-! ## Sockets -/

theorem asErr_nonneg {n : Nat} (h : n < 2 ^ 31) : ¬ asErr n < 0 := by
  rw [asErr, BitVec.toInt_eq_toNat_of_lt (by rw [BitVec.toNat_ofNat]; omega)]
  omega

/-- A socket after a send that put `bytes` on the wire. -/
def Sock.sent (t : Sock) (sends : List SendResult) (bytes : List UInt8) : Sock :=
  { t with sends := sends, wire := t.wire ++ bytes, uses := t.uses + 1 }

theorem Sock.send_ok {t : Sock} {short : Nat} {sends : List SendResult} {bytes : List UInt8}
    (h : t.sends = .ok short :: sends) (hlen : bytes.length < 2 ^ 31) :
    t.send bytes = some (.ok (bytes.length - short), t.sent sends (bytes.take (bytes.length - short))) := by
  rw [Sock.send, h]
  dsimp only
  rw [if_neg (asErr_nonneg (by omega))]
  rfl

theorem Sock.send_error {t : Sock} {ec : Int} {n : Nat} {sends : List SendResult} (bytes : List UInt8)
    (h : t.sends = .error ec n :: sends) :
    t.send bytes = some (.error ec, t.sent sends (bytes.take n)) := by
  rw [Sock.send, h]
  rfl

theorem Sock.send_nil {t : Sock} (bytes : List UInt8) (h : t.sends = []) : t.send bytes = none := by
  rw [Sock.send, h]

/-- What is received is not sent, and no longer to come. -/
def Sock.SameSending (t t' : Sock) : Prop :=
  t'.wire = t.wire ∧ t'.sends = t.sends ∧ t'.consumed + t'.incoming.length = t.consumed + t.incoming.length

theorem Sock.SameSending.trans {t t' t'' : Sock} (h : t.SameSending t') (h' : t'.SameSending t'') : t.SameSending t'' :=
  ⟨h'.1.trans h.1, h'.2.1.trans h.2.1, h'.2.2.trans h.2.2⟩

/-- What is sent is not received. -/
def Sock.SameReceiving (t t' : Sock) : Prop := t'.incoming = t.incoming ∧ t'.recvs = t.recvs ∧ t'.consumed = t.consumed

theorem Sock.SameReceiving.trans {t t' t'' : Sock} (h : t.SameReceiving t') (h' : t'.SameReceiving t'') :
    t.SameReceiving t'' :=
  ⟨h'.1.trans h.1, h'.2.1.trans h.2.1, h'.2.2.trans h.2.2⟩

theorem Sock.recv_keeps {t t' : Sock} {size : Nat} {r : Except Int (List UInt8)} (h : t.recv size = some (r, t')) :
    t.SameSending t' := by
  unfold Sock.recv at h
  split at h
  · cases h
  · cases h
    exact ⟨rfl, rfl, rfl⟩
  · rename_i n recvs hrecvs
    dsimp only at h
    split at h
    · cases h
    · cases h
      refine ⟨rfl, rfl, ?_⟩
      simp only [List.length_drop, List.length_take]
      omega

theorem Sock.send_keeps {t t' : Sock} {bytes : List UInt8} {r : Except Int Nat} (h : t.send bytes = some (r, t')) :
    t.SameReceiving t' := by
  unfold Sock.send at h
  split at h
  · cases h
  · cases h
    exact ⟨rfl, rfl, rfl⟩
  · cases h
    exact ⟨rfl, rfl, rfl⟩

theorem recvLineLoop_keeps {size fuel n : Nat} {line line' : Nat → UInt8} {t t' : Sock} {r : Except Int Nat}
    (h : recvLineLoop size fuel n line t = some (r, line', t')) : t.SameSending t' := by
  induction fuel generalizing n line t with
  | zero => cases h
  | succ fuel ih =>
      rw [recvLineLoop] at h
      cases hr : t.recv 1 with
      | none =>
          rw [hr] at h
          cases h
      | some p =>
          obtain ⟨result, t1⟩ := p
          rw [hr] at h
          have hk := Sock.recv_keeps hr
          cases result with
          | error ec =>
              cases h
              exact hk
          | ok bytes =>
              dsimp only at h
              split at h
              · cases h
                exact hk
              · split at h
                · cases h
                  exact hk
                · exact hk.trans (ih h)

theorem recvLine_keeps {size : Nat} {line line' : Nat → UInt8} {t t' : Sock} {r : Except Int Nat}
    (h : recvLine size line t = some (r, line', t')) : t.SameSending t' := by
  unfold recvLine at h
  split at h
  · cases h
  · rename_i hl
    cases h
    exact recvLineLoop_keeps hl
  · rename_i hl
    cases h
    exact recvLineLoop_keeps hl

theorem readBodyLoop_keeps {stored : Bool} {size fuel : Nat} {out : List UInt8} {t t' : Sock}
    {r : Option (List UInt8)} (h : Request.readBodyLoop stored size fuel out t = some (r, t')) : t.SameSending t' := by
  induction fuel generalizing out t with
  | zero =>
      cases h
      exact ⟨rfl, rfl, rfl⟩
  | succ fuel ih =>
      rw [Request.readBodyLoop] at h
      split at h
      · split at h
        · cases h
        · rename_i hr
          cases h
          exact Sock.recv_keeps hr
        · rename_i hr
          exact (Sock.recv_keeps hr).trans (ih h)
      · cases h
        exact ⟨rfl, rfl, rfl⟩

/-! ## Requests -/

section Calls

variable {req req' : Request} {ret : Int}

@[simp] theorem Request.use_failed (t : Sock) : (req.use t).failed = req.failed := rfl
@[simp] theorem Request.use_state (t : Sock) : (req.use t).state = req.state := rfl
@[simp] theorem Request.use_sock (t : Sock) : (req.use t).sock = t := rfl
@[simp] theorem Request.use_line (t : Sock) : (req.use t).line = req.line := rfl
@[simp] theorem Request.use_bodyBleft (t : Sock) : (req.use t).bodyBleft = req.bodyBleft := rfl
@[simp] theorem Request.use_respBleft (t : Sock) : (req.use t).respBleft = req.respBleft := rfl
@[simp] theorem Request.fail_failed : req.fail.failed = true := rfl
@[simp] theorem Request.fail_state (req : Request) : req.fail.state = .error := rfl
@[simp] theorem Request.fail_late : req.fail.late = req.late := rfl
@[simp] theorem Request.fail_sock : req.fail.sock = req.sock := rfl

theorem Request.use_late (h : req.failed = false) (t : Sock) : (req.use t).late = req.late := by
  rw [Request.use, h]
  rfl

/-- A field of the header leaves the socket and the state as they are. -/
theorem Request.take_keeps (req : Request) (field : Field) : (req.take field).failed = req.failed ∧
    (req.take field).state = req.state ∧ (req.take field).late = req.late ∧ (req.take field).sock = req.sock ∧
    (req.take field).line = req.line ∧ (req.take field).respBleft = req.respBleft := by
  unfold Request.take
  split
  all_goals first | exact ⟨rfl, rfl, rfl, rfl, rfl, rfl⟩ | (split <;> exact ⟨rfl, rfl, rfl, rfl, rfl, rfl⟩)

theorem Request.require_of_eq {state : HttpState} (h : req.state = state) : req.require state = req := if_pos h

theorem Request.require_of_ne {state : HttpState} (h : req.state ≠ state) : req.require state = req.fail := if_neg h

/-- The request behind a line that was received, or not. -/
def Request.got (req : Request) (t : Sock) (line : Nat → UInt8) (lineLen : Nat) : Request :=
  { req.use t with line := line, lineLen := lineLen }

/-- The request behind a part of the body. -/
def Request.took (req : Request) (t : Sock) (n : Nat) : Request :=
  { req.use t with
    bodyBleft := req.bodyBleft - n
    state := if req.bodyBleft - n = 0 then .sendStatus else req.state }

/-- The request behind a part of the response's body. -/
def Request.gave (req : Request) (t : Sock) (n : Nat) : Request :=
  { req.use t with
    respBleft := req.respBleft - n
    state := if req.respBleft - n = 0 then .done else req.state }

theorem readHeaderField_cases {field : Option Field} (h : req.readHeaderField = some (ret, field, req')) :
    (req.state ≠ .readFields ∧ ret = efatal ∧ req' = req.fail) ∨
      (req.state = .readFields ∧ ∃ r line t len, recvLine maxLineLen req.line req.sock = some (r, line, t) ∧
        ((ret = efatal ∧ req' = (req.got t line len).fail) ∨
          (r = .ok 0 ∧ req' = (req.got t line len).headerEnd) ∨
          (∃ ec field, r = .error ec ∧ parseNoLine line = some field ∧ req' = (req.got t line len).take field) ∨
          ∃ n field, r = .ok n ∧ n ≠ 0 ∧ parseFieldLine (Ring.copyOut line 0 n) = some field ∧
            req' = (req.got t line len).take field)) := by
  unfold Request.readHeaderField at h
  by_cases hs : req.state = .readFields
  · rw [Request.require_of_eq hs, if_neg (by rw [hs]; decide)] at h
    refine Or.inr ⟨hs, ?_⟩
    split at h
    · cases h
    · rename_i ec line t hr
      refine ⟨_, line, t, (2 ^ 32 + ec).toNat, hr, ?_⟩
      dsimp only at h
      split at h
      · cases h
        exact Or.inl ⟨rfl, rfl⟩
      · rename_i f hp
        cases h
        exact Or.inr (Or.inr (Or.inl ⟨ec, f, rfl, hp, rfl⟩))
    · rename_i len line t hr
      refine ⟨_, line, t, len, hr, ?_⟩
      dsimp only at h
      by_cases hlen : len = 0
      · rw [if_pos hlen] at h
        cases h
        exact Or.inr (Or.inl ⟨by rw [hlen], rfl⟩)
      · rw [if_neg hlen] at h
        split at h
        · cases h
          exact Or.inl ⟨rfl, rfl⟩
        · rename_i f hp
          cases h
          exact Or.inr (Or.inr (Or.inr ⟨len, f, rfl, hlen, hp, rfl⟩))
  · rw [Request.require_of_ne hs] at h
    cases h
    exact Or.inl ⟨hs, rfl, rfl⟩

theorem readBody_cases {stored : Bool} {size : Nat} {out : List UInt8}
    (h : req.readBody stored size = some (ret, out, req')) :
    (req.state ≠ .readBody ∧ ret = efatal ∧ req' = req.fail) ∨
      (req.state = .readBody ∧
        ((min size req.bodyBleft = 0 ∧ req' = req) ∨
          ∃ r t, Request.readBodyLoop stored (min size req.bodyBleft) (min size req.bodyBleft) [] req.sock = some (r, t) ∧
            ((r = none ∧ ret = efatal ∧ req' = (req.use t).fail) ∨
              ∃ bytes, r = some bytes ∧ req' = req.took t bytes.length))) := by
  unfold Request.readBody at h
  by_cases hs : req.state = .readBody
  · rw [Request.require_of_eq hs, if_neg (by rw [hs]; decide)] at h
    refine Or.inr ⟨hs, ?_⟩
    dsimp only at h
    by_cases hsize : min size req.bodyBleft = 0
    · rw [if_pos hsize] at h
      cases h
      exact Or.inl ⟨hsize, rfl⟩
    · rw [if_neg hsize] at h
      cases hr : Request.readBodyLoop stored (min size req.bodyBleft) (min size req.bodyBleft) [] req.sock with
      | none =>
          rw [hr] at h
          cases h
      | some p =>
          obtain ⟨r, t⟩ := p
          rw [hr] at h
          refine Or.inr ⟨r, t, rfl, ?_⟩
          cases r with
          | none =>
              cases h
              exact Or.inl ⟨rfl, rfl, rfl⟩
          | some bytes =>
              cases h
              refine Or.inr ⟨out, rfl, ?_⟩
              by_cases hleft : req.bodyBleft - out.length = 0
              · rw [if_pos hleft, Request.took, if_pos hleft]
              · rw [if_neg hleft, Request.took, if_neg hleft]
                rfl
  · rw [Request.require_of_ne hs] at h
    cases h
    exact Or.inl ⟨hs, rfl, rfl⟩

theorem sendHeaderField_cases {name : FieldName} {arg : Arg} (h : req.sendHeaderField name arg = some (ret, req')) :
    (req.state ≠ .sendFields ∧ ret = efatal ∧ req' = req.fail) ∨
      (req.state = .sendFields ∧
        ((renderFieldLine 256 name arg = some none ∧ ret = efatal ∧ req' = req.fail) ∨
          ∃ line r t, renderFieldLine 256 name arg = some (some line) ∧ req.sock.send line = some (r, t) ∧
            ((∃ ec, r = .error ec ∧ ret = efatal ∧ req' = (req.use t).fail) ∨
              ∃ n, r = .ok n ∧ ret = 0 ∧ req' = req.use t))) := by
  unfold Request.sendHeaderField at h
  by_cases hs : req.state = .sendFields
  · rw [Request.require_of_eq hs, if_neg (by rw [hs]; decide)] at h
    refine Or.inr ⟨hs, ?_⟩
    split at h
    · cases h
    · rename_i hline
      cases h
      exact Or.inl ⟨hline, rfl, rfl⟩
    · rename_i line hline
      split at h
      · cases h
      · rename_i ec t hsend
        cases h
        exact Or.inr ⟨line, _, t, hline, hsend, Or.inl ⟨ec, rfl, rfl, rfl⟩⟩
      · rename_i n t hsend
        cases h
        exact Or.inr ⟨line, _, t, hline, hsend, Or.inr ⟨n, rfl, rfl, rfl⟩⟩
  · rw [Request.require_of_ne hs] at h
    cases h
    exact Or.inl ⟨hs, rfl, rfl⟩

theorem endHeader_cases (h : req.endHeader = some (ret, req')) :
    (req.state ≠ .sendFields ∧ ret = efatal ∧ req' = req.fail) ∨
      (req.state = .sendFields ∧ ∃ r t, req.sock.send crlf = some (r, t) ∧
        ((∃ ec, r = .error ec ∧ ret = efatal ∧ req' = (req.use t).fail) ∨
          ∃ n, r = .ok n ∧ req' = { req.use t with state := if req.respBleft ≠ 0 then .sendBody else .done })) := by
  unfold Request.endHeader at h
  by_cases hs : req.state = .sendFields
  · rw [Request.require_of_eq hs, if_neg (by rw [hs]; decide)] at h
    refine Or.inr ⟨hs, ?_⟩
    split at h
    · cases h
    · rename_i ec t hsend
      cases h
      exact ⟨_, t, hsend, Or.inl ⟨ec, rfl, rfl, rfl⟩⟩
    · rename_i n t hsend
      cases h
      exact ⟨_, t, hsend, Or.inr ⟨n, rfl, rfl⟩⟩
  · rw [Request.require_of_ne hs] at h
    cases h
    exact Or.inl ⟨hs, rfl, rfl⟩

theorem sendBody_cases {bytes : List UInt8} (h : req.sendBody bytes = some (ret, req')) :
    (req.state ≠ .sendBody ∧ ret = efatal ∧ req' = req.fail) ∨
      (req.state = .sendBody ∧
        (req' = req ∨
          (bytes.length ≤ req.respBleft ∧ ∃ r t, req.sock.send bytes = some (r, t) ∧
            ((∃ ec, r = .error ec ∧ ret = efatal ∧ req' = (req.use t).fail) ∨
              ∃ n, r = .ok n ∧ req' = req.gave t n)))) := by
  unfold Request.sendBody at h
  by_cases hs : req.state = .sendBody
  · rw [Request.require_of_eq hs, if_neg (by rw [hs]; decide)] at h
    refine Or.inr ⟨hs, ?_⟩
    split at h
    · cases h
      exact Or.inl rfl
    · split at h
      · cases h
        exact Or.inl rfl
      · rename_i hle
        refine Or.inr ⟨by omega, ?_⟩
        split at h
        · cases h
        · rename_i ec t hsend
          cases h
          exact ⟨_, t, hsend, Or.inl ⟨ec, rfl, rfl, rfl⟩⟩
        · rename_i n t hsend
          cases h
          refine ⟨_, t, hsend, Or.inr ⟨n, rfl, ?_⟩⟩
          dsimp only
          by_cases hleft : req.respBleft - n = 0
          · rw [if_pos hleft, Request.gave, if_pos hleft]
          · rw [if_neg hleft, Request.gave, if_neg hleft]
            rfl
  · rw [Request.require_of_ne hs] at h
    cases h
    exact Or.inl ⟨hs, rfl, rfl⟩

/-! ### Statuses -/

/-- Fields one after the other, whatever becomes of them. -/
def sendAll : List (FieldName × Arg) → Request → Option Request
  | [], req => some req
  | field :: fields, req => (req.sendHeaderField field.1 field.2).bind fun r => sendAll fields r.2

/-- The four fields behind a status line. -/
def basicFields (resSize : Nat) : List (FieldName × Arg) :=
  [(.contentLength, .int (BitVec.ofNat 32 resSize)), (.server, .str (ascii "uHTTP")),
    (.connection, .str (ascii "keep-alive")), (.accessControlAllowOrigin, .str (ascii "*"))]

theorem sendStatus_eq {code : StatusCode} {spec : BitVec 32 × List UInt8} (resSize : Nat) (hs : req.state ≠ .error)
    (hcode : getStatusCodeSpec code = some spec) {n : Nat} {t : Sock}
    (hsend : req.sock.send (printed 32 (statusLine spec)) = some (.ok n, t)) :
    req.sendStatus code resSize = (sendAll (basicFields resSize) { req.use t with state := .sendFields }).map
      fun req => (0, { req with respBleft := resSize, state := .sendFields }) := by
  rw [Request.sendStatus, if_neg hs, hcode]
  dsimp only
  rw [hsend]
  dsimp only [sendAll, basicFields]
  cases Request.sendHeaderField _ _ _ with
  | none => rfl
  | some r1 =>
      dsimp only [Option.bind_eq_bind, Option.bind_some]
      cases Request.sendHeaderField _ _ _ with
      | none => rfl
      | some r2 =>
          dsimp only [Option.bind_some]
          cases Request.sendHeaderField _ _ _ with
          | none => rfl
          | some r3 =>
              dsimp only [Option.bind_some]
              cases Request.sendHeaderField _ _ _ with
              | none => rfl
              | some r4 => rfl

theorem sendStatus_cases {code : StatusCode} {resSize : Nat} (h : req.sendStatus code resSize = some (ret, req')) :
    (req.state = .error ∧ ret = efatal ∧ req' = req) ∨
      (req.state ≠ .error ∧ ∃ spec r t, getStatusCodeSpec code = some spec ∧
        req.sock.send (printed 32 (statusLine spec)) = some (r, t) ∧
        ((∃ ec, r = .error ec ∧ ret = efatal ∧ req' = (req.use t).fail) ∨
          ∃ n req1, r = .ok n ∧ ret = 0 ∧
            sendAll (basicFields resSize) { req.use t with state := .sendFields } = some req1 ∧
            req' = { req1 with respBleft := resSize, state := .sendFields })) := by
  by_cases hs : req.state = .error
  · rw [Request.sendStatus, if_pos hs] at h
    cases h
    exact Or.inl ⟨hs, rfl, rfl⟩
  · refine Or.inr ⟨hs, ?_⟩
    cases hcode : getStatusCodeSpec code with
    | none =>
        rw [Request.sendStatus, if_neg hs, hcode] at h
        cases h
    | some spec =>
        refine ⟨spec, ?_⟩
        cases hsend : req.sock.send (printed 32 (statusLine spec)) with
        | none =>
            rw [Request.sendStatus, if_neg hs, hcode] at h
            dsimp only at h
            rw [hsend] at h
            cases h
        | some p =>
            obtain ⟨r, t⟩ := p
            refine ⟨r, t, rfl, rfl, ?_⟩
            cases r with
            | error ec =>
                rw [Request.sendStatus, if_neg hs, hcode] at h
                dsimp only at h
                rw [hsend] at h
                cases h
                exact Or.inl ⟨ec, rfl, rfl, rfl⟩
            | ok n =>
                rw [sendStatus_eq resSize hs hcode hsend] at h
                obtain ⟨req1, h1, ⟨⟩⟩ := Option.map_eq_some_iff.1 h
                exact Or.inr ⟨n, req1, rfl, rfl, h1, rfl⟩

/-! ### What is sent is not received -/

theorem sendHeaderField_keeps {name : FieldName} {arg : Arg} (h : req.sendHeaderField name arg = some (ret, req')) :
    req.sock.SameReceiving req'.sock ∧ (req'.state = .error ∨ req.state = .sendFields ∧ req'.state = .sendFields) := by
  obtain ⟨-, -, rfl⟩ | ⟨hs, ⟨-, -, rfl⟩ | ⟨line, r, t, -, hsend, ⟨ec, -, -, rfl⟩ | ⟨n, -, -, rfl⟩⟩⟩ :=
    sendHeaderField_cases h
  · exact ⟨⟨rfl, rfl, rfl⟩, Or.inl rfl⟩
  · exact ⟨⟨rfl, rfl, rfl⟩, Or.inl rfl⟩
  · exact ⟨Sock.send_keeps hsend, Or.inl rfl⟩
  · exact ⟨Sock.send_keeps hsend, Or.inr ⟨hs, hs⟩⟩

theorem sendAll_keeps {fields : List (FieldName × Arg)} (h : sendAll fields req = some req') :
    req.sock.SameReceiving req'.sock := by
  induction fields generalizing req with
  | nil =>
      cases h
      exact ⟨rfl, rfl, rfl⟩
  | cons field fields ih =>
      obtain ⟨⟨r, req1⟩, h1, h⟩ := Option.bind_eq_some_iff.1 h
      exact (sendHeaderField_keeps h1).1.trans (ih h)

theorem sendStatus_keeps {code : StatusCode} {resSize : Nat} (h : req.sendStatus code resSize = some (ret, req')) :
    req.sock.SameReceiving req'.sock ∧ (req'.state = .error ∨ req.state ≠ .error ∧ req'.state = .sendFields) := by
  obtain ⟨hs, -, rfl⟩ | ⟨hs, spec, r, t, -, hsend, ⟨ec, -, -, rfl⟩ | ⟨n, req1, -, -, hall, rfl⟩⟩ := sendStatus_cases h
  · exact ⟨⟨rfl, rfl, rfl⟩, Or.inl hs⟩
  · exact ⟨Sock.send_keeps hsend, Or.inl rfl⟩
  · exact ⟨(Sock.send_keeps hsend).trans (sendAll_keeps hall), Or.inr ⟨hs, rfl⟩⟩

theorem endHeader_keeps (h : req.endHeader = some (ret, req')) :
    req.sock.SameReceiving req'.sock ∧
      (req'.state = .error ∨ req.state = .sendFields ∧ (req'.state = .sendBody ∨ req'.state = .done)) := by
  obtain ⟨-, -, rfl⟩ | ⟨hs, r, t, hsend, ⟨ec, -, -, rfl⟩ | ⟨n, -, rfl⟩⟩ := endHeader_cases h
  · exact ⟨⟨rfl, rfl, rfl⟩, Or.inl rfl⟩
  · exact ⟨Sock.send_keeps hsend, Or.inl rfl⟩
  · refine ⟨Sock.send_keeps hsend, Or.inr ⟨hs, ?_⟩⟩
    show (if _ then HttpState.sendBody else .done) = _ ∨ (if _ then HttpState.sendBody else .done) = _
    split <;> simp

theorem sendBody_keeps {bytes : List UInt8} (h : req.sendBody bytes = some (ret, req')) :
    req.sock.SameReceiving req'.sock ∧
      (req'.state = .error ∨ req.state = .sendBody ∧ (req'.state = .sendBody ∨ req'.state = .done)) := by
  obtain ⟨-, -, rfl⟩ | ⟨hs, rfl | ⟨-, r, t, hsend, ⟨ec, -, -, rfl⟩ | ⟨n, -, rfl⟩⟩⟩ := sendBody_cases h
  · exact ⟨⟨rfl, rfl, rfl⟩, Or.inl rfl⟩
  · exact ⟨⟨rfl, rfl, rfl⟩, Or.inr ⟨hs, Or.inl hs⟩⟩
  · exact ⟨Sock.send_keeps hsend, Or.inl rfl⟩
  · refine ⟨Sock.send_keeps hsend, Or.inr ⟨hs, ?_⟩⟩
    show (if _ then HttpState.done else req.state) = _ ∨ (if _ then HttpState.done else req.state) = _
    rw [hs]
    split <;> simp

end Calls

end Http

end YieldStm32
