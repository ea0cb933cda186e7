import YieldStm32.Lib.Run
import YieldStm32.Net.Http.Calls

/-!
# The error state

* `Absorbs` : after a call that comes to the error state, or starts in it, the request is in it, and the socket has not been
  used since;
* `Revives` : a status whose line is sent and one of whose four fields is not;
* `absorbing_iff` : the runs of calls in which the error state is absorbing.
-/

namespace YieldStm32

namespace Http

open Stdio Transition

/-- One call of a run. -/
def step (req : Request) (call : Call) : Option Request := (call.exec req).map Prod.snd

/-- The error state is never left, and the calls that find it, or come to it, do nothing more. -/
def Absorbs (req : Request) (call : Call) (req' : Request) : Prop :=
  ∃ ret, call.exec req = some (ret, req') ∧ (req'.failed → req'.state = .error) ∧ req'.late = req.late ∧
    (req.failed → ret < 0 ∧ req'.sock = req.sock)

def SendResult.fails : SendResult → Bool
  | .ok _ => false
  | .error .. => true

/-- One of the next `n` sends fails. -/
def Breaks (sends : List SendResult) (n : Nat) : Prop := ∃ result ∈ sends.take n, result.fails = true

instance (sends : List SendResult) (n : Nat) : Decidable (Breaks sends n) :=
  inferInstanceAs (Decidable (∃ result ∈ sends.take n, result.fails = true))

/-- The status line is sent, and then one of the four fields behind it is not. -/
def Revives (req : Request) : Call → Prop
  | .sendStatus code _ => req.state ≠ .error ∧ code ≠ .unknown ∧
      ∃ short sends, req.sock.sends = .ok short :: sends ∧ Breaks sends 4
  | _ => False

instance (req : Request) : ∀ call, Decidable (Revives req call)
  | .sendStatus .. =>
      match h : req.sock.sends with
      | .ok short :: sends =>
          decidable_of_iff (req.state ≠ .error ∧ _ ≠ StatusCode.unknown ∧ Breaks sends 4)
            ⟨fun ⟨hs, hc, hb⟩ => ⟨hs, hc, short, sends, h, hb⟩,
              fun ⟨hs, hc, _, _, h', hb⟩ => ⟨hs, hc, by cases h.symm.trans h'; exact hb⟩⟩
      | [] => isFalse fun ⟨_, _, _, _, h', _⟩ => by cases h.symm.trans h'
      | .error .. :: _ => isFalse fun ⟨_, _, _, _, h', _⟩ => by cases h.symm.trans h'
  | .readHeaderField => isFalse id
  | .readBody .. => isFalse id
  | .sendHeaderField .. => isFalse id
  | .endHeader => isFalse id
  | .sendBody _ => isFalse id

section Calls

variable {req req' : Request} {ret : Int}

/-- `failed` tells the error state. -/
def Marked (req : Request) : Prop := req.failed = true ↔ req.state = .error

/-- A call that leaves the error state alone. -/
def Tame (req : Request) (ret : Int) (req' : Request) : Prop :=
  Marked req' ∧ req'.late = req.late ∧ (req.failed = true → ret < 0 ∧ req'.sock = req.sock)

theorem marked_fail (req : Request) : Marked req.fail := ⟨fun _ => rfl, fun _ => rfl⟩

/-- A call in a state it is not for. -/
theorem Tame.refused (req : Request) : Tame req efatal req.fail := ⟨marked_fail req, rfl, fun _ => ⟨by decide, rfl⟩⟩

/-- A request in another state has not failed. -/
theorem Marked.running (h : Marked req) {state : HttpState} (hs : req.state = state) (hne : state ≠ .error) :
    req.failed = false := by
  rw [Bool.eq_false_iff]
  intro hf
  exact hne (hs ▸ h.1 hf)

/-- A call that fails on the way. -/
theorem Tame.failing (hf : req.failed = false) (h : req'.late = req.late) : Tame req ret req'.fail :=
  ⟨marked_fail req', h, fun h => absurd h (by rw [hf]; decide)⟩

theorem Tame.running (hf : req.failed = false) (hf' : req'.failed = false) (hs : req'.state ≠ .error)
    (h : req'.late = req.late) : Tame req ret req' :=
  ⟨⟨fun h => absurd h (by rw [hf']; decide), fun h => absurd h hs⟩, h, fun h => absurd h (by rw [hf]; decide)⟩

theorem Tame.taking (hs : req'.state ≠ .error) (hf : req.failed = false) (hf' : req'.failed = false)
    (h : req'.late = req.late) {field : Field} : Tame req ret (req'.take field) := by
  obtain ⟨hfail, hstate, hlate, -⟩ := Request.take_keeps req' field
  exact Tame.running hf (hfail.trans hf') (by rwa [hstate]) (hlate.trans h)

theorem readHeaderField_tame {field : Option Field} (hm : Marked req)
    (h : req.readHeaderField = some (ret, field, req')) : Tame req ret req' := by
  obtain ⟨-, rfl, rfl⟩ | ⟨hs, r, line, t, len, -, hcases⟩ := readHeaderField_cases h
  · exact Tame.refused req
  · have hf := hm.running hs (by decide)
    have hgot : (req.got t line len).state ≠ .error := by
      show req.state ≠ _
      rw [hs]
      decide
    have hlate : (req.got t line len).late = req.late := Request.use_late hf t
    rcases hcases with ⟨-, rfl⟩ | ⟨-, rfl⟩ | ⟨ec, field, -, -, rfl⟩ | ⟨n, field, -, -, -, rfl⟩
    · exact Tame.failing hf hlate
    · refine Tame.running hf hf ?_ hlate
      show (if _ then HttpState.readBody else HttpState.sendStatus) ≠ _
      split <;> decide
    · exact Tame.taking hgot hf hf hlate
    · exact Tame.taking hgot hf hf hlate

theorem readBody_tame {stored : Bool} {size : Nat} {out : List UInt8} (hm : Marked req)
    (h : req.readBody stored size = some (ret, out, req')) : Tame req ret req' := by
  obtain ⟨-, rfl, rfl⟩ | ⟨hs, ⟨-, rfl⟩ | ⟨r, t, -, ⟨-, -, rfl⟩ | ⟨bytes, -, rfl⟩⟩⟩ := readBody_cases h
  · exact Tame.refused req
  · exact Tame.running (hm.running hs (by decide)) (hm.running hs (by decide)) (by rw [hs]; decide) rfl
  · have hf := hm.running hs (by decide)
    exact Tame.failing hf (Request.use_late hf t)
  · have hf := hm.running hs (by decide)
    refine Tame.running hf hf ?_ (Request.use_late hf t)
    show (if _ then HttpState.sendStatus else req.state) ≠ _
    rw [hs]
    split <;> decide

theorem sendHeaderField_tame {name : FieldName} {arg : Arg} (hm : Marked req)
    (h : req.sendHeaderField name arg = some (ret, req')) : Tame req ret req' := by
  obtain ⟨-, rfl, rfl⟩ | ⟨hs, ⟨-, -, rfl⟩ | ⟨line, r, t, -, -, ⟨ec, -, -, rfl⟩ | ⟨n, -, -, rfl⟩⟩⟩ :=
    sendHeaderField_cases h
  · exact Tame.refused req
  · exact Tame.failing (hm.running hs (by decide)) rfl
  · have hf := hm.running hs (by decide)
    exact Tame.failing hf (Request.use_late hf t)
  · have hf := hm.running hs (by decide)
    exact Tame.running hf hf (by rw [Request.use_state, hs]; decide) (Request.use_late hf t)

theorem endHeader_tame (hm : Marked req) (h : req.endHeader = some (ret, req')) : Tame req ret req' := by
  obtain ⟨-, rfl, rfl⟩ | ⟨hs, r, t, -, ⟨ec, -, -, rfl⟩ | ⟨n, -, rfl⟩⟩ := endHeader_cases h
  · exact Tame.refused req
  · have hf := hm.running hs (by decide)
    exact Tame.failing hf (Request.use_late hf t)
  · have hf := hm.running hs (by decide)
    refine Tame.running hf hf ?_ (Request.use_late hf t)
    show (if _ then HttpState.sendBody else HttpState.done) ≠ _
    split <;> decide

theorem sendBody_tame {bytes : List UInt8} (hm : Marked req) (h : req.sendBody bytes = some (ret, req')) :
    Tame req ret req' := by
  obtain ⟨-, rfl, rfl⟩ | ⟨hs, rfl | ⟨-, r, t, -, ⟨ec, -, -, rfl⟩ | ⟨n, -, rfl⟩⟩⟩ := sendBody_cases h
  · exact Tame.refused req
  · exact Tame.running (hm.running hs (by decide)) (hm.running hs (by decide)) (by rw [hs]; decide) rfl
  · have hf := hm.running hs (by decide)
    exact Tame.failing hf (Request.use_late hf t)
  · have hf := hm.running hs (by decide)
    refine Tame.running hf hf ?_ (Request.use_late hf t)
    show (if _ then HttpState.done else req.state) ≠ _
    rw [hs]
    split <;> decide

/-! ### Statuses -/

/-- A field that is rendered, short enough to be sent. -/
def Renders (field : FieldName × Arg) : Prop :=
  ∃ line, renderFieldLine 256 field.1 field.2 = some (some line) ∧ line.length < 2 ^ 31

theorem length_printed (size : Nat) (text : List UInt8) : (printed size text).length ≤ size - 1 := by
  rw [printed, List.length_take]
  exact Nat.min_le_left ..

theorem renders_basicFields (resSize : Nat) : ∀ field ∈ basicFields resSize, Renders field := by
  intro field hf
  simp only [basicFields, List.mem_cons, List.not_mem_nil, or_false] at hf
  rcases hf with rfl | rfl | rfl | rfl <;> exact ⟨_, rfl, Nat.lt_of_le_of_lt (length_printed ..) (by decide)⟩

/-- Behind a field that was not sent no other is. -/
theorem sendAll_stopped (fields : List (FieldName × Arg)) (hs : req.state = .error) :
    ∃ req', sendAll fields req = some req' ∧ req'.state = .error ∧ (req.failed = true → req'.failed = true) ∧
      req'.late = req.late := by
  induction fields generalizing req with
  | nil => exact ⟨req, rfl, hs, id, rfl⟩
  | cons field fields ih =>
      have hcall : req.sendHeaderField field.1 field.2 = some (efatal, req.fail) := by
        rw [Request.sendHeaderField, Request.require_of_ne (by rw [hs]; decide)]
        rfl
      rw [sendAll, hcall, Option.bind_some]
      obtain ⟨req', h, hs', hf', hl'⟩ := ih (Request.fail_state req)
      exact ⟨req', h, hs', fun _ => hf' rfl, hl'⟩

/-- A field that is rendered. -/
theorem sendHeaderField_eq {name : FieldName} {arg : Arg} {line : List UInt8} (hs : req.state = .sendFields)
    (hline : renderFieldLine 256 name arg = some (some line)) :
    req.sendHeaderField name arg = match req.sock.send line with
      | none => none
      | some (.error _, t) => some (efatal, (req.use t).fail)
      | some (.ok _, t) => some (0, req.use t) := by
  rw [Request.sendHeaderField, Request.require_of_eq hs, hline]
  exact if_neg (by rw [hs]; decide)

/-- Fields one after the other stop at the first send that fails. -/
theorem sendAll_going {fields : List (FieldName × Arg)} (hr : ∀ field ∈ fields, Renders field)
    (hs : req.state = .sendFields) :
    (sendAll fields req = none ∧ ¬ Breaks req.sock.sends fields.length) ∨
      ∃ req', sendAll fields req = some req' ∧ (req.failed = false → req'.late = req.late) ∧
        ((req'.state = .error ∧ req'.failed = true ∧ Breaks req.sock.sends fields.length) ∨
          (req'.state = .sendFields ∧ req'.failed = req.failed ∧ ¬ Breaks req.sock.sends fields.length)) := by
  induction fields generalizing req with
  | nil =>
      refine Or.inr ⟨req, rfl, fun _ => rfl, Or.inr ⟨hs, rfl, ?_⟩⟩
      rintro ⟨result, h, -⟩
      cases h
  | cons field fields ih =>
      obtain ⟨line, hline, hlen⟩ := hr field (List.mem_cons_self ..)
      rw [sendAll, sendHeaderField_eq hs hline, List.length_cons]
      cases hsends : req.sock.sends with
      | nil =>
          rw [Sock.send_nil line hsends]
          refine Or.inl ⟨rfl, ?_⟩
          rintro ⟨result, h, -⟩
          cases h
      | cons result sends =>
          cases result with
          | error ec n =>
              rw [Sock.send_error line hsends]
              obtain ⟨req', h, hs', hf', hl'⟩ :=
                sendAll_stopped fields (Request.fail_state (req.use (req.sock.sent sends (line.take n))))
              refine Or.inr ⟨req', h, fun hf => hl'.trans (Request.use_late hf _), Or.inl ⟨hs', hf' rfl, ?_⟩⟩
              exact ⟨.error ec n, List.mem_cons_self .., rfl⟩
          | ok short =>
              rw [Sock.send_ok hsends hlen]
              have hbreaks : Breaks (.ok short :: sends) (fields.length + 1) ↔ Breaks sends fields.length := by
                simp [Breaks, SendResult.fails]
              rw [hbreaks]
              obtain ⟨h, hb⟩ | ⟨req', h, hl', hcases⟩ :=
                @ih (req.use (req.sock.sent sends (line.take (line.length - short))))
                  (fun f hf => hr f (List.mem_cons_of_mem _ hf)) hs
              · exact Or.inl ⟨h, hb⟩
              · exact Or.inr ⟨req', h, fun hf => (hl' hf).trans (Request.use_late hf _), hcases⟩

/-- A status line that is sent is followed by its fields, and the state by that of the fields. -/
theorem sendStatus_going {code : StatusCode} (resSize : Nat) {short : Nat} {sends : List SendResult} (hs : req.state ≠ .error)
    (hf : req.failed = false) (hcode : code ≠ .unknown) (hsends : req.sock.sends = .ok short :: sends) :
    (req.sendStatus code resSize = none ∧ ¬ Breaks sends 4) ∨
      ∃ req', req.sendStatus code resSize = some (0, req') ∧ req'.state = .sendFields ∧ req'.late = req.late ∧
        (req'.failed = true ↔ Breaks sends 4) := by
  obtain ⟨spec, hspec⟩ : ∃ spec, getStatusCodeSpec code = some spec := by
    cases code with
    | unknown => exact absurd rfl hcode
    | _ => exact ⟨_, rfl⟩
  have hlen : (printed 32 (statusLine spec)).length < 2 ^ 31 := Nat.lt_of_le_of_lt (length_printed ..) (by decide)
  obtain ⟨t, rfl, hsend⟩ : ∃ t : Sock, t.sends = sends ∧
      req.sock.send (printed 32 (statusLine spec)) = some (.ok _, t) := ⟨_, rfl, Sock.send_ok hsends hlen⟩
  rw [sendStatus_eq resSize hs hspec hsend]
  obtain ⟨h, hb⟩ | ⟨req', h, hl', hcases⟩ :=
    @sendAll_going { req.use t with state := .sendFields } _ (renders_basicFields resSize) rfl
  · rw [h]
    exact Or.inl ⟨rfl, hb⟩
  · rw [h]
    refine Or.inr ⟨{ req' with respBleft := resSize, state := .sendFields }, rfl, rfl,
      (hl' hf).trans (Request.use_late hf _), ?_⟩
    obtain ⟨-, hfail, hb⟩ | ⟨-, hfail, hb⟩ := hcases
    · exact ⟨fun _ => hb, fun _ => hfail⟩
    · exact ⟨fun h => absurd (hfail.symm.trans h) (by rw [Request.use_failed, hf]; decide), fun h => absurd h hb⟩

/-- A status whose line is not sent. -/
theorem sendStatus_tame {code : StatusCode} {resSize : Nat} (hm : Marked req)
    (hline : req.state = .error ∨ ∀ short sends, req.sock.sends ≠ .ok short :: sends)
    (h : req.sendStatus code resSize = some (ret, req')) : Tame req ret req' := by
  obtain ⟨hs, rfl, rfl⟩ | ⟨hs, spec, r, t, -, hsend, ⟨ec, -, -, rfl⟩ | ⟨n, req1, rfl, -⟩⟩ := sendStatus_cases h
  · exact ⟨hm, rfl, fun _ => ⟨by decide, rfl⟩⟩
  · have hf : req.failed = false := by
      rw [Bool.eq_false_iff]
      exact fun hf => hs (hm.1 hf)
    exact Tame.failing hf (Request.use_late hf t)
  · cases hsends : req.sock.sends with
    | nil =>
        rw [Sock.send_nil _ hsends] at hsend
        cases hsend
    | cons result sends =>
        cases result with
        | ok short => exact absurd hsends ((hline.resolve_left hs) short sends)
        | error ec n =>
            rw [Sock.send_error _ hsends] at hsend
            cases hsend

/-- What a call does to the error state. -/
theorem exec_cases {call : Call} (hm : Marked req) (h : call.exec req = some (ret, req')) :
    (¬ Revives req call ∧ Tame req ret req') ∨
      (Revives req call ∧ req'.failed = true ∧ req'.state = .sendFields) := by
  cases call with
  | readHeaderField =>
      obtain ⟨⟨r, field, s⟩, hr, ⟨⟩⟩ := Option.map_eq_some_iff.1 h
      exact Or.inl ⟨id, readHeaderField_tame hm hr⟩
  | readBody stored size =>
      obtain ⟨⟨r, out, s⟩, hr, ⟨⟩⟩ := Option.map_eq_some_iff.1 h
      exact Or.inl ⟨id, readBody_tame hm hr⟩
  | sendHeaderField name arg => exact Or.inl ⟨id, sendHeaderField_tame hm h⟩
  | endHeader => exact Or.inl ⟨id, endHeader_tame hm h⟩
  | sendBody bytes => exact Or.inl ⟨id, sendBody_tame hm h⟩
  | sendStatus code resSize =>
      by_cases hline : req.state = .error ∨ ∀ short sends, req.sock.sends ≠ .ok short :: sends
      · refine Or.inl ⟨?_, sendStatus_tame hm hline h⟩
        rintro ⟨hs, -, short, sends, hsends, -⟩
        exact (hline.resolve_left hs) short sends hsends
      · simp only [not_or, not_forall, Classical.not_not] at hline
        obtain ⟨hs, short, sends, hsends⟩ := hline
        have hf : req.failed = false := by
          rw [Bool.eq_false_iff]
          exact fun hf => hs (hm.1 hf)
        have hcode : code ≠ .unknown := by
          rintro rfl
          rw [Call.exec, Request.sendStatus, if_neg hs] at h
          cases h
        obtain ⟨hnone, -⟩ | ⟨r, hr, hstate, hlate, hfail⟩ :=
          sendStatus_going resSize hs hf hcode hsends
        · rw [Call.exec, hnone] at h
          cases h
        · rw [Call.exec, hr] at h
          cases h
          by_cases hb : Breaks sends 4
          · exact Or.inr ⟨⟨hs, hcode, short, sends, hsends, hb⟩, hfail.2 hb, hstate⟩
          · refine Or.inl ⟨?_, ?_⟩
            · rintro ⟨-, -, short', sends', hsends', hb'⟩
              obtain ⟨-, rfl⟩ := List.cons.inj (hsends.symm.trans hsends')
              exact hb hb'
            · have hf' : req'.failed = false := by
                rw [Bool.eq_false_iff]
                exact fun h => hb (hfail.1 h)
              exact Tame.running hf hf' (by rw [hstate]; decide) hlate

/-- A call that does not return does not bring the request back. -/
theorem not_revives_of_none {call : Call} (hm : Marked req) (h : call.exec req = none) : ¬ Revives req call := by
  intro hr
  cases call with
  | sendStatus code resSize =>
      obtain ⟨hs, hcode, short, sends, hsends, hb⟩ := hr
      have hf : req.failed = false := by
        rw [Bool.eq_false_iff]
        exact fun hf => hs (hm.1 hf)
      obtain ⟨-, hnot⟩ | ⟨r, hr, -⟩ := sendStatus_going resSize hs hf hcode hsends
      · exact hnot hb
      · rw [Call.exec, hr] at h
        cases h
  | _ => exact hr

end Calls

/-- For one call. -/
theorem absorbs_iff {req req' : Request} {call : Call} (hm : Marked req) (h : step req call = some req') :
    (Absorbs req call req' ↔ ¬ Revives req call) ∧ (¬ Revives req call → Marked req') := by
  obtain ⟨⟨ret, r⟩, hr, ⟨⟩⟩ := Option.map_eq_some_iff.1 h
  obtain ⟨hnot, hm', hlate, hret⟩ | ⟨hrev, hfail, hstate⟩ := exec_cases hm hr
  · exact ⟨⟨fun _ => hnot, fun _ => ⟨ret, hr, hm'.1, hlate, hret⟩⟩, fun _ => hm'⟩
  · refine ⟨⟨?_, fun hnot => absurd hrev hnot⟩, fun hnot => absurd hrev hnot⟩
    rintro ⟨-, -, herror, -⟩
    rw [herror hfail] at hstate
    cases hstate

/-- A request whose header was empty. -/
def answering (sends : List SendResult) : Request :=
  { sock := ⟨[], [], sends, [], 0, 0⟩, method := .get, line := fun _ => 0, lineLen := 0, url := ascii "/", state := .sendStatus }

/-- **The error state is absorbing**, whatever is called and whatever the socket answers, exactly in the runs in which no
status loses one of its fields behind a status line that was sent. -/
theorem absorbing_iff (req : Request) (calls : List Call) (hm : req.failed = true ↔ req.state = .error) :
    Along step Absorbs req calls ↔ Meets step (fun req call => ¬ Revives req call) req calls := by
  apply along_iff_meets (I := Marked)
  · intro s call hs hn
    exact not_revives_of_none hs (Option.map_eq_none_iff.1 hn)
  · intro s call s' hs h
    exact absorbs_iff hs h
  · exact hm

/-- A body before its status, and the status then. -/
theorem absorbing_iff_early : Along step Absorbs (answering [.ok 0, .error (-1) 0]) [.sendBody [1], .sendStatus .ok 0] :=
  (absorbing_iff _ _ ⟨fun h => (by cases h), fun h => (by cases h)⟩).2 (by decide)

/-- The field behind the status line is not sent, and the empty line at the header's end is. -/
theorem not_absorbing_status :
    ¬ Along step Absorbs (answering [.ok 0, .error (-1) 0, .ok 0]) [.sendStatus .ok 0, .endHeader] := by
  intro h
  obtain ⟨⟨ret, hr, herror, -⟩, -⟩ := h _ rfl
  have hstate := herror rfl
  cases hstate

end Http

end YieldStm32
