import YieldStm32.Lib.Run
import YieldStm32.Net.Http.Absorbing
import YieldStm32.Sys.Sem
import YieldStm32.Www.Ffs
import YieldStm32.Www.MimeType

/-!
# Serving files (`HTTPSrvWebsite_CallbackFiles` in `www/src/website.c`)

* `callbackFiles` : the callback, on the pool of open files and `fbuf_sem`;
* `Visit`, `step` : one request after the other, each with the outcomes of its sends;
* `takeOks`, `statusLeft` : what the calls before the body use of the sends;
* `sendFile_spec` : when the loop over the file gives up;
* `keepsHandles_iff` : the runs in which no entry is lost.
-/

namespace YieldStm32.Website

open Stdio Transition
open Http (Request SendResult FieldName Arg StatusCode Breaks sendAll)

/-! ## The callback -/

/-- `fpool`, and `fbuf_sem`. -/
structure Site where
  pool : Ffs.FilePool
  sem : BitVec 8

/-- A request to be answered by a task; `url` is where its URL stands in memory, `index` where `"/index.html"` does. -/
structure Visit where
  task : Sem.TaskId
  req : Request
  mem : Nat → UInt8
  url : Nat
  index : Nat

namespace Visit

variable (v : Visit)

/-- `fname` -/
def fname : List UInt8 := if v.req.url = ascii "/" then ascii "/index.html" else v.req.url

/-- `HTTPSrvWebsite_GetMimeTypeForFileExt(fname)` -/
def mimeType : Option (List UInt8) :=
  (getMimeTypeForFileExt v.mem (if v.req.url = ascii "/" then v.index else v.url) v.fname.length).val

end Visit

/-- The status, and two fields behind it. -/
def sendHead (code : StatusCode) (fsize : Nat) (req : Request) : Option Request :=
  (req.sendStatus code fsize).bind fun r =>
    sendAll [(.accessControlAllowOrigin, .str (ascii "*")), (.connection, .str (ascii "close"))] r.2

/-- The rest of the header; the type is looked up when the encoding was sent. -/
def sendRest (gzipped : Bool) (mimeType : Option (List UInt8)) (req : Request) : Option (Int × Request) :=
  (sendAll (if gzipped then [(.contentEncoding, .str (ascii "gzip"))] else []) req).bind fun req =>
    mimeType.bind fun mimeType =>
      (sendAll [(.contentType, .str mimeType)] req).bind Request.endHeader

/-- `sizeof(fbuf)` -/
def bufSize : Nat := 1024

/-- The loop over the file; what comes out first is whether it came to its end. -/
def sendFile (fp : Option (Fin 32)) : Nat → Nat → Request → Ffs.FilePool → Option (Bool × Request × Ffs.FilePool)
  | 0, _, req, pool => some (true, req, pool)
  | fuel + 1, fsize, req, pool =>
      if fsize = 0 then some (true, req, pool)
      else
        let chunk := Ffs.read fp bufSize pool
        if chunk.1 ≤ 0 then some (true, req, chunk.2.2)
        else (req.sendBody chunk.2.1).bind fun r =>
          if r.1 < 0 then some (false, r.2, chunk.2.2)
          else sendFile fp fuel (fsize - chunk.2.1.length) r.2 chunk.2.2

/-- `HTTPSrvWebsite_CallbackFiles`. Whichever way the block of `with_sem` is left, the semaphore is released. -/
def callbackFiles (files : List (List Ffs.FileDesc)) (v : Visit) (s : Site) : Option (Int × Request × Site) :=
  let (fp, pool) := Ffs.openFile files v.fname Ffs.modeR v.task.id s.pool
  let fsize := (Ffs.size fp pool).getD 0
  (sendHead (if fp.isSome then .ok else .notFound) fsize v.req).bind fun req =>
    -- `Sem_Lock` waits for another task
    if Sem.Takes (fun _ : Unit => s.sem) v.task () then
      let first := Ffs.read fp 3 pool
      let pool := if first.1 = 3 then (Ffs.seek fp 0 .set first.2.2).2 else first.2.2
      (sendRest (first.1 = 3 ∧ first.2.1 = [0x1f, 0x8b, 0x08]) v.mimeType req).bind fun r =>
        -- `goto end`
        if r.1 ≠ 0 then some (0, r.2, ⟨(Ffs.close fp pool).2, 0⟩)
        else (sendFile fp fsize fsize r.2 pool).map fun b =>
          if b.1 then (0, b.2.1, ⟨(Ffs.close fp b.2.2).2, 0⟩)
          -- `return EFATAL`
          else (Http.efatal, b.2.1, ⟨b.2.2, 0⟩)
    else none

/-- One request after the other. -/
def step (files : List (List Ffs.FileDesc)) (s : Site) (v : Visit) : Option Site := (callbackFiles files v s).map (·.2.2)

/-- As many entries are in use as before, and the semaphore is as it was. -/
def Keeps (s : Site) (_ : Visit) (s' : Site) : Prop := Ffs.openCount s'.pool = Ffs.openCount s.pool ∧ s'.sem = s.sem

/-! ## What the header uses of the sends -/

/-- What is left when `n` sends succeeded. -/
def takeOks : Nat → List SendResult → Option (List SendResult)
  | 0, sends => some sends
  | n + 1, .ok _ :: sends => takeOks n sends
  | _ + 1, _ => none

/-- What is left when there were `n` things to send, up to the first that was not. -/
def takeTo : Nat → List SendResult → Option (List SendResult)
  | 0, sends => some sends
  | n + 1, .ok _ :: sends => takeTo n sends
  | _ + 1, .error .. :: sends => some sends
  | _ + 1, [] => none

/-- What is left when the status line was sent, and the four fields that `UHTTPSrv_SendStatus` does not look after. -/
def statusLeft : List SendResult → Option (List SendResult)
  | .ok _ :: sends => takeTo 4 sends
  | _ => none

/-- How many parts a file is sent in. -/
def chunks (size : Nat) : Nat := (size + (bufSize - 1)) / bufSize

/-- The header is sent, and then a part of the file is not. A file of less than three bytes is not rewound, so that nothing
of it is sent. -/
def PartFails (fd : Ffs.FileDesc) (v : Visit) : Prop :=
  3 ≤ fd.data.length ∧ v.mimeType.isSome = true ∧ v.req.state ≠ .error ∧
    ∃ sends, (statusLeft v.req.sock.sends).bind (takeOks (if fd.data.take 3 = [0x1f, 0x8b, 0x08] then 5 else 4)) = some sends ∧
      Breaks sends (chunks fd.data.length)

/-- The file is opened, and then a part of it is not sent. -/
def BodyFails (files : List (List Ffs.FileDesc)) (s : Site) (v : Visit) : Prop :=
  ∃ fd i, Ffs.Opens files v.fname s.pool fd i ∧ PartFails fd v

/-! ## The header -/

section Header

variable {req req' : Request}

theorem takeOks_add (a b : Nat) (sends : List SendResult) : takeOks (a + b) sends = (takeOks a sends).bind (takeOks b) := by
  induction a generalizing sends with
  | zero => rw [Nat.zero_add, takeOks, Option.bind_some]
  | succ a ih =>
      rw [Nat.succ_add]
      cases sends with
      | nil => rfl
      | cons result sends =>
          cases result with
          | ok short => exact ih sends
          | error ec n => rfl

/-- In the error state nothing is sent. -/
theorem sendAll_error (fields : List (FieldName × Arg)) (hs : req.state = .error) :
    ∃ req', sendAll fields req = some req' ∧ req'.state = .error ∧ req'.sock = req.sock := by
  induction fields generalizing req with
  | nil => exact ⟨req, rfl, hs, rfl⟩
  | cons field fields ih =>
      have hcall : req.sendHeaderField field.1 field.2 = some (Http.efatal, req.fail) := by
        rw [Request.sendHeaderField, Request.require_of_ne (by rw [hs]; decide)]
        rfl
      rw [sendAll, hcall, Option.bind_some]
      exact ih (Request.fail_state req)

/-- A field that is sent, or is not. -/
theorem sendAll_cons_ok {field : FieldName × Arg} (fields : List (FieldName × Arg)) {short : Nat}
    {sends : List SendResult} (hr : Http.Renders field) (hs : req.state = .sendFields)
    (hsends : req.sock.sends = .ok short :: sends) :
    ∃ req1, sendAll (field :: fields) req = sendAll fields req1 ∧ req1.state = .sendFields ∧
      req1.respBleft = req.respBleft ∧ req1.sock.sends = sends := by
  obtain ⟨line, hline, hlen⟩ := hr
  refine ⟨req.use (req.sock.sent sends (line.take (line.length - short))), ?_, hs, rfl, rfl⟩
  rw [sendAll, Http.sendHeaderField_eq hs hline, Http.Sock.send_ok hsends hlen]
  rfl

theorem sendAll_cons_error {field : FieldName × Arg} (fields : List (FieldName × Arg)) {ec : Int} {n : Nat}
    {sends : List SendResult} (hr : Http.Renders field) (hs : req.state = .sendFields)
    (hsends : req.sock.sends = .error ec n :: sends) :
    ∃ req', sendAll (field :: fields) req = some req' ∧ req'.state = .error ∧ req'.sock.sends = sends := by
  obtain ⟨line, hline, hlen⟩ := hr
  obtain ⟨req', h, hs', hsock⟩ := sendAll_error fields (Request.fail_state (req.use (req.sock.sent sends (line.take n))))
  refine ⟨req', ?_, hs', congrArg Http.Sock.sends hsock⟩
  rw [sendAll, Http.sendHeaderField_eq hs hline, Http.Sock.send_error line hsends]
  exact h

theorem sendAll_cons_nil {field : FieldName × Arg} {fields : List (FieldName × Arg)} (hr : Http.Renders field)
    (hs : req.state = .sendFields) (hsends : req.sock.sends = []) : sendAll (field :: fields) req = none := by
  obtain ⟨line, hline, -⟩ := hr
  rw [sendAll, Http.sendHeaderField_eq hs hline, Http.Sock.send_nil line hsends]
  rfl

/-- Fields one after the other, all of which are sent. -/
theorem sendAll_of_takeOks {fields : List (FieldName × Arg)} {sends : List SendResult}
    (hr : ∀ field ∈ fields, Http.Renders field) (hs : req.state = .sendFields)
    (h : takeOks fields.length req.sock.sends = some sends) :
    ∃ req', sendAll fields req = some req' ∧ req'.state = .sendFields ∧ req'.respBleft = req.respBleft ∧
      req'.sock.sends = sends := by
  induction fields generalizing req with
  | nil => exact ⟨req, rfl, hs, rfl, Option.some.inj h⟩
  | cons field fields ih =>
      rw [List.length_cons] at h
      cases hsends : req.sock.sends with
      | nil =>
          rw [hsends] at h
          cases h
      | cons result rest =>
          rw [hsends] at h
          cases result with
          | error ec n => cases h
          | ok short =>
              obtain ⟨req1, heq, hs1, hleft1, hsends1⟩ :=
                sendAll_cons_ok fields (hr field (List.mem_cons_self ..)) hs hsends
              obtain ⟨req', h', hs', hleft', hsends'⟩ :=
                ih (fun f hf => hr f (List.mem_cons_of_mem _ hf)) hs1 (by rw [hsends1]; exact h)
              exact ⟨req', heq.trans h', hs', hleft'.trans hleft1, hsends'⟩

/-- If one of them is not, the request is in the error state. -/
theorem sendAll_of_takeOks_none {fields : List (FieldName × Arg)} (hr : ∀ field ∈ fields, Http.Renders field)
    (hs : req.state = .sendFields) (h : takeOks fields.length req.sock.sends = none) (hsent : sendAll fields req = some req') :
    req'.state = .error := by
  induction fields generalizing req with
  | nil => cases h
  | cons field fields ih =>
      rw [List.length_cons] at h
      cases hsends : req.sock.sends with
      | nil =>
          rw [sendAll_cons_nil (hr field (List.mem_cons_self ..)) hs hsends] at hsent
          cases hsent
      | cons result rest =>
          rw [hsends] at h
          cases result with
          | error ec n =>
              obtain ⟨req1, heq, hs1, -⟩ :=
                sendAll_cons_error fields (hr field (List.mem_cons_self ..)) hs hsends
              obtain rfl := Option.some.inj (heq.symm.trans hsent)
              exact hs1
          | ok short =>
              obtain ⟨req1, heq, hs1, -, hsends1⟩ :=
                sendAll_cons_ok fields (hr field (List.mem_cons_self ..)) hs hsends
              exact ih (fun f hf => hr f (List.mem_cons_of_mem _ hf)) hs1 (by rw [hsends1]; exact h) (heq ▸ hsent)

/-- What fields that nothing looks after leave of the sends. -/
theorem sendAll_takeTo {fields : List (FieldName × Arg)} (hr : ∀ field ∈ fields, Http.Renders field)
    (hs : req.state = .sendFields) : (sendAll fields req).map (·.sock.sends) = takeTo fields.length req.sock.sends := by
  induction fields generalizing req with
  | nil => rfl
  | cons field fields ih =>
      rw [List.length_cons]
      cases hsends : req.sock.sends with
      | nil =>
          rw [sendAll_cons_nil (hr field (List.mem_cons_self ..)) hs hsends]
          rfl
      | cons result rest =>
          cases result with
          | error ec n =>
              obtain ⟨req1, heq, -, hsends1⟩ :=
                sendAll_cons_error fields (hr field (List.mem_cons_self ..)) hs hsends
              rw [heq, Option.map_some, hsends1]
              rfl
          | ok short =>
              obtain ⟨req1, heq, hs1, -, hsends1⟩ :=
                sendAll_cons_ok fields (hr field (List.mem_cons_self ..)) hs hsends
              rw [heq, ih (fun f hf => hr f (List.mem_cons_of_mem _ hf)) hs1, hsends1]
              rfl

/-- The status line is sent. -/
theorem sendStatus_of_left {code : StatusCode} {sends : List SendResult} (fsize : Nat) (hs : req.state ≠ .error)
    (hcode : code ≠ .unknown) (h : statusLeft req.sock.sends = some sends) :
    ∃ req', req.sendStatus code fsize = some (0, req') ∧ req'.state = .sendFields ∧ req'.respBleft = fsize ∧
      req'.sock.sends = sends := by
  obtain ⟨spec, hspec⟩ : ∃ spec, Http.getStatusCodeSpec code = some spec := by
    cases code with
    | unknown => exact absurd rfl hcode
    | _ => exact ⟨_, rfl⟩
  unfold statusLeft at h
  split at h
  · rename_i short rest hsends
    have hlen : (printed 32 (Http.statusLine spec)).length < 2 ^ 31 :=
      Nat.lt_of_le_of_lt (Http.length_printed ..) (by decide)
    obtain ⟨t, rfl, hsend⟩ : ∃ t : Http.Sock, t.sends = rest ∧
        req.sock.send (printed 32 (Http.statusLine spec)) = some (.ok _, t) := ⟨_, rfl, Http.Sock.send_ok hsends hlen⟩
    have hleft : (sendAll (Http.basicFields fsize) { req.use t with state := .sendFields }).map (·.sock.sends) = some sends :=
      (sendAll_takeTo (Http.renders_basicFields fsize) rfl).trans h
    obtain ⟨req1, hall, hsends1⟩ := Option.map_eq_some_iff.1 hleft
    rw [Http.sendStatus_eq fsize hs hspec hsend, hall]
    exact ⟨_, rfl, rfl, rfl, hsends1⟩
  · cases h

/-- The status line is not sent, or the fields behind it take for ever. -/
theorem sendStatus_of_not_left {code : StatusCode} {fsize : Nat} {ec : Int}
    (h : req.state = .error ∨ statusLeft req.sock.sends = none) (hsent : req.sendStatus code fsize = some (ec, req')) :
    req'.state = .error := by
  obtain ⟨hs, -, rfl⟩ | ⟨hs, spec, r, t, hspec, hsend, ⟨_, -, -, rfl⟩ | ⟨n, req1, rfl, -, hall, -⟩⟩ :=
    Http.sendStatus_cases hsent
  · exact hs
  · rfl
  · have hleft := h.resolve_left hs
    cases hsends : req.sock.sends with
    | nil =>
        rw [Http.Sock.send_nil _ hsends] at hsend
        cases hsend
    | cons result sends =>
        cases result with
        | error ec n =>
            rw [Http.Sock.send_error _ hsends] at hsend
            cases hsend
        | ok short =>
            have hlen : (printed 32 (Http.statusLine spec)).length < 2 ^ 31 :=
              Nat.lt_of_le_of_lt (Http.length_printed ..) (by decide)
            obtain ⟨-, ht⟩ := Prod.ext_iff.1 (Option.some.inj ((Http.Sock.send_ok hsends hlen).symm.trans hsend))
            have htsends : t.sends = sends := (congrArg Http.Sock.sends ht).symm
            have hnone : (sendAll (Http.basicFields fsize) { req.use t with state := .sendFields }).map (·.sock.sends) = none := by
              refine (sendAll_takeTo (Http.renders_basicFields fsize) rfl).trans ?_
              rw [hsends] at hleft
              show takeTo 4 t.sends = none
              rw [htsends]
              exact hleft
            rw [hall] at hnone
            cases hnone

/-- Texts that are short when they are rendered. -/
theorem renders_str {name : FieldName} {fs : Http.FieldSpec} (hname : name ≠ .unknown) (hspec : Http.getFieldSpec name = some fs)
    (htype : fs.type = .str) (s : List UInt8) : Http.Renders (name, .str s) := by
  refine ⟨printed 256 (fs.str ++ ascii ": " ++ cstring s ++ Http.crlf), ?_,
    Nat.lt_of_le_of_lt (Http.length_printed ..) (by decide)⟩
  unfold Http.renderFieldLine
  rw [if_neg hname, hspec]
  dsimp only
  rw [htype]

def headFields : List (FieldName × Arg) :=
  [(.accessControlAllowOrigin, .str (ascii "*")), (.connection, .str (ascii "close"))]

theorem renders_headFields : ∀ field ∈ headFields, Http.Renders field := by
  intro field hf
  simp only [headFields, List.mem_cons, List.not_mem_nil, or_false] at hf
  rcases hf with rfl | rfl <;> exact renders_str (by decide) rfl rfl _

theorem sendHead_of_left {code : StatusCode} {sends : List SendResult} (fsize : Nat) (hs : req.state ≠ .error)
    (hcode : code ≠ .unknown) (h : (statusLeft req.sock.sends).bind (takeOks 2) = some sends) :
    ∃ req', sendHead code fsize req = some req' ∧ req'.state = .sendFields ∧ req'.respBleft = fsize ∧
      req'.sock.sends = sends := by
  obtain ⟨left, hleft, hoks⟩ := Option.bind_eq_some_iff.1 h
  obtain ⟨req1, h1, hs1, hresp1, hsends1⟩ := sendStatus_of_left fsize hs hcode hleft
  obtain ⟨req', h', hs', hresp', hsends'⟩ :=
    sendAll_of_takeOks renders_headFields hs1 (by rw [hsends1]; exact hoks)
  refine ⟨req', ?_, hs', hresp'.trans hresp1, hsends'⟩
  rw [sendHead, h1]
  exact h'

theorem sendHead_of_not_left {code : StatusCode} {fsize : Nat} (hcode : code ≠ .unknown)
    (h : req.state = .error ∨ (statusLeft req.sock.sends).bind (takeOks 2) = none)
    (hsent : sendHead code fsize req = some req') : req'.state = .error := by
  obtain ⟨⟨ec, req1⟩, h1, hall⟩ := Option.bind_eq_some_iff.1 hsent
  by_cases hs : req.state = .error ∨ statusLeft req.sock.sends = none
  · have hs1 := sendStatus_of_not_left hs h1
    obtain ⟨req2, h2, hs2, -⟩ := sendAll_error headFields hs1
    obtain rfl := Option.some.inj (h2.symm.trans hall)
    exact hs2
  · rw [not_or] at hs
    obtain ⟨left, hleft⟩ := Option.ne_none_iff_exists'.1 hs.2
    obtain ⟨req2, h2, hs2, -, hsends2⟩ := sendStatus_of_left fsize hs.1 hcode hleft
    obtain ⟨-, rfl⟩ := Prod.ext_iff.1 (Option.some.inj (h2.symm.trans h1))
    refine sendAll_of_takeOks_none renders_headFields hs2 ?_ hall
    have hoks := h.resolve_left hs.1
    rw [hleft, Option.bind_some] at hoks
    rwa [hsends2]

/-- The empty line. -/
theorem endHeader_of_ok {short : Nat} {sends : List SendResult} (hs : req.state = .sendFields)
    (hsends : req.sock.sends = .ok short :: sends) :
    ∃ req', req.endHeader = some (0, req') ∧ req'.state = (if req.respBleft ≠ 0 then .sendBody else .done) ∧
      req'.respBleft = req.respBleft ∧ req'.sock.sends = sends := by
  unfold Request.endHeader
  rw [Request.require_of_eq hs, if_neg (by rw [hs]; decide), Http.Sock.send_ok hsends (by decide)]
  exact ⟨_, rfl, rfl, rfl, rfl⟩

theorem endHeader_of_not_ok {ec : Int} (h : req.state = .error ∨ takeOks 1 req.sock.sends = none)
    (hsent : req.endHeader = some (ec, req')) : ec ≠ 0 := by
  obtain ⟨-, rfl, -⟩ | ⟨hs, r, t, hsend, ⟨_, -, rfl, -⟩ | ⟨n, rfl, -⟩⟩ := Http.endHeader_cases hsent
  · decide
  · decide
  · have hnone := h.resolve_left (by rw [hs]; decide)
    cases hsends : req.sock.sends with
    | nil =>
        rw [Http.Sock.send_nil _ hsends] at hsend
        cases hsend
    | cons result sends =>
        rw [hsends] at hnone
        cases result with
        | error ec n =>
            rw [Http.Sock.send_error _ hsends] at hsend
            cases hsend
        | ok short => cases hnone

/-- The fields behind the lock, and the empty line. -/
def restFields (gzipped : Bool) (mimeType : List UInt8) : List (FieldName × Arg) :=
  (if gzipped then [(.contentEncoding, .str (ascii "gzip"))] else []) ++ [(.contentType, .str mimeType)]

theorem renders_restFields (gzipped : Bool) (mimeType : List UInt8) :
    ∀ field ∈ restFields gzipped mimeType, Http.Renders field := by
  intro field hf
  cases gzipped <;> simp only [restFields, Bool.false_eq_true, if_false, if_true, List.nil_append, List.cons_append,
    List.mem_cons, List.not_mem_nil, or_false] at hf
  · rw [hf]
    exact renders_str (by decide) rfl rfl _
  · rcases hf with rfl | rfl <;> exact renders_str (by decide) rfl rfl _

theorem sendAll_append (a b : List (FieldName × Arg)) (req : Request) :
    sendAll (a ++ b) req = (sendAll a req).bind (sendAll b) := by
  induction a generalizing req with
  | nil => rfl
  | cons field a ih =>
      rw [List.cons_append, sendAll, sendAll, Option.bind_assoc]
      exact congrArg _ (funext fun r => ih r.2)

theorem sendRest_eq (gzipped : Bool) (mimeType : List UInt8) (req : Request) :
    sendRest gzipped (some mimeType) req = (sendAll (restFields gzipped mimeType) req).bind Request.endHeader := by
  rw [restFields, sendAll_append, Option.bind_assoc]
  rfl

/-- How many sends there are. -/
def restCount (gzipped : Bool) : Nat := if gzipped then 3 else 2

theorem length_restFields (gzipped : Bool) (mimeType : List UInt8) :
    (restFields gzipped mimeType).length + 1 = restCount gzipped := by
  cases gzipped <;> rfl

theorem sendRest_of_oks {gzipped : Bool} {mimeType : List UInt8} {sends : List SendResult} (hs : req.state = .sendFields)
    (h : takeOks (restCount gzipped) req.sock.sends = some sends) :
    ∃ req', sendRest gzipped (some mimeType) req = some (0, req') ∧
      req'.state = (if req.respBleft ≠ 0 then .sendBody else .done) ∧ req'.respBleft = req.respBleft ∧
      req'.sock.sends = sends := by
  rw [← length_restFields gzipped mimeType, takeOks_add] at h
  obtain ⟨left, hleft, hlast⟩ := Option.bind_eq_some_iff.1 h
  obtain ⟨req1, h1, hs1, hresp1, hsends1⟩ := sendAll_of_takeOks (renders_restFields gzipped mimeType) hs hleft
  cases left with
  | nil => cases hlast
  | cons result rest =>
      cases result with
      | error ec n => cases hlast
      | ok short =>
          obtain rfl := Option.some.inj hlast
          obtain ⟨req', h', hs', hresp', hsends'⟩ := endHeader_of_ok hs1 hsends1
          refine ⟨req', ?_, ?_, hresp'.trans hresp1, hsends'⟩
          · rw [sendRest_eq, h1, Option.bind_some, h']
          · rw [hs', hresp1]

theorem sendRest_of_not_oks {gzipped : Bool} {mimeType : Option (List UInt8)} {ec : Int}
    (h : req.state = .error ∨ req.state = .sendFields ∧ takeOks (restCount gzipped) req.sock.sends = none)
    (hsent : sendRest gzipped mimeType req = some (ec, req')) : ec ≠ 0 := by
  obtain ⟨mimeType, rfl⟩ : ∃ mime, mimeType = some mime := by
    obtain ⟨req1, -, hrest⟩ := Option.bind_eq_some_iff.1 hsent
    obtain ⟨mime, hmime, -⟩ := Option.bind_eq_some_iff.1 hrest
    exact ⟨mime, hmime⟩
  rw [sendRest_eq] at hsent
  obtain ⟨req1, h1, hend⟩ := Option.bind_eq_some_iff.1 hsent
  refine endHeader_of_not_ok ?_ hend
  rcases h with hs | ⟨hs, hnone⟩
  · obtain ⟨req2, h2, hs2, -⟩ := sendAll_error (restFields gzipped mimeType) hs
    obtain rfl := Option.some.inj (h2.symm.trans h1)
    exact .inl hs2
  · rw [← length_restFields gzipped mimeType, takeOks_add] at hnone
    cases hleft : takeOks (restFields gzipped mimeType).length req.sock.sends with
    | none => exact .inl (sendAll_of_takeOks_none (renders_restFields gzipped mimeType) hs hleft h1)
    | some left =>
        obtain ⟨req2, h2, -, -, hsends2⟩ := sendAll_of_takeOks (renders_restFields gzipped mimeType) hs hleft
        obtain rfl := Option.some.inj (h2.symm.trans h1)
        rw [hleft, Option.bind_some, ← hsends2] at hnone
        exact .inr hnone

end Header

/-! ## The body -/

section Body

variable {req : Request} {pool : Ffs.FilePool} {i : Fin 32}

theorem chunks_zero : chunks 0 = 0 := rfl

theorem chunks_pos {n : Nat} (h : n ≠ 0) : chunks n = chunks (n - min bufSize n) + 1 := by
  unfold chunks bufSize
  omega

theorem breaks_ok (short n : Nat) (sends : List SendResult) : Breaks (.ok short :: sends) (n + 1) ↔ Breaks sends n := by
  simp [Breaks, SendResult.fails]

theorem breaks_error (ec : Int) (k n : Nat) (sends : List SendResult) : Breaks (.error ec k :: sends) (n + 1) :=
  ⟨.error ec k, List.mem_cons_self .., rfl⟩

theorem sendBody_of_ok {bytes : List UInt8} {short : Nat} {sends : List SendResult} (hs : req.state = .sendBody)
    (hne : bytes.length ≠ 0) (hle : bytes.length ≤ req.respBleft) (hlen : bytes.length < 2 ^ 31)
    (hsends : req.sock.sends = .ok short :: sends) :
    req.sendBody bytes = some (((bytes.length - short : Nat) : Int),
      req.gave (req.sock.sent sends (bytes.take (bytes.length - short))) (bytes.length - short)) := by
  unfold Request.sendBody
  rw [Request.require_of_eq hs, if_neg (by rw [hs]; decide), if_neg hne, if_neg (by omega), Http.Sock.send_ok hsends hlen]
  dsimp only
  rw [Request.gave]
  split <;> rfl

theorem sendBody_of_error {bytes : List UInt8} {ec : Int} {k : Nat} {sends : List SendResult} (hs : req.state = .sendBody)
    (hne : bytes.length ≠ 0) (hle : bytes.length ≤ req.respBleft) (hsends : req.sock.sends = .error ec k :: sends) :
    ∃ req', req.sendBody bytes = some (Http.efatal, req') := by
  unfold Request.sendBody
  rw [Request.require_of_eq hs, if_neg (by rw [hs]; decide), if_neg hne, if_neg (by omega), Http.Sock.send_error _ hsends]
  exact ⟨_, rfl⟩

theorem sendBody_of_nil {bytes : List UInt8} (hs : req.state = .sendBody) (hne : bytes.length ≠ 0)
    (hle : bytes.length ≤ req.respBleft) (hsends : req.sock.sends = []) : req.sendBody bytes = none := by
  unfold Request.sendBody
  rw [Request.require_of_eq hs, if_neg (by rw [hs]; decide), if_neg hne, if_neg (by omega), Http.Sock.send_nil _ hsends]

/-- The entry stays in use, and the loop gives up where a part of what is left is not sent. -/
def GivesUp (pool : Ffs.FilePool) (i : Fin 32) (breaks : Prop) (r : Bool × Request × Ffs.FilePool) : Prop :=
  (∃ f : Ffs.File, f.used = true ∧ r.2.2 = Function.update pool i f) ∧ (r.1 = false ↔ breaks)

/-- **The loop over a file** gives up where one of its parts is not sent. -/
theorem sendFile_spec {fuel fsize : Nat} {f : Ffs.File} (hmode : f.mode &&& Ffs.modeR ≠ 0) (hused : f.used = true)
    (hsize : f.position + fsize = f.fd.data.length) (hfuel : fsize ≤ fuel) (hs : fsize ≠ 0 → req.state = .sendBody)
    (hresp : fsize ≤ req.respBleft) :
    (sendFile (some i) fuel fsize req (Function.update pool i f) = none ∧ ¬ Breaks req.sock.sends (chunks fsize)) ∨
      ∃ r, sendFile (some i) fuel fsize req (Function.update pool i f) = some r ∧
        GivesUp pool i (Breaks req.sock.sends (chunks fsize)) r := by
  induction fuel generalizing fsize req f with
  | zero =>
      obtain rfl := Nat.le_zero.1 hfuel
      exact .inr ⟨_, rfl, ⟨f, hused, rfl⟩, by simp [chunks_zero, Breaks]⟩
  | succ fuel ih =>
      rw [sendFile]
      by_cases hzero : fsize = 0
      · rw [if_pos hzero, hzero]
        exact .inr ⟨_, rfl, ⟨f, hused, rfl⟩, by simp [chunks_zero, Breaks]⟩
      · have hstate := hs hzero
        have hlen : (f.chunk bufSize).length = min bufSize fsize := by
          rw [Ffs.File.chunk, List.length_take, List.length_drop]
          omega
        have hpos : (f.chunk bufSize).length ≠ 0 := by
          rw [hlen, bufSize]
          omega
        have hshort : (f.chunk bufSize).length < 2 ^ 31 := by
          rw [hlen, bufSize]
          omega
        have hfits : (f.chunk bufSize).length ≤ req.respBleft := by omega
        have hcount : ¬ Http.asErr (f.chunk bufSize).length ≤ 0 := by
          rw [Http.asErr, BitVec.toInt_eq_toNat_of_lt (by rw [BitVec.toNat_ofNat]; omega), BitVec.toNat_ofNat]
          omega
        rw [if_neg hzero, Ffs.read_opened hmode]
        dsimp only
        rw [if_neg hcount, chunks_pos hzero, ← hlen]
        cases hsends : req.sock.sends with
        | nil =>
            rw [sendBody_of_nil hstate hpos hfits hsends]
            exact .inl ⟨rfl, by simp [Breaks]⟩
        | cons result sends =>
            cases result with
            | error ec k =>
                obtain ⟨req', hbody⟩ := sendBody_of_error hstate hpos hfits hsends
                have hneg : Http.efatal < 0 := by decide
                rw [hbody, Option.bind_some, if_pos hneg]
                refine .inr ⟨_, rfl, ⟨_, ?_, rfl⟩, iff_of_true rfl (breaks_error ..)⟩
                exact hused
            | ok short =>
                rw [sendBody_of_ok hstate hpos hfits hshort hsends, Option.bind_some, if_neg (by omega), breaks_ok]
                have hleft : fsize - (f.chunk bufSize).length ≤
                    req.respBleft - ((f.chunk bufSize).length - short) := by omega
                refine ih hmode hused ?_ (by omega) (fun hne => ?_) hleft
                · show f.position + (f.chunk bufSize).length + (fsize - (f.chunk bufSize).length) = f.fd.data.length
                  omega
                · show (if req.respBleft - ((f.chunk bufSize).length - short) = 0 then Http.HttpState.done else req.state) = _
                  rw [if_neg (by omega), hstate]

/-- A file that was read to its end. -/
theorem sendFile_ended {fuel fsize : Nat} {f : Ffs.File} (hmode : f.mode &&& Ffs.modeR ≠ 0) (hused : f.used = true)
    (hend : f.position = f.fd.data.length) :
    ∃ r, sendFile (some i) fuel fsize req (Function.update pool i f) = some r ∧ GivesUp pool i False r := by
  cases fuel with
  | zero => exact ⟨_, rfl, ⟨f, hused, rfl⟩, by simp⟩
  | succ fuel =>
      have hlen : (f.chunk bufSize).length = 0 := by
        rw [Ffs.File.chunk, List.length_take, List.length_drop]
        omega
      rw [sendFile]
      by_cases hzero : fsize = 0
      · rw [if_pos hzero]
        exact ⟨_, rfl, ⟨f, hused, rfl⟩, by simp⟩
      · rw [if_neg hzero, Ffs.read_opened hmode]
        dsimp only
        rw [if_pos (by rw [hlen]; decide)]
        refine ⟨_, rfl, ⟨_, ?_, rfl⟩, by simp⟩
        exact hused

end Body

/-! ## The callback -/

section Callback

variable {files : List (List Ffs.FileDesc)} {s s' : Site} {v : Visit}

/-- Without a file nothing is opened, and the call comes to its end. -/
theorem callbackFiles_missing (h : Ffs.openFile files v.fname Ffs.modeR v.task.id s.pool = (none, s.pool))
    (hstep : step files s v = some s') : s' = ⟨s.pool, 0⟩ := by
  obtain ⟨⟨ec, req', site⟩, hcall, rfl⟩ := Option.map_eq_some_iff.1 hstep
  unfold callbackFiles at hcall
  rw [h] at hcall
  obtain ⟨req1, -, hcall⟩ := Option.bind_eq_some_iff.1 hcall
  split at hcall
  · obtain ⟨r, -, hcall⟩ := Option.bind_eq_some_iff.1 hcall
    split at hcall
    · cases hcall
      rfl
    · cases hcall
      rfl
  · cases hcall

/-- The entry of a file that was opened, when its type was looked for: rewound, unless there was nothing to tell it from. -/
def looked (task : Nat) (fd : Ffs.FileDesc) : Ffs.File :=
  if 3 ≤ fd.data.length then .opened task fd Ffs.modeR
  else { Ffs.File.opened task fd Ffs.modeR with position := fd.data.length, position_le := Nat.le_refl _ }

theorem looked_used (task : Nat) (fd : Ffs.FileDesc) :
    (looked task fd).used = true ∧ (looked task fd).mode = Ffs.modeR ∧ (looked task fd).fd = fd := by
  unfold looked
  split <;> exact ⟨rfl, rfl, rfl⟩

theorem asErr_three (fd : Ffs.FileDesc) : Http.asErr (fd.data.take 3).length = 3 ↔ 3 ≤ fd.data.length := by
  rw [List.length_take, Http.asErr, BitVec.toInt_eq_toNat_of_lt (by rw [BitVec.toNat_ofNat]; omega), BitVec.toNat_ofNat]
  omega

/-- The rest of the callback, for a file that is open. -/
def answerFile (fd : Ffs.FileDesc) (i : Fin 32) (v : Visit) (pool : Ffs.FilePool) (req : Request) :
    Option (Int × Request × Site) :=
  (sendRest (fd.data.take 3 = [0x1f, 0x8b, 0x08]) v.mimeType req).bind fun r =>
    if r.1 ≠ 0 then some (0, r.2, ⟨Function.update pool i { looked v.task.id fd with used := false }, 0⟩)
    else (sendFile (some i) fd.data.length fd.data.length r.2 (Function.update pool i (looked v.task.id fd))).map fun b =>
      if b.1 then (0, b.2.1, ⟨(Ffs.close (some i) b.2.2).2, 0⟩) else (Http.efatal, b.2.1, ⟨b.2.2, 0⟩)

theorem callbackFiles_opened {fd : Ffs.FileDesc} {i : Fin 32} (hsem : s.sem = 0)
    (h : Ffs.openFile files v.fname Ffs.modeR v.task.id s.pool =
      (some i, Function.update s.pool i (.opened v.task.id fd Ffs.modeR))) :
    callbackFiles files v s = (sendHead .ok fd.data.length v.req).bind (answerFile fd i v s.pool) := by
  have hsize : (Ffs.size (some i) (Function.update s.pool i (.opened v.task.id fd Ffs.modeR))).getD 0 = fd.data.length := by
    rw [Ffs.size, Option.map_some, Function.update_self, Option.getD_some, Ffs.File.opened]
  have hchunk : (Ffs.File.opened v.task.id fd Ffs.modeR).chunk 3 = fd.data.take 3 := rfl
  have hmode : (Ffs.File.opened v.task.id fd Ffs.modeR).mode &&& Ffs.modeR ≠ 0 := by
    show Ffs.modeR &&& Ffs.modeR ≠ 0
    decide
  unfold callbackFiles
  rw [h]
  dsimp only
  rw [hsize]
  refine congrArg (Option.bind _) (funext fun req => ?_)
  rw [if_pos (.inl hsem), Ffs.read_opened hmode 3, answerFile]
  by_cases hlen : 3 ≤ fd.data.length
  · have hfirst := (asErr_three fd).2 hlen
    have hlooked : looked v.task.id fd = .opened v.task.id fd Ffs.modeR := if_pos hlen
    simp only [hchunk, hfirst, if_true, true_and]
    rw [Ffs.rewind_opened, hlooked, Ffs.close_opened rfl]
    rfl
  · have hfirst : ¬ Http.asErr (fd.data.take 3).length = 3 := fun heq => hlen ((asErr_three fd).1 heq)
    have hnot : ¬ fd.data.take 3 = [0x1f, 0x8b, 0x08] := fun htake => hfirst (by rw [htake]; decide)
    have hlooked : looked v.task.id fd =
        { Ffs.File.opened v.task.id fd Ffs.modeR with
          position := (Ffs.File.opened v.task.id fd Ffs.modeR).position + ((Ffs.File.opened v.task.id fd Ffs.modeR).chunk 3).length
          position_le := Ffs.File.chunk_le _ 3 } := by
      refine (if_neg hlen).trans (Ffs.File.ext rfl rfl rfl rfl ?_)
      show fd.data.length = 0 + (fd.data.take 3).length
      rw [List.length_take]
      omega
    rw [hlooked]
    simp only [hchunk, hfirst, hnot, if_false, false_and]
    rw [Ffs.close_opened rfl]

/-- The entry is in use behind a call that returns if and only if `fails`, which it is not if the call does not return. -/
def Leaves (pool : Ffs.FilePool) (i : Fin 32) (fails : Prop) (result : Option (Int × Request × Site)) : Prop :=
  (result = none ∧ ¬ fails) ∨
    ∃ ec req f, result = some (ec, req, ⟨Function.update pool i f, 0⟩) ∧ (f.used = true ↔ fails)

variable {fd : Ffs.FileDesc} {i : Fin 32} {pool : Ffs.FilePool} {req : Request} {fails : Prop}

/-- Whatever stops the header, the file is closed. -/
theorem answerFile_stopped (hfails : ¬ fails)
    (h : ∀ ec r, sendRest (fd.data.take 3 = [0x1f, 0x8b, 0x08]) v.mimeType req = some (ec, r) → ec ≠ 0) :
    Leaves pool i fails (answerFile fd i v pool req) := by
  unfold answerFile
  cases hrest : sendRest (fd.data.take 3 = [0x1f, 0x8b, 0x08]) v.mimeType req with
  | none => exact .inl ⟨rfl, hfails⟩
  | some r =>
      rw [Option.bind_some, if_pos (h r.1 r.2 hrest)]
      exact .inr ⟨_, _, _, rfl, iff_of_false Bool.false_ne_true hfails⟩

theorem leaves_of_givesUp {r : Bool × Request × Ffs.FilePool} (h : GivesUp pool i fails r) :
    Leaves pool i fails (some (if r.1 then (0, r.2.1, ⟨(Ffs.close (some i) r.2.2).2, 0⟩) else (Http.efatal, r.2.1, ⟨r.2.2, 0⟩))) := by
  obtain ⟨⟨f, hused, hpool⟩, hiff⟩ := h
  obtain ⟨ended, req', pool'⟩ := r
  obtain rfl : pool' = Function.update pool i f := hpool
  cases ended with
  | true =>
      rw [if_pos rfl, Ffs.close_opened hused]
      exact .inr ⟨_, _, _, rfl, iff_of_false Bool.false_ne_true fun hf => Bool.noConfusion (hiff.2 hf)⟩
  | false => exact .inr ⟨_, _, f, rfl, iff_of_true hused (hiff.1 rfl)⟩

/-- The header was sent, and then the file is, or not. -/
theorem answerFile_sent {req' : Request}
    (h : sendRest (fd.data.take 3 = [0x1f, 0x8b, 0x08]) v.mimeType req = some (0, req'))
    (hstate : req'.state = if fd.data.length ≠ 0 then .sendBody else .done) (hresp : req'.respBleft = fd.data.length) :
    Leaves pool i (3 ≤ fd.data.length ∧ Breaks req'.sock.sends (chunks fd.data.length)) (answerFile fd i v pool req) := by
  obtain ⟨hused, hlmode, hlfd⟩ := looked_used v.task.id fd
  have hmode : (looked v.task.id fd).mode &&& Ffs.modeR ≠ 0 := by
    rw [hlmode]
    decide
  unfold answerFile
  rw [h, Option.bind_some, if_neg (not_not.2 rfl)]
  by_cases hlen : 3 ≤ fd.data.length
  · have hpos : (looked v.task.id fd).position + fd.data.length = (looked v.task.id fd).fd.data.length := by
      rw [looked, if_pos hlen]
      exact Nat.zero_add _
    rw [and_iff_right hlen]
    obtain ⟨hnone, hbreaks⟩ | ⟨r, hr, hgives⟩ := @sendFile_spec req' pool i fd.data.length fd.data.length
        (looked v.task.id fd) hmode hused hpos (Nat.le_refl _) (fun hne => hstate.trans (if_pos hne)) hresp.ge
    · rw [hnone]
      exact .inl ⟨rfl, hbreaks⟩
    · rw [hr]
      exact leaves_of_givesUp hgives
  · have hend : (looked v.task.id fd).position = (looked v.task.id fd).fd.data.length := by
      rw [looked, if_neg hlen]
      rfl
    obtain ⟨r, hr, hgives⟩ :=
      @sendFile_ended req' pool i fd.data.length fd.data.length (looked v.task.id fd) hmode hused hend
    have hno : (3 ≤ fd.data.length ∧ Breaks req'.sock.sends (chunks fd.data.length)) = False :=
      eq_false fun hboth => hlen hboth.1
    rw [hno, hr]
    exact leaves_of_givesUp hgives

theorem count_eq (fd : Ffs.FileDesc) : (if fd.data.take 3 = [0x1f, 0x8b, 0x08] then 5 else 4) =
    2 + restCount (fd.data.take 3 = [0x1f, 0x8b, 0x08]) := by
  unfold restCount
  simp only [decide_eq_true_eq]
  split <;> rfl

/-- **A file that is open** is closed again, unless a part of it is not sent. -/
theorem callbackFiles_spec (hsem : s.sem = 0)
    (h : Ffs.openFile files v.fname Ffs.modeR v.task.id s.pool =
      (some i, Function.update s.pool i (.opened v.task.id fd Ffs.modeR))) :
    Leaves s.pool i (PartFails fd v) (callbackFiles files v s) := by
  have hcode : StatusCode.ok ≠ .unknown := by decide
  rw [callbackFiles_opened hsem h]
  by_cases hleft : v.req.state = .error ∨ (statusLeft v.req.sock.sends).bind (takeOks 2) = none
  · have hfails : ¬ PartFails fd v := by
      rintro ⟨-, -, hs, sends, hsends, -⟩
      rw [count_eq, funext (takeOks_add 2 _), ← Option.bind_assoc, hleft.resolve_left hs] at hsends
      cases hsends
    cases hhead : sendHead .ok fd.data.length v.req with
    | none => exact .inl ⟨rfl, hfails⟩
    | some req1 =>
        have hs1 := sendHead_of_not_left hcode hleft hhead
        exact answerFile_stopped hfails fun ec r => sendRest_of_not_oks (.inl hs1)
  · rw [not_or] at hleft
    obtain ⟨hs, hleft⟩ := hleft
    obtain ⟨left, hleft⟩ := Option.ne_none_iff_exists'.1 hleft
    obtain ⟨req1, hhead, hs1, hresp1, hsends1⟩ := sendHead_of_left fd.data.length hs hcode hleft
    have hfails : PartFails fd v ↔ 3 ≤ fd.data.length ∧ v.mimeType.isSome = true ∧
        ∃ sends, takeOks (restCount (fd.data.take 3 = [0x1f, 0x8b, 0x08])) left = some sends ∧
          Breaks sends (chunks fd.data.length) := by
      rw [PartFails, count_eq, funext (takeOks_add 2 _), ← Option.bind_assoc, hleft, Option.bind_some, and_iff_right hs]
    rw [hhead, Option.bind_some]
    cases hoks : takeOks (restCount (fd.data.take 3 = [0x1f, 0x8b, 0x08])) left with
    | none =>
        refine answerFile_stopped (fun hp => ?_) fun ec r => sendRest_of_not_oks (.inr ⟨hs1, by rw [hsends1]; exact hoks⟩)
        obtain ⟨-, -, sends, hsends, -⟩ := hfails.1 hp
        cases hoks.symm.trans hsends
    | some sends =>
        cases hmime : v.mimeType with
        | none =>
            refine answerFile_stopped (fun hp => ?_) fun ec r hrest => ?_
            · obtain ⟨-, hsome, -⟩ := hfails.1 hp
              rw [hmime] at hsome
              cases hsome
            · rw [hmime] at hrest
              obtain ⟨req2, -, hrest⟩ := Option.bind_eq_some_iff.1 hrest
              cases hrest
        | some mimeType =>
            obtain ⟨req2, hrest, hs2, hresp2, hsends2⟩ := @sendRest_of_oks req1 _ mimeType _ hs1 (by rw [hsends1]; exact hoks)
            have hiff : PartFails fd v ↔ 3 ≤ fd.data.length ∧ Breaks req2.sock.sends (chunks fd.data.length) := by
              rw [hfails, hoks, hmime, hsends2]
              simp
            rw [propext hiff]
            exact answerFile_sent (by rw [hmime]; exact hrest) (by rw [hs2, hresp1]) (hresp2.trans hresp1)

/-- The file that is opened is known by the request. -/
theorem bodyFails_iff {i : Fin 32} (h : Ffs.Opens files v.fname s.pool fd i) : BodyFails files s v ↔ PartFails fd v := by
  constructor
  · rintro ⟨fd', i', ⟨hfd, -, -⟩, hfails⟩
    obtain rfl := Option.some.inj (h.1.symm.trans hfd)
    exact hfails
  · exact fun hfails => ⟨fd, i, h, hfails⟩

/-- A request whose answer never comes to its end does not fail in its body. -/
theorem step_none (hsem : s.sem = 0) (h : step files s v = none) : ¬ BodyFails files s v := by
  have hcall : callbackFiles files v s = none := Option.map_eq_none_iff.1 h
  rcases @Ffs.openFile_cases files v.fname v.task.id s.pool with ⟨-, hno⟩ | ⟨fd, i, hopens, heq⟩
  · rintro ⟨fd, i, hopens, -⟩
    exact hno fd i hopens
  · rw [bodyFails_iff hopens]
    obtain ⟨-, hfails⟩ | ⟨ec, req', f, hsome, -⟩ := callbackFiles_spec hsem heq
    · exact hfails
    · cases hcall.symm.trans hsome

/-- One request. -/
theorem step_keeps (hsem : s.sem = 0) (h : step files s v = some s') :
    (Keeps s v s' ↔ ¬ BodyFails files s v) ∧ s'.sem = 0 := by
  rcases @Ffs.openFile_cases files v.fname v.task.id s.pool with ⟨heq, hno⟩ | ⟨fd, i, hopens, heq⟩
  · obtain rfl := callbackFiles_missing heq h
    refine ⟨iff_of_true ⟨rfl, hsem.symm⟩ ?_, rfl⟩
    rintro ⟨fd, i, hopens, -⟩
    exact hno fd i hopens
  · rw [bodyFails_iff hopens]
    obtain ⟨hnone, -⟩ | ⟨ec, req', f, hsome, hiff⟩ := callbackFiles_spec hsem heq
    · rw [step, hnone] at h
      cases h
    · rw [step, hsome] at h
      obtain rfl := Option.some.inj h
      refine ⟨?_, rfl⟩
      by_cases hused : f.used = true
      · refine iff_of_false (fun hk => ?_) (not_not.2 (hiff.1 hused))
        have hcount := hk.1
        rw [show (⟨Function.update s.pool i f, 0⟩ : Site).pool = Function.update s.pool i f from rfl,
          Ffs.openCount_open hopens.2.2 hused] at hcount
        omega
      · refine iff_of_true ⟨?_, hsem.symm⟩ fun hfails => hused (hiff.2 hfails)
        exact Ffs.openCount_close hopens.2.2 (Bool.eq_false_iff.2 hused)

end Callback

/-- **Serving files** loses no entry of the pool, and gives the buffer back, in the runs in which no part of a file fails to
be sent. -/
theorem keepsHandles_iff (files : List (List Ffs.FileDesc)) (pool : Ffs.FilePool) (visits : List Visit) :
    Along (step files) Keeps ⟨pool, 0⟩ visits ↔ Meets (step files) (fun s v => ¬ BodyFails files s v) ⟨pool, 0⟩ visits :=
  @along_iff_meets _ _ (step files) (fun s => s.sem = 0) _ _ (fun _ _ hsem => step_none hsem)
    (fun _ _ _ hsem h => ⟨(step_keeps hsem h).1, fun _ => (step_keeps hsem h).2⟩) _ visits rfl

/-- A start page of three bytes. -/
def startPage : Ffs.FileDesc := ⟨ascii "/index.html", Ffs.modeR, [1, 2, 3], by decide⟩

/-- A client that goes away behind the header: the status line, four fields and then three, and the empty line are sent. -/
def aborted : Visit where
  task := ⟨3, by decide, by decide⟩
  req :=
    { sock := ⟨[], [], List.replicate 9 (.ok 0) ++ [.error (-5) 0], [], 0, 0⟩
      method := .get
      line := fun _ => 0
      lineLen := 0
      url := ascii "/"
      state := .sendStatus }
  mem := fun a => (ascii "/index.html").getD (a - 100) 0
  url := 200
  index := 100

def freePool : Ffs.FilePool := fun _ => { Ffs.File.opened 0 startPage Ffs.modeR with used := false }

theorem not_keepsHandles_aborted : ¬ Along (step [[startPage]]) Keeps ⟨freePool, 0⟩ [aborted] := by
  have hopens : Ffs.Opens [[startPage]] aborted.fname freePool startPage 0 := ⟨rfl, by decide, by decide⟩
  have hfails : BodyFails [[startPage]] ⟨freePool, 0⟩ aborted :=
    ⟨startPage, 0, hopens, by decide, by decide, by decide, [.error (-5) 0], by decide, by decide⟩
  intro h
  cases hstep : step [[startPage]] ⟨freePool, 0⟩ aborted with
  | none => exact step_none rfl hstep hfails
  | some s' => exact (step_keeps rfl hstep).1.1 (h s' hstep).1 hfails

end YieldStm32.Website
