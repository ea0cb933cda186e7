import YieldStm32.Lib.Run
import YieldStm32.Net.Http.Line

/-!
# One connection's requests (`UHTTPSrv_ServeTask`)

* `Conn`, `serve` : the inner loop of the task, a request line, a callback's doings or its return at a time;
* `starts` : where the requests of a stream start;
* `Framed` : request lines are read where requests start;
* `Orderly` : a callback that answers what it has read, and reads with the calls only;
* `framed_of_run` : the requests of a stream are told apart.
-/

namespace YieldStm32

namespace Http

open Stdio Ring Transition

/-! ## The task -/

inductive Phase where
  | between (sock : Sock) (line : Nat → UInt8)
  | serving (req : Request)
  | closed

/-- `heads` is a ghost: how much had been received where each request line was started. -/
structure Conn where
  phase : Phase
  heads : List Nat := []

inductive Act where
  | line
  | event (event : Event)
  | returns (ec : Int)

/-- A turn of the loop up to the callback. -/
def recvRequest (heads : List Nat) (sock : Sock) (line : Nat → UInt8) : Option Conn :=
  match recvLine maxLineLen line sock with
  | none => none
  | some (.error _, _, _) => some ⟨.closed, heads⟩
  | some (.ok len, line, t) =>
      match parseRequestLine (copyOut line 0 len) with
      | none => some ⟨.closed, heads ++ [sock.consumed]⟩
      | some (method, url) => some ⟨.serving (Request.fresh t method line len url), heads ++ [sock.consumed]⟩

def serve (c : Conn) : Act → Option Conn
  | .line =>
      match c.phase with
      | .between sock line => recvRequest c.heads sock line
      | _ => none
  | .event event =>
      match c.phase with
      | .serving req => (event.exec req).map fun req => { c with phase := .serving req }
      | _ => none
  | .returns ec =>
      match c.phase with
      | .serving req =>
          some { c with phase := if ec ≠ 0 ∨ req.state ≠ .done then .closed else .between req.sock req.line }
      | _ => none

/-! ## Framing -/

/-- Where the messages of a stream start. -/
def starts : Nat → List Message → List Nat
  | _, [] => []
  | pos, m :: msgs => pos :: starts (pos + m.bytes.length) msgs

def streamOf (msgs : List Message) : List UInt8 := msgs.flatMap Message.bytes

/-- Request lines have been read where requests start, and where the next one is about to be read the requests so far have
been received whole and nothing else has. -/
def Framed (msgs : List Message) (c : Conn) : Prop :=
  c.heads <+: starts 0 msgs ∧
    ∀ sock line, c.phase = .between sock line → sock.consumed = (streamOf (msgs.take c.heads.length)).length

/-- The answer is not begun before the header and the body have been read, and a websocket receives nothing. -/
def Orderly (c : Conn) : Act → Prop
  | .event (.call (.sendStatus ..)) =>
      match c.phase with
      | .serving req => req.state ≠ .readFields ∧ req.state ≠ .readBody
      | _ => True
  | .event (.wsRecv size) =>
      match c.phase with
      | .serving req => ∀ r ∈ req.sock.recv size, r.2.consumed = req.sock.consumed
      | _ => True
  | _ => True

instance : ∀ c act, Decidable (Orderly c act)
  | ⟨.serving req, _⟩, .event (.call (.sendStatus ..)) =>
      inferInstanceAs (Decidable (req.state ≠ .readFields ∧ req.state ≠ .readBody))
  | ⟨.serving req, _⟩, .event (.wsRecv size) =>
      inferInstanceAs (Decidable (∀ r ∈ req.sock.recv size, r.2.consumed = req.sock.consumed))
  | ⟨.between .., _⟩, .event (.call (.sendStatus ..)) => isTrue trivial
  | ⟨.between .., _⟩, .event (.wsRecv _) => isTrue trivial
  | ⟨.closed, _⟩, .event (.call (.sendStatus ..)) => isTrue trivial
  | ⟨.closed, _⟩, .event (.wsRecv _) => isTrue trivial
  | _, .line => isTrue trivial
  | _, .returns _ => isTrue trivial
  | _, .event (.wsSend _) => isTrue trivial
  | _, .event (.call .readHeaderField) => isTrue trivial
  | _, .event (.call (.readBody ..)) => isTrue trivial
  | _, .event (.call (.sendHeaderField ..)) => isTrue trivial
  | _, .event (.call .endHeader) => isTrue trivial
  | _, .event (.call (.sendBody _)) => isTrue trivial

/-- No name that only starts with that of the length, and a length that an `int` can be read from. -/
def Message.Plain (m : Message) : Prop :=
  (∀ line ∈ m.fields, startsWord (ascii "content-length") line.name → line.isLength) ∧ m.body.length < 2 ^ 32

theorem starts_append (pos : Nat) (a b : List Message) :
    starts pos (a ++ b) = starts pos a ++ starts (pos + (streamOf a).length) b := by
  induction a generalizing pos with
  | nil => rfl
  | cons m a ih =>
      rw [List.cons_append, starts, ih, starts, List.cons_append, streamOf, streamOf, List.flatMap_cons, List.length_append,
        Nat.add_assoc]

theorem length_starts (pos : Nat) (msgs : List Message) : (starts pos msgs).length = msgs.length := by
  induction msgs generalizing pos with
  | nil => rfl
  | cons m msgs ih => rw [starts, List.length_cons, ih, List.length_cons]

theorem starts_pre (msgs rest : List Message) : starts 0 msgs <+: starts 0 (msgs ++ rest) := by
  rw [starts_append]
  exact List.prefix_append ..

theorem streamOf_append (a b : List Message) : streamOf (a ++ b) = streamOf a ++ streamOf b := List.flatMap_append

/-! ## The invariant -/

/-- What is left of a message, and `rest` behind it, while its request is served. -/
def Within (m : Message) (rest : List UInt8) (req : Request) : Prop :=
  match req.state with
  | .error => True
  | .readFields => req.line 0 ≠ 58 ∧ ∃ pre post, m.fields = pre ++ post ∧
      req.sock.incoming = headerBytes post ++ crlf ++ m.body ++ rest ∧
      req.bodyBleft = if ∃ line ∈ pre, line.isLength then m.body.length else 0
  | .readBody => ∃ left, req.sock.incoming = left ++ rest ∧ left.length = req.bodyBleft
  | _ => req.sock.incoming = rest

def FramedInv (msgs : List Message) (c : Conn) : Prop :=
  match c.phase with
  | .between sock _ => ∃ done rest, msgs = done ++ rest ∧ c.heads = starts 0 done ∧ sock.incoming = streamOf rest ∧
      sock.consumed + sock.incoming.length = (streamOf msgs).length
  | .serving req => ∃ done m rest, msgs = done ++ m :: rest ∧ c.heads = starts 0 (done ++ [m]) ∧
      Within m (streamOf rest) req ∧ req.sock.consumed + req.sock.incoming.length = (streamOf msgs).length
  | .closed => c.heads <+: starts 0 msgs

section Within

variable {m : Message} {rest : List UInt8} {req req' : Request} {ret : Int}

theorem within_error (h : req.state = .error) : Within m rest req := by
  rw [Within, h]
  trivial

theorem within_readFields (h : req.state = .readFields) : Within m rest req ↔
    req.line 0 ≠ 58 ∧ ∃ pre post, m.fields = pre ++ post ∧ req.sock.incoming = headerBytes post ++ crlf ++ m.body ++ rest ∧
      req.bodyBleft = if ∃ line ∈ pre, line.isLength then m.body.length else 0 := by
  rw [Within, h]

theorem within_readBody (h : req.state = .readBody) :
    Within m rest req ↔ ∃ left, req.sock.incoming = left ++ rest ∧ left.length = req.bodyBleft := by
  rw [Within, h]

/-- Behind the body. -/
def Behind (req : Request) : Prop := req.state ≠ .readFields ∧ req.state ≠ .readBody ∧ req.state ≠ .error

theorem Behind.within_incoming_iff (h : Behind req) : Within m rest req ↔ req.sock.incoming = rest := by
  obtain ⟨hf, hb, he⟩ := h
  rw [Within]
  split
  · exact absurd ‹_› he
  · exact absurd ‹_› hf
  · exact absurd ‹_› hb
  · exact Iff.rfl

/-- A call that sends leaves what is to be received, and comes to a state behind the body from one. -/
theorem Within.sending (hw : Within m rest req) (hk : req.sock.SameReceiving req'.sock)
    (hs : req'.state = .error ∨ Behind req ∧ Behind req') : Within m rest req' := by
  obtain hs | ⟨hs, hs'⟩ := hs
  · exact within_error hs
  · exact hs'.within_incoming_iff.2 (hk.1.trans (hs.within_incoming_iff.1 hw))

theorem Within.congr (hw : Within m rest req) (hs : req'.state = req.state) (hl : req'.line = req.line)
    (hb : req'.bodyBleft = req.bodyBleft) (hi : req'.sock.incoming = req.sock.incoming) : Within m rest req' := by
  rw [Within] at hw ⊢
  rw [hs, hl, hb, hi]
  exact hw

/-! ## Reading -/

/-- Behind the last header line. -/
theorem length_of_fields (m : Message) : (if ∃ line ∈ m.fields, line.isLength then m.body.length else 0) = m.body.length := by
  split
  · rfl
  · rename_i h
    rw [m.unannounced fun line hline hl => h ⟨line, hline, hl⟩]
    rfl

theorem exists_append_singleton {pre : List HeaderLine} {l : HeaderLine} {n : Nat} :
    (if ∃ line ∈ pre ++ [l], line.isLength then n else 0) =
      if l.isLength then n else if ∃ line ∈ pre, line.isLength then n else 0 := by
  by_cases hl : l.isLength
  · rw [if_pos hl, if_pos ⟨l, by simp, hl⟩]
  · rw [if_neg hl]
    congr 1
    simp [or_and_right, exists_or, hl]

theorem length_copyOut (line : Nat → UInt8) (n : Nat) : (copyOut line 0 n).length = n := by
  simp [copyOut]

theorem head?_copyOut (line : Nat → UInt8) {n : Nat} (h : n ≠ 0) : (copyOut line 0 n).head? = some (line 0) := by
  obtain ⟨n, rfl⟩ := Nat.exists_eq_succ_of_ne_zero h
  simp [copyOut, List.range_succ_eq_map]

/-- The header's end. -/
theorem headerEnd_within {t : Sock} {line : Nat → UInt8} (len : Nat) (hin : t.incoming = m.body ++ rest)
    (hleft : req.bodyBleft = m.body.length) : Within m rest (req.got t line len).headerEnd := by
  by_cases hb : req.bodyBleft = 0
  · have hs : (req.got t line len).headerEnd.state = .sendStatus := if_neg (Classical.not_not.2 hb)
    apply (Behind.within_incoming_iff (by rw [Behind, hs]; decide)).2
    show t.incoming = rest
    rw [hin, List.eq_nil_of_length_eq_zero (hleft.symm.trans hb), List.nil_append]
  · have hs : (req.got t line len).headerEnd.state = .readBody := if_pos hb
    exact (within_readBody hs).2 ⟨m.body, hin, hleft.symm⟩

/-- A line of the header. -/
theorem take_within {t : Sock} {line : Nat → UInt8} {pre post : List HeaderLine} {l : HeaderLine} (len : Nat) {field : Field}
    (hp : m.Plain) (hs : req.state = .readFields) (hfields : m.fields = pre ++ l :: post)
    (hin : t.incoming = headerBytes post ++ crlf ++ m.body ++ rest) (hcolon : line 0 ≠ 58)
    (hleft : req.bodyBleft = if ∃ line ∈ pre, line.isLength then m.body.length else 0)
    (hparse : parseFieldLine (l.name ++ 58 :: l.value.rdropWhile isspace) = some field) :
    Within m rest ((req.got t line len).take field) := by
  have hl : l ∈ m.fields := by simp [hfields]
  obtain ⟨-, hstate, -, hsock, hline, -⟩ := Request.take_keeps (req.got t line len) field
  apply (within_readFields (hstate.trans hs)).2
  rw [hline, hsock, take_headerLine (req.got t line len) hp.2 (hp.1 l hl) (m.announces l hl) hparse]
  refine ⟨hcolon, pre ++ [l], post, by rw [hfields, List.append_assoc, List.singleton_append], hin, ?_⟩
  rw [exists_append_singleton, ← hleft]
  rfl

/-- A line of the header, or its end. -/
theorem readHeaderField_within {field : Option Field} (hp : m.Plain) (hw : Within m rest req)
    (h : req.readHeaderField = some (ret, field, req')) : Within m rest req' := by
  obtain ⟨-, -, rfl⟩ | ⟨hs, r, line, t, len, hline, hcases⟩ := readHeaderField_cases h
  · exact within_error rfl
  · obtain ⟨hcolon, pre, post, hfields, hin, hleft⟩ := (within_readFields hs).1 hw
    have hfailed (ec : Int) (hr : r = .error ec) (hno : line 0 ≠ 58) : Within m rest req' := by
      subst hr
      rcases hcases with ⟨-, rfl⟩ | ⟨hr, -⟩ | ⟨ec, field, -, hparse, -⟩ | ⟨n, field, hr, -⟩
      · exact within_error rfl
      · cases hr
      · exact absurd ((if_neg hno).symm.trans hparse) (by simp)
      · cases hr
    cases post with
    | nil =>
        rw [List.append_nil] at hfields
        have hin' : req.sock.incoming = [13] ++ 10 :: (m.body ++ rest) := by
          rw [hin]
          simp [headerBytes, crlf]
        have hleft' : req.bodyBleft = m.body.length := by rw [hleft, ← hfields, length_of_fields]
        have hL : ∀ c ∈ [(13 : UInt8)], c ≠ 10 := by
          intro c hc
          rw [List.mem_singleton.1 hc]
          decide
        obtain ⟨ec, rfl, hzero⟩ | ⟨n, rfl, htext, hrest, -⟩ := recvLine_line hL hin' hline
        · have hno : line 0 ≠ 58 := by
            rcases hzero with hzero | hzero
            · rwa [hzero]
            · rw [← Option.some.inj hzero]
              decide
          exact hfailed ec rfl hno
        · have hn : n = 0 := by
            have hlen := length_copyOut line n
            rw [htext] at hlen
            exact hlen.symm
          subst hn
          rcases hcases with ⟨-, rfl⟩ | ⟨-, rfl⟩ | ⟨ec, field, hr, -⟩ | ⟨n, field, hr, hne, -⟩
          · exact within_error rfl
          · exact headerEnd_within len hrest hleft'
          · cases hr
          · cases hr
            exact absurd rfl hne
    | cons l post =>
        have hin' : req.sock.incoming =
            (l.name ++ 58 :: l.value ++ [13]) ++ 10 :: (headerBytes post ++ crlf ++ m.body ++ rest) := by
          rw [hin]
          simp [headerBytes, HeaderLine.bytes, crlf]
        obtain ⟨c, name, hname⟩ := List.exists_cons_of_ne_nil l.name_ne
        have hc : c ≠ 58 := (l.name_token c (by rw [hname]; exact List.mem_cons_self ..)).2.1
        obtain ⟨ec, rfl, hzero⟩ | ⟨n, rfl, htext, hrest, hzero⟩ := recvLine_line (headerLine_no_lf l) hin' hline
        · have hno : line 0 ≠ 58 := by
            rcases hzero with hzero | hzero
            · rwa [hzero]
            · rw [hname] at hzero
              rwa [← Option.some.inj hzero]
          exact hfailed ec rfl hno
        · rw [rdropWhile_headerLine] at htext
          rcases hcases with ⟨-, rfl⟩ | ⟨hr, rfl⟩ | ⟨ec, field, hr, -⟩ | ⟨k, field, hr, hne, hparse, rfl⟩
          · exact within_error rfl
          · cases hr
            exact absurd htext (by simp [copyOut])
          · cases hr
          · cases hr
            have hno : line 0 ≠ 58 := by
              have hhead := head?_copyOut line hne
              rw [htext, hname] at hhead
              rwa [← Option.some.inj hhead]
            rw [htext] at hparse
            exact take_within len hp hs hfields hrest hno hleft hparse

theorem recv_taken {t t' : Sock} {size : Nat} {bytes : List UInt8} (h : t.recv size = some (.ok bytes, t')) :
    t.incoming = bytes ++ t'.incoming ∧ bytes.length ≤ size ∧ bytes ≠ [] := by
  unfold Sock.recv at h
  split at h
  · cases h
  · cases h
  · rename_i n recvs hrecvs
    dsimp only at h
    split at h
    · cases h
    · rename_i hne
      obtain ⟨hr, rfl⟩ := Prod.mk.inj (Option.some.inj h)
      split at hr
      · cases hr
      · cases hr
        refine ⟨(List.prefix_iff_eq_append.1 (List.take_prefix ..)).symm, ?_, hne⟩
        rw [List.length_take]
        omega

theorem recv_suffix {t t' : Sock} {size : Nat} {r : Except Int (List UInt8)} (h : t.recv size = some (r, t')) :
    t'.incoming <:+ t.incoming := by
  unfold Sock.recv at h
  split at h
  · cases h
  · cases h
    exact List.suffix_rfl
  · dsimp only at h
    split at h
    · cases h
    · cases h
      exact List.drop_suffix ..

/-- What is taken of a body, and what is left of the stream. -/
theorem readBodyLoop_taken {stored : Bool} {size fuel : Nat} {out bytes : List UInt8} {t t' : Sock}
    (h : Request.readBodyLoop stored size fuel out t = some (some bytes, t')) (hout : out.length ≤ size) :
    ∃ taken, bytes = out ++ taken ∧ t.incoming = taken ++ t'.incoming ∧ bytes.length ≤ size := by
  induction fuel generalizing out t with
  | zero =>
      cases h
      exact ⟨[], by simp, rfl, hout⟩
  | succ fuel ih =>
      rw [Request.readBodyLoop] at h
      split at h
      · split at h
        · cases h
        · cases h
        · rename_i got t1 hr
          obtain ⟨hgot, hlen, -⟩ := recv_taken hr
          have hle : (out ++ got).length ≤ size := by
            rw [List.length_append]
            split at hlen <;> omega
          obtain ⟨taken, rfl, hrest, hsize⟩ := ih h hle
          exact ⟨got ++ taken, by rw [List.append_assoc], by rw [hgot, hrest, List.append_assoc], hsize⟩
      · cases h
        exact ⟨[], by simp, rfl, hout⟩

theorem readBody_within {stored : Bool} {size : Nat} {out : List UInt8} (hw : Within m rest req)
    (h : req.readBody stored size = some (ret, out, req')) : Within m rest req' := by
  obtain ⟨-, -, rfl⟩ | ⟨hs, ⟨-, rfl⟩ | ⟨r, t, hloop, ⟨-, -, rfl⟩ | ⟨bytes, rfl, rfl⟩⟩⟩ := readBody_cases h
  · exact within_error rfl
  · exact hw
  · exact within_error rfl
  · obtain ⟨left, hin, hleft⟩ := (within_readBody hs).1 hw
    obtain ⟨_, rfl, hin', hlen⟩ := readBodyLoop_taken hloop (Nat.zero_le _)
    have hle : bytes.length ≤ left.length := by omega
    -- what was taken is the start of what was left
    obtain ⟨left', rfl⟩ : bytes <+: left :=
      List.prefix_of_prefix_length_le ⟨t.incoming, hin'.symm.trans hin⟩ (List.prefix_append ..) hle
    rw [hin, List.append_assoc, List.append_cancel_left_eq] at hin'
    rw [List.length_append] at hleft
    by_cases hb : req.bodyBleft - bytes.length = 0
    · have hs' : (req.took t bytes.length).state = .sendStatus := if_pos hb
      apply (Behind.within_incoming_iff (by rw [Behind, hs']; decide)).2
      show t.incoming = rest
      rw [← hin', List.eq_nil_of_length_eq_zero (by omega : left'.length = 0), List.nil_append]
    · have hs' : (req.took t bytes.length).state = .readBody := (if_neg hb).trans hs
      exact (within_readBody hs').2 ⟨left', hin'.symm, by show _ = req.bodyBleft - bytes.length; omega⟩

/-- Whatever is called, what is received is no longer to come. -/
theorem exec_total {event : Event} (h : event.exec req = some req') :
    req'.sock.consumed + req'.sock.incoming.length = req.sock.consumed + req.sock.incoming.length := by
  have sending : req.sock.SameReceiving req'.sock →
      req'.sock.consumed + req'.sock.incoming.length = req.sock.consumed + req.sock.incoming.length := by
    rintro ⟨hin, -, hconsumed⟩
    rw [hin, hconsumed]
  cases event with
  | wsRecv size =>
      obtain ⟨⟨r, t⟩, hr, rfl⟩ := Option.map_eq_some_iff.1 h
      exact (Sock.recv_keeps hr).2.2
  | wsSend bytes =>
      obtain ⟨⟨r, t⟩, hr, rfl⟩ := Option.map_eq_some_iff.1 h
      exact sending (Sock.send_keeps hr)
  | call call =>
      obtain ⟨⟨ret, r⟩, hr, rfl⟩ := Option.map_eq_some_iff.1 h
      cases call with
      | sendStatus code resSize => exact sending (sendStatus_keeps hr).1
      | sendHeaderField name arg => exact sending (sendHeaderField_keeps hr).1
      | endHeader => exact sending (endHeader_keeps hr).1
      | sendBody bytes => exact sending (sendBody_keeps hr).1
      | readHeaderField =>
          obtain ⟨⟨ret, field, r⟩, hread, ⟨⟩⟩ := Option.map_eq_some_iff.1 hr
          obtain ⟨-, -, rfl⟩ | ⟨-, res, line, t, len, hline, hcases⟩ := readHeaderField_cases hread
          · rfl
          · have hk := (recvLine_keeps hline).2.2
            rcases hcases with ⟨-, rfl⟩ | ⟨-, rfl⟩ | ⟨ec, field, -, -, rfl⟩ | ⟨n, field, -, -, -, rfl⟩
            · exact hk
            · exact hk
            all_goals
              dsimp only
              rw [(Request.take_keeps (req.got t line len) field).2.2.2.1]
              exact hk
      | readBody stored size =>
          obtain ⟨⟨ret, out, r⟩, hread, ⟨⟩⟩ := Option.map_eq_some_iff.1 hr
          obtain ⟨-, -, rfl⟩ | ⟨-, ⟨-, rfl⟩ | ⟨res, t, hloop, ⟨-, -, rfl⟩ | ⟨bytes, rfl, rfl⟩⟩⟩ := readBody_cases hread
          · rfl
          · rfl
          · exact (readBodyLoop_keeps hloop).2.2
          · exact (readBodyLoop_keeps hloop).2.2

theorem behind_of_state {state : HttpState} (hs : req.state = state)
    (h : state ≠ .readFields ∧ state ≠ .readBody ∧ state ≠ .error) : Behind req := by
  rwa [Behind, hs]

/-- What a callback does leaves what is left of a message. -/
theorem exec_within {event : Event} {heads : List Nat} (hp : m.Plain) (hw : Within m rest req)
    (ho : Orderly ⟨.serving req, heads⟩ (.event event)) (h : event.exec req = some req') : Within m rest req' := by
  have htotal := exec_total h
  cases event with
  | wsRecv size =>
      obtain ⟨⟨r, t⟩, hr, rfl⟩ := Option.map_eq_some_iff.1 h
      have hsame : t.consumed = req.sock.consumed := ho _ hr
      have hlen : t.incoming.length = req.sock.incoming.length := by
        dsimp only [Request.use_sock] at htotal
        omega
      exact hw.congr rfl rfl rfl ((recv_suffix hr).eq_of_length hlen)
  | wsSend bytes =>
      obtain ⟨⟨r, t⟩, hr, rfl⟩ := Option.map_eq_some_iff.1 h
      exact hw.congr rfl rfl rfl (Sock.send_keeps hr).1
  | call call =>
      obtain ⟨⟨ret, r⟩, hr, rfl⟩ := Option.map_eq_some_iff.1 h
      cases call with
      | readHeaderField =>
          obtain ⟨⟨ret, field, r⟩, hread, ⟨⟩⟩ := Option.map_eq_some_iff.1 hr
          exact readHeaderField_within hp hw hread
      | readBody stored size =>
          obtain ⟨⟨ret, out, r⟩, hread, ⟨⟩⟩ := Option.map_eq_some_iff.1 hr
          exact readBody_within hw hread
      | sendStatus code resSize =>
          obtain ⟨hk, hs⟩ := sendStatus_keeps hr
          exact hw.sending hk (hs.imp id fun ⟨hne, hs'⟩ => ⟨⟨ho.1, ho.2, hne⟩, behind_of_state hs' (by decide)⟩)
      | sendHeaderField name arg =>
          obtain ⟨hk, hs⟩ := sendHeaderField_keeps hr
          exact hw.sending hk (hs.imp id fun ⟨hs, hs'⟩ => ⟨behind_of_state hs (by decide), behind_of_state hs' (by decide)⟩)
      | endHeader =>
          obtain ⟨hk, hs⟩ := endHeader_keeps hr
          refine hw.sending hk (hs.imp id fun ⟨hs, hs'⟩ => ⟨behind_of_state hs (by decide), ?_⟩)
          rcases hs' with hs' | hs' <;> exact behind_of_state hs' (by decide)
      | sendBody bytes =>
          obtain ⟨hk, hs⟩ := sendBody_keeps hr
          refine hw.sending hk (hs.imp id fun ⟨hs, hs'⟩ => ⟨behind_of_state hs (by decide), ?_⟩)
          rcases hs' with hs' | hs' <;> exact behind_of_state hs' (by decide)

end Within

/-! ## Runs -/

variable {msgs : List Message} {c c' : Conn}

theorem FramedInv.framed (h : FramedInv msgs c) : Framed msgs c := by
  rw [FramedInv] at h
  split at h
  · rename_i sock line hphase
    obtain ⟨done, rest, rfl, hheads, hin, htotal⟩ := h
    refine ⟨by rw [hheads]; exact starts_pre done rest, fun sock' line' hphase' => ?_⟩
    cases hphase.symm.trans hphase'
    rw [hheads, length_starts, List.take_left]
    rw [hin, streamOf_append, List.length_append] at htotal
    omega
  · rename_i req hphase
    obtain ⟨done, m, rest, rfl, hheads, -⟩ := h
    refine ⟨?_, fun sock line hphase' => by cases hphase.symm.trans hphase'⟩
    rw [hheads, show done ++ m :: rest = done ++ [m] ++ rest by simp]
    exact starts_pre _ rest
  · rename_i hphase
    exact ⟨h, fun sock line hphase' => by cases hphase.symm.trans hphase'⟩

theorem recvLine_nil {t t' : Sock} {size : Nat} {line line' : Nat → UInt8} {r : Except Int Nat} (hin : t.incoming = [])
    (h : recvLine size line t = some (r, line', t')) : ∃ ec, r = .error ec := by
  unfold recvLine at h
  split at h
  · cases h
  · cases h
    exact ⟨_, rfl⟩
  · rename_i n line1 t1 hloop
    cases size with
    | zero => cases hloop
    | succ size =>
        rw [recvLineLoop] at hloop
        cases hr : t.recv 1 with
        | none =>
            rw [hr] at hloop
            cases hloop
        | some p =>
            obtain ⟨res, t2⟩ := p
            rw [hr] at hloop
            cases res with
            | error ec => cases hloop
            | ok bytes =>
                obtain ⟨hbytes, -, hne⟩ := recv_taken hr
                rw [hin] at hbytes
                exact absurd (List.append_eq_nil_iff.1 hbytes.symm).1 hne

/-- A request line is the next message's. -/
theorem recvRequest_framed {sock : Sock} {line : Nat → UInt8} (h : recvRequest c.heads sock line = some c')
    (hphase : c.phase = .between sock line) (hi : FramedInv msgs c) : FramedInv msgs c' := by
  rw [FramedInv, hphase] at hi
  obtain ⟨done, rest, rfl, hheads, hin, htotal⟩ := hi
  unfold recvRequest at h
  cases hline : recvLine maxLineLen line sock with
  | none =>
      rw [hline] at h
      cases h
  | some p =>
      obtain ⟨r, line', t⟩ := p
      rw [hline] at h
      cases r with
      | error ec =>
          cases h
          show c.heads <+: _
          rw [hheads]
          exact starts_pre done rest
      | ok len =>
          cases rest with
          | nil =>
              obtain ⟨ec, hr⟩ := recvLine_nil hin hline
              cases hr
          | cons m rest =>
              have hin' : sock.incoming = (m.start ++ [13]) ++ 10 :: (headerBytes m.fields ++ crlf ++ m.body ++ streamOf rest) := by
                rw [hin]
                simp [streamOf, Message.bytes, crlf]
              have hL : ∀ c ∈ m.start ++ [13], c ≠ 10 := by
                intro c hc
                rcases List.mem_append.1 hc with hc | hc
                · exact (m.start_line c hc).1
                · rw [List.mem_singleton.1 hc]
                  decide
              obtain ⟨ec, hr, -⟩ | ⟨n, hr, htext, hrest, hzero⟩ := recvLine_line hL hin' hline
              · cases hr
              cases hr
              have hheads' : c.heads ++ [sock.consumed] = starts 0 (done ++ [m]) := by
                rw [starts_append, hheads]
                congr 1
                rw [starts, starts]
                rw [hin, streamOf_append, List.length_append] at htotal
                congr 1
                omega
              dsimp only at h
              cases hparse : parseRequestLine (copyOut line' 0 len) with
              | none =>
                  rw [hparse] at h
                  cases h
                  show c.heads ++ [sock.consumed] <+: _
                  rw [hheads', show done ++ m :: rest = done ++ [m] ++ rest by simp]
                  exact starts_pre _ rest
              | some p =>
                  rw [hparse] at h
                  cases h
                  refine ⟨done, m, rest, rfl, hheads', (within_readFields rfl).2 ⟨?_, [], m.fields, rfl, hrest, ?_⟩, ?_⟩
                  · show line' 0 ≠ 58
                    intro hcolon
                    apply parseRequestLine_head hparse
                    rw [← hcolon]
                    apply head?_copyOut
                    intro hlen
                    rw [hzero hlen] at hcolon
                    exact absurd hcolon (by decide)
                  · simp [Request.fresh]
                  · show t.consumed + t.incoming.length = _
                    rw [(recvLine_keeps hline).2.2, htotal]

theorem serve_framed {act : Act} (hp : ∀ m ∈ msgs, m.Plain) (hi : FramedInv msgs c) (ho : Orderly c act)
    (h : serve c act = some c') : FramedInv msgs c' := by
  obtain ⟨phase, heads⟩ := c
  cases act with
  | line =>
      cases phase with
      | between sock line => exact recvRequest_framed h rfl hi
      | serving req => cases h
      | closed => cases h
  | event event =>
      cases phase with
      | between sock line => cases h
      | closed => cases h
      | serving req =>
          obtain ⟨req', hexec, rfl⟩ := Option.map_eq_some_iff.1 h
          obtain ⟨done, m, rest, hmsgs, hheads, hw, htotal⟩ := hi
          have hm : m ∈ msgs := by simp [hmsgs]
          exact ⟨done, m, rest, hmsgs, hheads, exec_within (hp m hm) hw ho hexec, (exec_total hexec).trans htotal⟩
  | returns ec =>
      cases phase with
      | between sock line => cases h
      | closed => cases h
      | serving req =>
          cases h
          obtain ⟨done, m, rest, rfl, hheads, hw, htotal⟩ := hi
          have hsplit : done ++ m :: rest = done ++ [m] ++ rest := by simp
          by_cases hend : ec ≠ 0 ∨ req.state ≠ .done
          · rw [FramedInv, if_pos hend]
            show heads <+: _
            rw [show heads = _ from hheads, hsplit]
            exact starts_pre _ rest
          · rw [FramedInv, if_neg hend]
            have hdone : req.state = .done := Classical.not_not.1 fun h => hend (Or.inr h)
            exact ⟨done ++ [m], rest, hsplit, hheads, (behind_of_state hdone (by decide)).within_incoming_iff.1 hw, htotal⟩

/-- **The requests of a connection are told apart**: in every run of the task over a stream of requests, each request line
is read where a request starts, and the next one when the requests before it have been received to their ends. -/
theorem framed_of_run {msgs : List Message} (hp : ∀ m ∈ msgs, m.Plain) (recvs : List (Except Int Nat))
    (sends : List SendResult) (line : Nat → UInt8) {acts : List Act}
    (ho : Meets serve Orderly ⟨.between ⟨streamOf msgs, recvs, sends, [], 0, 0⟩ line, []⟩ acts) :
    Along serve (fun _ _ c => Framed msgs c) ⟨.between ⟨streamOf msgs, recvs, sends, [], 0, 0⟩ line, []⟩ acts := by
  refine along_of_meets (I := FramedInv msgs) (fun c act c' hi ho h => ?_) ?_ ho
  · have hi' := serve_framed hp hi ho h
    exact ⟨hi', hi'.framed⟩
  · exact ⟨[], msgs, rfl, rfl, rfl, Nat.zero_add _⟩

/-! ## A request in a body -/

theorem lengthLine_name : ∀ c ∈ ascii "Content-Length", c ≠ 0 ∧ c ≠ 58 ∧ ¬ isspace c := by decide

theorem lengthLine_value : ∀ c ∈ ascii " 18", c ≠ 10 ∧ c ≠ 13 := by decide

def lengthLine : HeaderLine :=
  ⟨ascii "Content-Length", ascii " 18", List.cons_ne_nil _ _, lengthLine_name, lengthLine_value⟩

theorem posted_start : ∀ c ∈ ascii "POST / HTTP/1.1", c ≠ 10 ∧ c ≠ 13 := by decide

theorem posted_announces : Announces [lengthLine] (ascii "GET / HTTP/1.1\r\n\r\n").length := by
  intro line hline _
  rw [List.mem_singleton.1 hline]
  exact ⟨by decide, by decide, by decide⟩

theorem lengthLine_isLength : lengthLine.isLength := by decide

/-- A request whose body is another. -/
def posted : Message :=
  ⟨ascii "POST / HTTP/1.1", [lengthLine], ascii "GET / HTTP/1.1\r\n\r\n", posted_start, posted_announces,
    fun h => absurd lengthLine_isLength (h lengthLine (List.mem_cons_self ..))⟩

theorem posted_plain : ∀ m ∈ [posted], m.Plain := by
  intro m hm
  rw [List.mem_singleton.1 hm]
  refine ⟨fun line hline _ => ?_, by decide⟩
  rw [List.mem_singleton.1 hline]
  exact lengthLine_isLength

def postedConn : Conn :=
  ⟨.between ⟨streamOf [posted], List.replicate 60 (.ok 63), List.replicate 6 (.ok 0), [], 0, 0⟩ fun _ => 0, []⟩

def reading : List Act := [.line, .event (.call .readHeaderField), .event (.call .readHeaderField)]

def answeringActs : List Act := [.event (.call (.sendStatus .ok 0)), .event (.call .endHeader), .returns 0]

/-- The body is read. -/
theorem framed_of_run_posted :
    (run serve postedConn (reading ++ .event (.call (.readBody true 64)) :: answeringActs)).isSome = true ∧
      Along serve (fun _ _ c => Framed [posted] c) postedConn
        (reading ++ .event (.call (.readBody true 64)) :: answeringActs) :=
  ⟨by decide, framed_of_run posted_plain _ _ _ (by decide)⟩

/-- The body is not read, and its first line is the next request line. -/
theorem not_framed_posted :
    ¬ Along serve (fun _ _ c => Framed [posted] c) postedConn (reading ++ answeringActs ++ [.line]) := by
  intro h
  have hheads : ((run serve postedConn (reading ++ answeringActs)).bind fun c => serve c .line).map Conn.heads =
      some [0, 39] := by
    decide
  obtain ⟨c, hrun, hc⟩ := Option.map_eq_some_iff.1 hheads
  obtain ⟨c', hrun, hline⟩ := Option.bind_eq_some_iff.1 hrun
  have hpre := (h.last hrun hline).1
  rw [hc] at hpre
  exact absurd hpre.length_le (by decide)

end Http

end YieldStm32
