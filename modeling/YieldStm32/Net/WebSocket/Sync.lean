import YieldStm32.Lib.Run
import YieldStm32.Net.WebSocket.Header

/-!
# Frame synchronisation

A server's `WebSocket_Recv` and `UHTTPSrvWS_Recv` as steps between the polls of the receive queue: bytes may arrive, a
header may not, and the connection may break at each of them.

Ghost state: `headers`, where in the stream each completed header read began; `labels`, whether each byte consumed was
taken for a part of a header.

* `Server`, `step` : a connection, and one poll of a call on it;
* `recvHeader_of_polls`, `recvPayload_of_poll` : the polls of a header, or of a payload, are the code's read of it;
* `Synced` : every header read began at a frame, every byte was taken for what it is;
* `Careful` : a header comes in two receives, its size is not in the form of eight bytes, and a control frame has a payload
  of less than 126;
* `synced_of_run` : synchronisation, over every such run.
-/

namespace YieldStm32

namespace WebSocket

open Transition

/-! ## Calls, poll by poll -/

def etimeout : Int := -5

/-- Where a call waits for bytes: outside of any call; at a header's first two bytes; at the rest of it, `start` being where
it began; or at a payload, of which `out` was stored. -/
inductive Pc where
  | idle
  | word (size : Nat) (timeout : Int)
  | rest (size : Nat) (timeout : Int) (start hdr : Nat) (pld : Nat → UInt8)
  | payload (size : Nat) (timeout : Int) (want : Nat) (out : List UInt8)

/-- A connection: its socket's receive queue, what has not arrived yet, and what the calls have returned. -/
structure Server where
  ws : Conn
  queue : List UInt8 := []
  coming : List UInt8
  pc : Pc := .idle
  returned : List (Except Int (DataType × List UInt8)) := []
  headers : List Nat := []
  labels : List Bool := []

/-- `sends` is what becomes of the sends a call makes before it waits again, `junk` what the stack holds. -/
inductive Event where
  | arrive (n : Nat)
  | call (size : Nat) (timeout : Int) (sends : Option Int)
  | poll (junk : Nat → UInt8) (sends : Option Int)
  | timeOut (sends : Option Int)
  | disconnect

namespace Server

variable (s : Server)

/-- `Queue_Get`, of bytes that are taken for a part of a header or are not. -/
def consume (size : Nat) (header : Bool) : Server :=
  { s with
    queue := s.queue.drop size
    labels := s.labels ++ List.replicate (min size s.queue.length) header }

def finish : Except Int (DataType × List UInt8) → Server
  | .error ec => { s with ws := { s.ws with isOpen := false }, pc := .idle, returned := s.returned ++ [.error ec] }
  | .ok r => { s with pc := .idle, returned := s.returned ++ [.ok r] }

def reset : Server := { s with ws := { s.ws with rxSize := 0, rxOffs := 0 } }

/-- Whether the frame is one that carries data. -/
def carries : Prop := s.ws.rxOpcode = opcodeText ∨ s.ws.rxOpcode = opcodeBin

instance : Decidable s.carries := inferInstanceAs (Decidable (_ ∨ _))

/-- The payload, or what is asked for of it, is there. -/
def received (size : Nat) (timeout : Int) (out : List UInt8) (sends : Option Int) : Server :=
  if s.carries then
    { s with ws := { s.ws with rxOffs := s.ws.rxOffs + out.length } }.finish
      (.ok (if s.ws.rxOpcode = opcodeText then .text else .bin, out))
  else if s.ws.rxOpcode = opcodePong then { s.reset with pc := .word size timeout }
  else if s.ws.rxOpcode = opcodeClose then s.reset.finish (.error enoconnect)
  else match sends with
    | some ec => s.reset.finish (.error ec)
    | none => { s.reset with pc := .word size timeout }

/-- The head of the loop in `WebSocket_RecvPayload`, `UHTTPSrvWS_RecvPayload`. -/
def payload (size : Nat) (timeout : Int) (want : Nat) (out : List UInt8) (sends : Option Int) : Server :=
  if out.length < want then { s with pc := .payload size timeout want out } else s.received size timeout out sends

/-- The `switch` -/
def dispatch (size : Nat) (timeout : Int) (sends : Option Int) : Server :=
  if s.carries then s.payload size timeout (min size s.ws.left) [] sends
  else if s.ws.rxOpcode = opcodePong then s.payload size timeout s.ws.rxSize [] sends
  else if s.ws.rxOpcode = opcodePing ∨ s.ws.rxOpcode = opcodeClose then
    s.payload size timeout (min 125 s.ws.rxSize) [] sends
  else s.finish (.error efatal)

/-- From the label `again` on. -/
def again (size : Nat) (timeout : Int) (sends : Option Int) : Server :=
  if s.ws.rxSize = s.ws.rxOffs then { s with pc := .word size timeout } else s.dispatch size timeout sends

/-- No header: the end of the call, or a ping. -/
def noHeader (http : Bool) (size : Nat) (timeout ec : Int) (sends : Option Int) : Server :=
  let hdrTo := if timeout ≠ 0 then min timeout 1000 else 1000
  if (http ∧ ec = enoconnect) ∨ hdrTo < 1000 then s.finish (.error ec)
  else match sends with
    | some ec => s.finish (.error ec)
    | none => s.again size (if timeout ≠ 0 then timeout - 1000 else timeout) sends

/-- A header's first two bytes. -/
def word (http : Bool) (size : Nat) (timeout : Int) (junk : Nat → UInt8) (sends : Option Int) : Server :=
  let pld := Ring.copyIn junk 0 (s.queue.take 2)
  let hdr := bigEndian pld 0 2
  let s1 := s.consume 2 true
  if (s.ws.role = .server ∧ hdr &&& hdrMasked = 0) ∨ (s.ws.role = .client ∧ hdr &&& hdrMasked ≠ 0) then
    s1.noHeader http size timeout efatal sends
  else
    { s1 with
      ws := if hdr &&& hdrPldLen < 126 then { s.ws with rxSize := hdr &&& hdrPldLen } else s.ws
      pc := .rest size timeout s.labels.length hdr pld }

/-- The header once the rest of it is there. -/
def header (hdr : Nat) (pld : Nat → UInt8) : Conn :=
  { s.ws.takeHeader hdr (Ring.copyIn pld 2 (s.queue.take (bytesToGet hdr))) with
    rxOpcode := hdr &&& hdrOpcode
    rxOffs := 0 }

/-- One poll that finds bytes in the queue. -/
def poll (http : Bool) (junk : Nat → UInt8) (sends : Option Int) : Option Server :=
  match s.pc with
  | .idle => none
  | .word size timeout => some (s.word http size timeout junk sends)
  | .rest size timeout start hdr pld =>
      some ({ s.consume (bytesToGet hdr) true with ws := s.header hdr pld, headers := s.headers ++ [start] }.dispatch
        size timeout sends)
  | .payload size timeout want out =>
      let buf := s.queue.take (min 32 (want - out.length))
      let buf := if s.ws.role = .server then applyMask s.ws.mask 0 buf else buf
      some ((s.consume (min 32 (want - out.length)) false).payload size timeout want (out ++ buf) sends)

/-- The connection breaks: nothing more comes. -/
def disconnect (http : Bool) : Option Server :=
  match s.pc with
  | .idle => none
  | .word size timeout | .rest size timeout _ _ _ =>
      some ({ s with coming := [] }.noHeader http size timeout enoconnect (some enoconnect))
  | .payload .. =>
      let s1 := { s with coming := [] }
      some ((if s.ws.rxOpcode = opcodePong then s1.reset else s1).finish (.error enoconnect))

end Server

/-- `http` tells `UHTTPSrvWS_Recv` from `WebSocket_Recv`. Bytes in the queue are taken before anything else is tested. -/
def step (http : Bool) (s : Server) : Event → Option Server
  | .arrive n =>
      if n ≤ s.coming.length then some { s with queue := s.queue ++ s.coming.take n, coming := s.coming.drop n } else none
  | .call size timeout sends =>
      match s.pc with
      | .idle => some (s.again size timeout sends)
      | _ => none
  | .poll junk sends => if s.queue = [] then none else s.poll http junk sends
  | .timeOut sends =>
      match s.pc with
      | .word size timeout => if s.queue = [] then some (s.noHeader http size timeout etimeout sends) else none
      | _ => none
  | .disconnect => if s.queue = [] then s.disconnect http else none

section Polls

variable {http : Bool} {env : Env} {s s2 : Server} {t t1 t2 : Sock} {size want : Nat} {timeout : Int} {sends : Option Int}

/-- Two polls, with whatever arrives between them, are the read of a header from a TCP layer that hands out what they find. -/
theorem recvHeader_of_polls
    (hrole : ¬ ((s.ws.role = .server ∧ bigEndian (Ring.copyIn (env.junk t.recvs) 0 (s.queue.take 2)) 0 2 &&& hdrMasked = 0) ∨
      (s.ws.role = .client ∧ bigEndian (Ring.copyIn (env.junk t.recvs) 0 (s.queue.take 2)) 0 2 &&& hdrMasked ≠ 0)))
    (hfirst : t.recv env 2 = (.ok (s.queue.take 2), t1)) :
    let pld := Ring.copyIn (env.junk t.recvs) 0 (s.queue.take 2)
    let hdr := bigEndian pld 0 2
    let s1 := s.word http size timeout (env.junk t.recvs) sends
    s1.pc = .rest size timeout s.labels.length hdr pld ∧
      (s2.ws = s1.ws → t1.recv env (bytesToGet hdr) = (.ok (s2.queue.take (bytesToGet hdr)), t2) →
        ∃ ws, recvHeader env s.ws t = (.ok hdr, ws, t2) ∧
          s2.header hdr pld = { ws with rxOpcode := hdr &&& hdrOpcode, rxOffs := 0 }) := by
  intro pld hdr s1
  have hs1 : s1 = _ := if_neg hrole
  refine ⟨by rw [hs1], fun hws hrest => ⟨_, ?_, rfl⟩⟩
  rw [hs1] at hws
  rw [recvHeader, hfirst]
  dsimp only
  rw [if_neg hrole, hrest]
  dsimp only
  rw [hws]

/-- A poll of a payload is a turn of its loop. -/
theorem recvPayload_of_poll {out : List UInt8} (hpc : s.pc = .payload size timeout want out) (hlt : out.length < want)
    (hrecv : t.recv env (min 32 (want - out.length)) = (.ok (s.queue.take (min 32 (want - out.length))), t1))
    (junk : Nat → UInt8) (fuel : Nat) :
    ∃ out', recvPayloadLoop env s.ws want (fuel + 1) out t = recvPayloadLoop env s.ws want fuel out' t1 ∧
      s.poll http junk sends =
        some ((s.consume (min 32 (want - out.length)) false).payload size timeout want out' sends) := by
  refine ⟨_, ?_, by rw [Server.poll, hpc]⟩
  rw [recvPayloadLoop, if_pos hlt, hrecv]

end Polls

/-! ## Streams of frames -/

/-- A frame of a client: text or binary data, a ping, a pong or a close. -/
structure ClientFrame where
  b0 : UInt8
  mask : Mask
  msg : List UInt8
  opcode : b0.toNat % 16 ∈ [1, 2, 8, 9, 10]
  length : msg.length < 2 ^ 63

namespace ClientFrame

def bytes (f : ClientFrame) : List UInt8 := frame f.b0 f.mask f.msg

/-- The header behind its first two bytes. -/
def tail (f : ClientFrame) : List UInt8 := headerTail f.mask f.msg.length

def masked (f : ClientFrame) : List UInt8 := applyMask f.mask 0 f.msg

/-- Which bytes are a header's, and which a payload's. -/
def layout (f : ClientFrame) : List Bool :=
  List.replicate (2 + f.tail.length) true ++ List.replicate f.msg.length false

def word (f : ClientFrame) : Nat := f.b0.toNat * 256 + (128 + lenCode f.msg.length)

end ClientFrame

/-- Where the frames begin. -/
def starts : Nat → List ClientFrame → List Nat
  | _, [] => []
  | p, f :: fs => p :: starts (p + f.bytes.length) fs

/-- The header reads that are complete began at the frames, one after the other; and each byte was taken for what it is. -/
def Synced (frames : List ClientFrame) (s : Server) : Prop :=
  s.headers <+: starts 0 frames ∧ s.labels <+: frames.flatMap ClientFrame.layout

instance (frames : List ClientFrame) (s : Server) : Decidable (Synced frames s) := inferInstanceAs (Decidable (_ ∧ _))

/-- What a poll has to find: the first two bytes of a header together, and so the rest of it, whose size is not in the form
of eight bytes and which, unless it is of data or a pong, announces less than 126. -/
def Pc.Whole (queue : List UInt8) : Pc → Prop
  | .word _ _ => queue.length ≠ 1
  | .rest _ _ _ hdr _ => (queue = [] ∨ bytesToGet hdr ≤ queue.length) ∧ hdr &&& hdrPldLen ≠ 127 ∧
      (hdr &&& hdrOpcode = opcodePing ∨ hdr &&& hdrOpcode = opcodeClose → hdr &&& hdrPldLen < 126)
  | _ => True

instance (queue : List UInt8) : ∀ pc, Decidable (Pc.Whole queue pc)
  | .idle => isTrue trivial
  | .word _ _ => inferInstanceAs (Decidable (_ ≠ _))
  | .rest _ _ _ _ _ => inferInstanceAs (Decidable (_ ∧ _ ∧ _))
  | .payload _ _ _ _ => isTrue trivial

def Careful (s : Server) : Event → Prop
  | .poll _ _ => s.pc.Whole s.queue
  | _ => True

instance (s : Server) : ∀ e, Decidable (Careful s e)
  | .poll _ _ => inferInstanceAs (Decidable (s.pc.Whole s.queue))
  | .arrive _ | .call _ _ _ | .timeOut _ | .disconnect => isTrue trivial

/-! ## Streams -/

section Streams

theorem ClientFrame.bytes_eq (f : ClientFrame) :
    f.bytes = f.b0 :: UInt8.ofNat (128 + lenCode f.msg.length) :: (f.tail ++ f.masked) := rfl

@[simp] theorem ClientFrame.length_masked (f : ClientFrame) : f.masked.length = f.msg.length := length_applyMask ..

theorem ClientFrame.length_bytes (f : ClientFrame) : f.bytes.length = f.layout.length := by
  simp [ClientFrame.bytes_eq, ClientFrame.layout]
  omega

theorem starts_append (p : Nat) (fs gs : List ClientFrame) :
    starts p (fs ++ gs) = starts p fs ++ starts (p + (fs.flatMap ClientFrame.layout).length) gs := by
  induction fs generalizing p with
  | nil => rfl
  | cons f fs ih =>
      rw [List.cons_append, starts, starts, ih, List.cons_append, List.flatMap_cons, List.length_append,
        f.length_bytes, Nat.add_assoc]

/-- A place in the stream: `seen` of the frame after `done` has been consumed, `left` of it has not. -/
structure Placed (done more : List ClientFrame) (seen : List Bool) (left : List UInt8) (heads : List Nat) (s : Server) :
    Prop where
  stream : s.queue ++ s.coming = left ++ more.flatMap ClientFrame.bytes
  labels : s.labels = done.flatMap ClientFrame.layout ++ seen
  headers : s.headers = heads

/-- Between two frames. -/
def AtFrame (done more : List ClientFrame) : Server → Prop := Placed done more [] [] (starts 0 done)

/-- Behind the first two bytes of a header. -/
def InHeader (done : List ClientFrame) (f : ClientFrame) (more : List ClientFrame) : Server → Prop :=
  Placed done more [true, true] (f.tail ++ f.masked) (starts 0 done)

/-- Behind `k` bytes of a payload. -/
def InPayload (done : List ClientFrame) (f : ClientFrame) (more : List ClientFrame) (k : Nat) : Server → Prop :=
  Placed done more (List.replicate (2 + f.tail.length) true ++ List.replicate k false) (f.masked.drop k)
    (starts 0 (done ++ [f]))

/-- What leaves the stream as it is. -/
structure Keeps (s s' : Server) : Prop where
  stream : s'.queue ++ s'.coming = s.queue ++ s.coming
  labels : s'.labels = s.labels
  headers : s'.headers = s.headers
  role : s'.ws.role = s.ws.role

variable {done more : List ClientFrame} {seen : List Bool} {left : List UInt8} {heads : List Nat} {f : ClientFrame}
  {s s' : Server} {k : Nat}

theorem Keeps.refl (s : Server) : Keeps s s := ⟨rfl, rfl, rfl, rfl⟩

theorem Placed.keeps (h : Placed done more seen left heads s) (hk : Keeps s s') : Placed done more seen left heads s' :=
  ⟨by rw [hk.stream, h.stream], by rw [hk.labels, h.labels], by rw [hk.headers, h.headers]⟩

/-- Bytes that are all there, consumed. -/
theorem Placed.consume (h : Placed done more seen left heads s) (size : Nat) (header : Bool) (hn : size ≤ left.length) :
    s.queue.take size = left.take (min size s.queue.length) ∧
      Placed done more (seen ++ List.replicate (min size s.queue.length) header)
        (left.drop (min size s.queue.length)) heads (s.consume size header) := by
  have hle : min size s.queue.length ≤ left.length := (Nat.min_le_left ..).trans hn
  have htake : s.queue.take size = (s.queue ++ s.coming).take (min size s.queue.length) := by
    rw [List.take_append_of_le_length (Nat.min_le_right ..), ← List.take_eq_take_min]
  have hdrop : s.queue.drop size ++ s.coming = (s.queue ++ s.coming).drop (min size s.queue.length) := by
    rw [List.drop_append_of_le_length (Nat.min_le_right ..), ← List.drop_eq_drop_min]
  refine ⟨by rw [htake, h.stream, List.take_append_of_le_length hle], ?_, ?_, h.headers⟩
  · show s.queue.drop size ++ s.coming = _
    rw [hdrop, h.stream, List.drop_append_of_le_length hle]
  · show s.labels ++ _ = _
    rw [h.labels, List.append_assoc]

/-- The end of a payload is where the next frame begins. -/
theorem InPayload.atFrame (h : InPayload done f more f.msg.length s) : AtFrame (done ++ [f]) more s := by
  refine ⟨?_, ?_, h.headers⟩
  · rw [h.stream, List.drop_eq_nil_of_le (by rw [f.length_masked])]
  · rw [h.labels, List.flatMap_append, List.append_nil]
    simp [ClientFrame.layout]

theorem starts_mono (fs gs : List ClientFrame) : starts 0 fs <+: starts 0 (fs ++ gs) := by
  rw [starts_append]
  exact List.prefix_append ..

theorem AtFrame.synced {frames : List ClientFrame} (h : AtFrame done more s) (hf : frames = done ++ more) :
    Synced frames s := by
  subst hf
  refine ⟨?_, ?_⟩
  · rw [h.headers]
    exact starts_mono ..
  · rw [h.labels, List.append_nil, List.flatMap_append]
    exact List.prefix_append ..

/-- Within a frame. -/
theorem Placed.synced {frames : List ClientFrame} (h : Placed done more seen left heads s) (hf : frames = done ++ f :: more)
    (hseen : seen <+: f.layout) (hheads : heads <+: starts 0 (done ++ [f])) : Synced frames s := by
  subst hf
  refine ⟨?_, ?_⟩
  · rw [h.headers, List.append_cons]
    exact hheads.trans (starts_mono ..)
  · rw [h.labels, List.flatMap_append, List.flatMap_cons]
    exact (List.prefix_append_right_inj _).2 (hseen.trans (List.prefix_append ..))

theorem InHeader.synced {frames : List ClientFrame} (h : InHeader done f more s) (hf : frames = done ++ f :: more) :
    Synced frames s := by
  refine Placed.synced h hf ?_ (starts_mono ..)
  rw [ClientFrame.layout, List.replicate_add]
  exact ⟨List.replicate f.tail.length true ++ List.replicate f.msg.length false, by simp [List.replicate_succ]⟩

theorem InPayload.synced {frames : List ClientFrame} (h : InPayload done f more k s) (hf : frames = done ++ f :: more)
    (hk : k ≤ f.msg.length) : Synced frames s := by
  refine Placed.synced h hf ?_ (List.prefix_rfl)
  refine (List.prefix_append_right_inj _).2 ⟨List.replicate (f.msg.length - k) false, ?_⟩
  rw [← List.replicate_add, Nat.add_sub_cancel' hk]

end Streams

/-! ## The invariant -/

/-- The header of a frame as it was taken. -/
structure Taken (f : ClientFrame) (ws : Conn) : Prop where
  role : ws.role = .server
  size : ws.rxSize = f.msg.length
  lt : f.msg.length < 2 ^ 32
  opcode : ws.rxOpcode = f.b0.toNat % 16 * 256
  short : ws.rxOpcode = opcodePing ∨ ws.rxOpcode = opcodeClose → f.msg.length ≤ 125

/-- Nothing is being read. -/
def Boundary (frames : List ClientFrame) (s : Server) : Prop :=
  s.ws.role = .server ∧ s.ws.rxSize = s.ws.rxOffs ∧ ∃ done more, frames = done ++ more ∧ AtFrame done more s

/-- `k` bytes of a payload have been read. -/
def Within (frames : List ClientFrame) (k : Nat) (s : Server) : Prop :=
  ∃ done f more, frames = done ++ f :: more ∧ InPayload done f more k s ∧ Taken f s.ws ∧ k ≤ f.msg.length

/-- The connection is gone, and what came of it was read. -/
def Lost (frames : List ClientFrame) (s : Server) : Prop :=
  s.ws.role = .server ∧ s.queue = [] ∧ s.coming = [] ∧ Synced frames s

/-- Where the stream is, for each place of a call. -/
def Follows (frames : List ClientFrame) (s : Server) : Prop :=
  match s.pc with
  | .idle => Boundary frames s ∨ (s.carries ∧ Within frames s.ws.rxOffs s)
  | .word _ _ => Boundary frames s
  | .rest _ _ start hdr _ => ∃ done f more ws, frames = done ++ f :: more ∧ InHeader done f more s ∧
      start = (done.flatMap ClientFrame.layout).length ∧ hdr = f.word ∧ ws.role = .server ∧
      s.ws = if lenCode f.msg.length < 126 then { ws with rxSize := lenCode f.msg.length } else ws
  | .payload _ _ want out => Within frames (s.ws.rxOffs + out.length) s ∧ out.length ≤ want ∧
      s.ws.rxOffs + want ≤ s.ws.rxSize ∧ (¬ s.carries → s.ws.rxOffs + want = s.ws.rxSize)

def Inv (frames : List ClientFrame) (s : Server) : Prop := Lost frames s ∨ Follows frames s

section Invariant

variable {frames : List ClientFrame} {s s' : Server} {k size : Nat} {timeout : Int} {sends : Option Int}

theorem Lost.keeps (h : Lost frames s) (hk : Keeps s s') : Lost frames s' := by
  obtain ⟨hrole, hq, hc, hh, hl⟩ := h
  have hnil := hk.stream
  rw [hq, hc, List.append_nil, List.append_eq_nil_iff] at hnil
  exact ⟨by rw [hk.role, hrole], hnil.1, hnil.2, by rw [hk.headers]; exact hh, by rw [hk.labels]; exact hl⟩

theorem Follows.synced (h : Follows frames s) : Synced frames s := by
  unfold Follows at h
  split at h
  · rcases h with ⟨-, -, done, more, hf, h⟩ | ⟨-, done, f, more, hf, h, -, hk⟩
    · exact h.synced hf
    · exact h.synced hf hk
  · obtain ⟨-, -, done, more, hf, h⟩ := h
    exact h.synced hf
  · obtain ⟨done, f, more, ws, hf, h, -⟩ := h
    exact h.synced hf
  · obtain ⟨⟨done, f, more, hf, h, -, hk⟩, -⟩ := h
    exact h.synced hf hk

theorem Inv.synced (h : Inv frames s) : Synced frames s := by
  rcases h with h | h
  · exact h.2.2.2
  · exact h.synced

/-! ### What a call does between two polls -/

section Keeps

theorem Keeps.finish (r : Except Int (DataType × List UInt8)) : Keeps s (s.finish r) := by
  cases r <;> exact ⟨rfl, rfl, rfl, rfl⟩

theorem Keeps.trans {s'' : Server} (h : Keeps s s') (h' : Keeps s' s'') : Keeps s s'' :=
  ⟨h'.stream.trans h.stream, h'.labels.trans h.labels, h'.headers.trans h.headers, h'.role.trans h.role⟩

theorem Keeps.reset (s : Server) : Keeps s s.reset := ⟨rfl, rfl, rfl, rfl⟩

theorem Keeps.received (out : List UInt8) : Keeps s (s.received size timeout out sends) := by
  unfold Server.received
  split
  · exact ⟨rfl, rfl, rfl, rfl⟩
  · split
    · exact ⟨rfl, rfl, rfl, rfl⟩
    · split
      · exact (Keeps.reset s).trans (Keeps.finish _)
      · split
        · exact (Keeps.reset s).trans (Keeps.finish _)
        · exact ⟨rfl, rfl, rfl, rfl⟩

theorem Keeps.payload (want : Nat) (out : List UInt8) : Keeps s (s.payload size timeout want out sends) := by
  unfold Server.payload
  split
  · exact ⟨rfl, rfl, rfl, rfl⟩
  · exact Keeps.received out

theorem Keeps.dispatch : Keeps s (s.dispatch size timeout sends) := by
  unfold Server.dispatch
  split
  · exact Keeps.payload ..
  · split
    · exact Keeps.payload ..
    · split
      · exact Keeps.payload ..
      · exact Keeps.finish _

theorem Keeps.again : Keeps s (s.again size timeout sends) := by
  unfold Server.again
  split
  · exact ⟨rfl, rfl, rfl, rfl⟩
  · exact Keeps.dispatch

/-- Where no header comes the call ends, or starts again. -/
theorem noHeader_cases (s : Server) (http : Bool) (size : Nat) (timeout ec : Int) (sends : Option Int) :
    (∃ ec', s.noHeader http size timeout ec sends = s.finish (.error ec')) ∨
      ∃ timeout', s.noHeader http size timeout ec sends = s.again size timeout' none := by
  unfold Server.noHeader
  generalize (if timeout ≠ 0 then min timeout 1000 else 1000) = hdrTo
  dsimp only
  split
  · exact Or.inl ⟨ec, rfl⟩
  · cases sends with
    | some ec' => exact Or.inl ⟨ec', rfl⟩
    | none => exact Or.inr ⟨_, rfl⟩

theorem Keeps.noHeader (http : Bool) (ec : Int) : Keeps s (s.noHeader http size timeout ec sends) := by
  rcases noHeader_cases s http size timeout ec sends with ⟨ec', h⟩ | ⟨timeout', h⟩
  · rw [h]
    exact Keeps.finish _
  · rw [h]
    exact Keeps.again

end Keeps

theorem Boundary.keeps (h : Boundary frames s) (hk : Keeps s s') (hidle : s'.ws.rxSize = s'.ws.rxOffs) :
    Boundary frames s' := by
  obtain ⟨hrole, -, done, more, hf, hp⟩ := h
  exact ⟨by rw [hk.role, hrole], hidle, done, more, hf, Placed.keeps hp hk⟩

theorem Within.keeps (h : Within frames k s) (hk : Keeps s s') (hws : s'.ws = s.ws) : Within frames k s' := by
  obtain ⟨done, f, more, hf, hp, ht, hle⟩ := h
  exact ⟨done, f, more, hf, Placed.keeps hp hk, by rwa [hws], hle⟩

/-- Bytes that arrive change nothing of what is to come. -/
theorem Follows.keeps (h : Follows frames s) (hk : Keeps s s') (hws : s'.ws = s.ws) (hpc : s'.pc = s.pc) :
    Follows frames s' := by
  unfold Follows Server.carries at h ⊢
  rw [hpc, hws]
  split at h
  · exact h.imp (fun h => h.keeps hk (by rw [hws]; exact h.2.1)) fun h => ⟨h.1, h.2.keeps hk hws⟩
  · exact h.keeps hk (by rw [hws]; exact h.2.1)
  · obtain ⟨done, f, more, ws, hf, hp, h⟩ := h
    exact ⟨done, f, more, ws, hf, Placed.keeps hp hk, h⟩
  · exact ⟨Within.keeps h.1 hk hws, h.2⟩

/-- Nothing is left of the payload. -/
theorem Within.boundary (h : Within frames s.ws.rxSize s) (hk : Keeps s s') (hidle : s'.ws.rxSize = s'.ws.rxOffs) :
    Boundary frames s' := by
  obtain ⟨done, f, more, hf, hp, ht, -⟩ := h
  rw [ht.size] at hp
  exact ⟨by rw [hk.role, ht.role], hidle, done ++ [f], more, by rw [hf]; simp, Placed.keeps hp.atFrame hk⟩

theorem Boundary.finish (h : Boundary frames s) (r : Except Int (DataType × List UInt8)) : Follows frames (s.finish r) := by
  cases r <;> exact Or.inl (h.keeps (Keeps.finish _) h.2.1)

theorem Follows.received (out : List UInt8) (h : Within frames (s.ws.rxOffs + out.length) s)
    (hall : ¬ s.carries → s.ws.rxOffs + out.length = s.ws.rxSize) :
    Follows frames (s.received size timeout out sends) := by
  unfold Server.received
  split
  · rename_i hc
    right
    obtain ⟨done, f, more, hf, hp, ht, hk⟩ := h
    refine ⟨hc, done, f, more, hf, ?_, ⟨ht.role, ht.size, ht.lt, ht.opcode, ht.short⟩, hk⟩
    exact Placed.keeps hp ⟨rfl, rfl, rfl, rfl⟩
  · rename_i hc
    have hreset : Boundary frames s.reset := Within.boundary (by rwa [hall hc] at h) (Keeps.reset s) rfl
    split
    · exact hreset.keeps ⟨rfl, rfl, rfl, rfl⟩ rfl
    · split
      · exact hreset.finish _
      · split
        · exact hreset.finish _
        · exact hreset.keeps ⟨rfl, rfl, rfl, rfl⟩ rfl

theorem Follows.payload {want : Nat} {out : List UInt8} (h : Within frames (s.ws.rxOffs + out.length) s)
    (hout : out.length ≤ want) (hwant : s.ws.rxOffs + want ≤ s.ws.rxSize)
    (hall : ¬ s.carries → s.ws.rxOffs + want = s.ws.rxSize) :
    Follows frames (s.payload size timeout want out sends) := by
  unfold Server.payload
  split
  · refine ⟨?_, hout, hwant, hall⟩
    exact h.keeps ⟨rfl, rfl, rfl, rfl⟩ rfl
  · have hend : out.length = want := by omega
    exact Follows.received out h (by rwa [hend])

/-- The `switch`, from any place within a payload that is read in parts, or from the start of another. -/
theorem Follows.dispatch (h : Within frames s.ws.rxOffs s) (h0 : ¬ s.carries → s.ws.rxOffs = 0) :
    Follows frames (s.dispatch size timeout sends) := by
  have h' : Within frames (s.ws.rxOffs + ([] : List UInt8).length) s := h
  obtain ⟨done, f, more, hf, hp, ht, hk⟩ := h
  unfold Server.dispatch
  split
  · rename_i hc
    have hleft : s.ws.left = s.ws.rxSize - s.ws.rxOffs := by
      rw [Conn.left, ht.size]
      have := ht.lt
      omega
    refine Follows.payload h' (Nat.zero_le _) ?_ fun hn => absurd hc hn
    rw [hleft, ht.size]
    omega
  · rename_i hc
    split
    · refine Follows.payload h' (Nat.zero_le _) ?_ fun _ => ?_ <;> rw [h0 hc] <;> omega
    · split
      · rename_i hctl
        have hshort : min 125 s.ws.rxSize = s.ws.rxSize := by
          rw [ht.size]
          exact Nat.min_eq_right (ht.short hctl)
        rw [hshort]
        refine Follows.payload h' (Nat.zero_le _) ?_ fun _ => ?_ <;> rw [h0 hc] <;> omega
      · rename_i hpong hctl
        exfalso
        have hop := f.opcode
        have hcode := ht.opcode
        unfold Server.carries at hc
        unfold opcodeText opcodeBin at hc
        unfold opcodePong at hpong
        unfold opcodePing opcodeClose at hctl
        simp only [List.mem_cons, List.not_mem_nil, or_false] at hop
        omega

theorem Boundary.again (h : Boundary frames s) : Follows frames (s.again size timeout sends) := by
  rw [Server.again, if_pos h.2.1]
  exact h.keeps ⟨rfl, rfl, rfl, rfl⟩ h.2.1

theorem Boundary.noHeader (h : Boundary frames s) (http : Bool) (ec : Int) :
    Follows frames (s.noHeader http size timeout ec sends) := by
  rcases noHeader_cases s http size timeout ec sends with ⟨ec', heq⟩ | ⟨timeout', heq⟩
  · rw [heq]
    exact h.finish _
  · rw [heq]
    exact h.again

/-! ### One poll -/

variable {http : Bool} {junk : Nat → UInt8}

theorem Follows.call (h : Follows frames s) (hpc : s.pc = .idle) : Follows frames (s.again size timeout sends) := by
  rw [Follows, hpc] at h
  rcases h with h | ⟨hc, h⟩
  · exact h.again
  · by_cases hidle : s.ws.rxSize = s.ws.rxOffs
    · rw [Server.again, if_pos hidle]
      exact Within.boundary (s := s) (by rwa [hidle]) ⟨rfl, rfl, rfl, rfl⟩ hidle
    · rw [Server.again, if_neg hidle]
      exact Follows.dispatch h fun hn => absurd hc hn

/-- Two bytes of a header are its word. -/
theorem Boundary.word (h : Boundary frames s) (hq : s.queue ≠ []) (htwo : s.queue.length ≠ 1) :
    Follows frames (s.word http size timeout junk sends) := by
  obtain ⟨hrole, hidle, done, more, hf, hp⟩ := h
  have hlen : 2 ≤ s.queue.length := by
    have := List.length_pos_iff.2 hq
    omega
  cases more with
  | nil =>
      have hnil := hp.stream
      rw [List.flatMap_nil, List.append_nil, List.append_eq_nil_iff] at hnil
      exact absurd hnil.1 hq
  | cons f more =>
      have hp' : Placed done more [] f.bytes (starts 0 done) s :=
        ⟨by rw [hp.stream, List.flatMap_cons, List.nil_append], hp.labels, hp.headers⟩
      obtain ⟨htake, hnext⟩ := hp'.consume 2 true (by rw [f.bytes_eq]; simp)
      rw [Nat.min_eq_left hlen, f.bytes_eq] at htake hnext
      have hword : bigEndian (Ring.copyIn junk 0 (s.queue.take 2)) 0 2 = f.word := by
        have := lenCode_lt f.msg.length
        rw [htake]
        simp [bigEndian, Ring.copyIn, UInt8.toNat_ofNat', ClientFrame.word]
        omega
      have hmasked : f.word &&& hdrMasked = 128 := word_masked f.b0 (lenCode_lt _)
      have hcode : f.word &&& hdrPldLen = lenCode f.msg.length := word_pldLen f.b0 (lenCode_lt _)
      unfold Server.word
      simp only [hword, hmasked, hcode]
      rw [if_neg (by simp [hrole])]
      refine ⟨done, f, more, s.ws, hf, ⟨hnext.stream, hnext.labels, hnext.headers⟩, ?_, rfl, hrole, rfl⟩
      rw [hp.labels, List.append_nil]

/-- The rest of a header, all of it. -/
theorem Follows.rest {start hdr : Nat} {pld : Nat → UInt8} (h : Follows frames s)
    (hpc : s.pc = .rest size timeout start hdr pld) (hall : bytesToGet hdr ≤ s.queue.length) (hform : hdr &&& hdrPldLen ≠ 127)
    (hshort : hdr &&& hdrOpcode = opcodePing ∨ hdr &&& hdrOpcode = opcodeClose → hdr &&& hdrPldLen < 126) :
    Follows frames ({ s.consume (bytesToGet hdr) true with
      ws := s.header hdr pld, headers := s.headers ++ [start] }.dispatch size timeout sends) := by
  rw [Follows, hpc] at h
  obtain ⟨done, f, more, ws, hf, hp, rfl, rfl, hrole, hws⟩ := h
  have hcode : f.word &&& hdrPldLen = lenCode f.msg.length := word_pldLen f.b0 (lenCode_lt _)
  have hop : f.word &&& hdrOpcode = f.b0.toNat % 16 * 256 := word_opcode f.b0 (lenCode_lt _)
  rw [hcode] at hform hshort
  rw [hop] at hshort
  have hlen : f.msg.length ≤ 65535 := by
    unfold lenCode at hform
    split at hform
    · omega
    · split at hform
      · assumption
      · exact absurd rfl hform
  have hbytes : bytesToGet f.word = f.tail.length := by
    rw [ClientFrame.word, bytesToGet_frame, ClientFrame.tail, length_headerTail, if_pos hlen, if_pos hlen, Nat.add_comm]
  obtain ⟨htake, hnext⟩ := Placed.consume hp (bytesToGet f.word) true (by rw [hbytes]; simp)
  rw [Nat.min_eq_left hall, hbytes] at hnext htake
  rw [List.take_left] at htake
  rw [List.drop_left] at hnext
  have htaken : s.header f.word pld =
      { ws with rxSize := f.msg.length, mask := f.mask, rxOpcode := f.b0.toNat % 16 * 256, rxOffs := 0 } := by
    rw [Server.header, hws, ClientFrame.word, takeHeader_frame fun i hi => ?_, Nat.mod_eq_of_lt (by omega)]
    · show { ws with rxSize := _, mask := _, rxOpcode := f.word &&& hdrOpcode, rxOffs := 0 } = _
      rw [hop]
    · show _ = some (Ring.copyIn pld 2 (s.queue.take (bytesToGet f.word)) (2 + i))
      rw [copyIn_two, hbytes, htake, ClientFrame.tail, List.getElem?_eq_getElem hi]
      rfl
  apply Follows.dispatch
  · have hoffs : (s.header f.word pld).rxOffs = 0 := rfl
    show Within frames (s.header f.word pld).rxOffs _
    rw [hoffs, htaken, hbytes]
    refine ⟨done, f, more, hf, ⟨hnext.stream, ?_, ?_⟩, ⟨hrole, rfl, by omega, rfl, fun hctl => ?_⟩, Nat.zero_le _⟩
    · show (s.consume f.tail.length true).labels = _
      rw [hnext.labels, List.replicate_zero, List.append_nil, List.replicate_add]
      rfl
    · show s.headers ++ _ = _
      rw [hp.headers, starts_append, Nat.zero_add]
      rfl
    · have hsmall := hshort hctl
      unfold lenCode at hsmall
      split at hsmall <;> omega
  · exact fun _ => rfl

/-- A piece of a payload. -/
theorem Follows.piece {want : Nat} {out : List UInt8} (h : Follows frames s) (hpc : s.pc = .payload size timeout want out)
    (buf : List UInt8) (hbuf : buf.length = min (min 32 (want - out.length)) s.queue.length) :
    Follows frames ((s.consume (min 32 (want - out.length)) false).payload size timeout want (out ++ buf) sends) := by
  rw [Follows, hpc] at h
  obtain ⟨⟨done, f, more, hf, hp, ht, hk⟩, hout, hwant, hall⟩ := h
  have hsize := ht.size
  obtain ⟨-, hnext⟩ := Placed.consume hp (min 32 (want - out.length)) false
    (by rw [List.length_drop, f.length_masked]; omega)
  rw [← hbuf, List.drop_drop, List.append_assoc, ← List.replicate_add] at hnext
  have hlen : (out ++ buf).length = out.length + buf.length := List.length_append
  apply Follows.payload
  · show Within frames (s.ws.rxOffs + (out ++ buf).length) _
    rw [hlen, ← Nat.add_assoc]
    exact ⟨done, f, more, hf, hnext, ht, by omega⟩
  · omega
  · exact hwant
  · exact hall

theorem Follows.poll (h : Follows frames s) (hq : s.queue ≠ []) (hg : Careful s (.poll junk sends))
    (hs : s.poll http junk sends = some s') : Follows frames s' := by
  unfold Server.poll at hs
  unfold Careful at hg
  cases hpc : s.pc with
  | idle =>
      rw [hpc] at hs
      cases hs
  | word size timeout =>
      rw [hpc] at hs hg
      cases hs
      rw [Follows, hpc] at h
      exact Boundary.word h hq hg
  | rest size timeout start hdr pld =>
      rw [hpc] at hs hg
      cases hs
      exact h.rest hpc (hg.1.resolve_left hq) hg.2.1 hg.2.2
  | payload size timeout want out =>
      rw [hpc] at hs
      cases hs
      refine h.piece hpc _ ?_
      split
      · rw [length_applyMask, List.length_take]
      · rw [List.length_take]

/-- A break leaves nothing to be read. -/
theorem Lost.disconnect (hrole : s.ws.role = .server) (hsync : Synced frames s) (hq : s.queue = [])
    (hs : s.disconnect http = some s') : Lost frames s' := by
  have h : Lost frames { s with coming := [] } := ⟨hrole, hq, rfl, hsync⟩
  unfold Server.disconnect at hs
  split at hs
  · cases hs
  · cases hs
    exact h.keeps (Keeps.noHeader ..)
  · cases hs
    exact h.keeps (Keeps.noHeader ..)
  · cases hs
    split
    · exact h.keeps ((Keeps.reset _).trans (Keeps.finish _))
    · exact h.keeps (Keeps.finish _)

theorem Follows.role (h : Follows frames s) : s.ws.role = .server := by
  unfold Follows at h
  split at h
  · rcases h with h | ⟨-, _, _, _, -, -, ht, -⟩
    · exact h.1
    · exact ht.role
  · exact h.1
  · obtain ⟨_, _, _, ws, -, -, -, -, hrole, hws⟩ := h
    rw [hws]
    split <;> exact hrole
  · obtain ⟨⟨_, _, _, -, -, ht, -⟩, -⟩ := h
    exact ht.role

/-- What one event keeps. -/
theorem Inv.step {e : Event} (h : Inv frames s) (hg : Careful s e) (hs : step http s e = some s') : Inv frames s' := by
  cases e with
  | arrive n =>
      simp only [WebSocket.step, Option.ite_none_right_eq_some, Option.some.injEq] at hs
      obtain ⟨-, rfl⟩ := hs
      have hk : Keeps s { s with queue := s.queue ++ s.coming.take n, coming := s.coming.drop n } :=
        ⟨by rw [List.append_assoc, List.take_append_drop], rfl, rfl, rfl⟩
      exact h.imp (fun h => h.keeps hk) fun h => h.keeps hk rfl rfl
  | call size timeout sends =>
      simp only [WebSocket.step] at hs
      split at hs
      · rename_i hpc
        cases hs
        exact h.imp (fun h => h.keeps Keeps.again) fun h => h.call hpc
      · cases hs
  | poll junk sends =>
      simp only [WebSocket.step, Option.ite_none_left_eq_some] at hs
      obtain ⟨hq, hs⟩ := hs
      rcases h with h | h
      · exact absurd h.2.1 hq
      · exact Or.inr (h.poll hq hg hs)
  | timeOut sends =>
      simp only [WebSocket.step] at hs
      split at hs
      · rename_i hpc
        simp only [Option.ite_none_right_eq_some, Option.some.injEq] at hs
        obtain ⟨-, rfl⟩ := hs
        refine h.imp (fun h => h.keeps (Keeps.noHeader ..)) fun h => ?_
        rw [Follows, hpc] at h
        exact Boundary.noHeader h http _
      · cases hs
  | disconnect =>
      simp only [WebSocket.step, Option.ite_none_right_eq_some] at hs
      obtain ⟨hq, hs⟩ := hs
      have hrole : s.ws.role = .server := h.elim (fun h => h.1) fun h => h.role
      exact Or.inl (Lost.disconnect hrole h.synced hq hs)

end Invariant

/-- An open connection on which these frames are to arrive. -/
def Server.opened (ws : Conn) (frames : List ClientFrame) : Server :=
  { ws := ws, coming := frames.flatMap ClientFrame.bytes }

/-- **Frame synchronisation**: in every run whose polls are `Careful`, every header read begins at a frame and every byte
is taken for what it is, however the bytes arrive and whatever the calls ask for. -/
theorem synced_of_run (http : Bool) (ws : Conn) (frames : List ClientFrame) (es : List Event) (hrole : ws.role = .server)
    (hidle : ws.rxSize = ws.rxOffs) (hm : Meets (step http) Careful (Server.opened ws frames) es) :
    Along (step http) (fun _ _ s' => Synced frames s') (Server.opened ws frames) es := by
  refine along_of_meets (I := Inv frames) (fun s e s' hi hg hs => ?_) ?_ hm
  · have hi' := hi.step hg hs
    exact ⟨hi', hi'.synced⟩
  · exact Or.inr (Or.inl ⟨hrole, hidle, [], frames, rfl, rfl, rfl, rfl⟩)

theorem mem_opcodes : (0x81 : UInt8).toNat % 16 ∈ [1, 2, 8, 9, 10] := by decide

theorem length_greeting : ([1, 2, 3, 4, 5] : List UInt8).length < 2 ^ 63 := by decide

/-- A text of five bytes. -/
def greeting : ClientFrame := ⟨0x81, fun _ => 0, [1, 2, 3, 4, 5], mem_opcodes, length_greeting⟩

/-- It comes behind a header read that times out, and is read in two calls. -/
theorem synced_of_run_greeting :
    idle.role = .server ∧ idle.rxSize = idle.rxOffs ∧
      Meets (step true) Careful (Server.opened idle [greeting])
        [.call 3 0 none, .timeOut none, .arrive 2, .poll (fun _ => 0) none, .arrive 9, .poll (fun _ => 0) none,
          .poll (fun _ => 0) none, .call 3 0 none, .poll (fun _ => 0) none] ∧
      Along (step true) (fun _ _ s' => Synced [greeting] s') (Server.opened idle [greeting])
        [.call 3 0 none, .timeOut none, .arrive 2, .poll (fun _ => 0) none, .arrive 9, .poll (fun _ => 0) none,
          .poll (fun _ => 0) none, .call 3 0 none, .poll (fun _ => 0) none] :=
  ⟨rfl, rfl, by decide, synced_of_run true idle [greeting] _ rfl rfl (by decide)⟩

/-- The first byte of its header comes alone, and the stack holds the second: the mask's last byte is read as payload. -/
theorem not_synced_apart :
    ∃ s', run (step true) (Server.opened idle [greeting])
        [.call 3 0 none, .arrive 1, .poll (fun _ => 0x85) none, .arrive 10, .poll (fun _ => 0) none,
          .poll (fun _ => 0) none] = some s' ∧
      s'.labels = [true, true, true, true, true, false, false, false] ∧ ¬ Synced [greeting] s' :=
  ⟨_, rfl, by decide, by decide⟩

end WebSocket

end YieldStm32
