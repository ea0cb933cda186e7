import YieldStm32.Lib.Run
import YieldStm32.Sys.Queue.Fifo

/-!
# Blocking transfers (`Queue_PutWait`, `Queue_GetWait`)

One task sends by `Queue_PutWait`, one receives by `Queue_GetWait`, on the same queue. A pass through the `do` loop of
either call runs up to its `Yield` or its return, so an event is one such pass, with the clock and the cancellation flag
it reads.

* `PutCall`, `GetCall` : the calls, with their running totals and, for the receiver, its buffer;
* `Transfer` : the queue, the calls in progress, the calls that have returned;
* `Stream` : what was sent is what was received, then what is in the queue;
* `run_transfers` : the transfer loses nothing, over every run.
-/

namespace YieldStm32

namespace Queue

open Counter Transition

variable {α : Type*} {n : Nat}

/-- What a call reads when it has more to move: `time(0)` and `Yield_IsCancelled()`. -/
structure Poll where
  now : BitVec 32
  cancelled : Bool

/-- `timeout` and `ts` of a waiting call. -/
structure Patience where
  timeout : Int
  ts : BitVec 32

/-- `(timeout && dtime(time(0), ts) > timeout) || Yield_IsCancelled()` -/
def Patience.GivesUp (w : Patience) (p : Poll) : Prop :=
  (w.timeout ≠ 0 ∧ (p.now - w.ts).toInt > w.timeout) ∨ p.cancelled = true

instance (w : Patience) (p : Poll) : Decidable (w.GivesUp p) := inferInstanceAs (Decidable (_ ∨ _))

/-- A call of `Queue_PutWait` of the elements `xs`. `moved` follows the head counter. -/
structure PutCall (n : Nat) (α : Type*) where
  xs : List (Fin n → α)
  wait : Patience
  written : Nat := 0
  moved : Nat := 0

/-- A call of `Queue_GetWait` of `count` elements to `ptr`. `moved` follows the tail counter. -/
structure GetCall (α : Type*) where
  count : Nat
  ptr : Nat → α
  wait : Patience
  read : Nat := 0
  moved : Nat := 0

/-- `written += Queue_Put(q, ptr + written * q->size, count - written)` -/
def PutCall.pass (c : PutCall n α) (q : Queue α) : PutCall n α × Queue α :=
  let r := q.put ((Block.flat c.xs).drop (c.written * q.size)) (c.xs.length - c.written)
  ({ c with written := c.written + r.1, moved := c.moved + (r.2.head - q.head).toNat }, r.2)

/-- `read += Queue_Get(q, ptr + read * q->size, count - read)` -/
def GetCall.pass (c : GetCall α) (q : Queue α) : GetCall α × Queue α :=
  let r := q.get (c.count - c.read)
  ({ c with
      ptr := Ring.copyIn c.ptr (c.read * q.size) r.1
      read := c.read + q.toRead (c.count - c.read)
      moved := c.moved + (r.2.tail - q.tail).toNat }, r.2)

/-- The queue, the calls in progress, and the calls that returned with the last poll of each. -/
structure Transfer (n : Nat) (α : Type*) where
  q : Queue α
  putting : Option (PutCall n α)
  getting : Option (GetCall α)
  puts : List (PutCall n α × Poll)
  gets : List (GetCall α × Poll)

/-- Nothing sent and nothing received yet. -/
def Transfer.start (q : Queue α) : Transfer n α := ⟨q, none, none, [], []⟩

/-- A pass of `Queue_PutWait`, up to its return or its `Yield`. -/
def Transfer.put (s : Transfer n α) (c : PutCall n α) (p : Poll) : Transfer n α :=
  let r := c.pass s.q
  if r.1.written = r.1.xs.length ∨ r.1.wait.GivesUp p then
    { s with q := r.2, putting := none, puts := s.puts ++ [(r.1, p)] }
  else
    { s with q := r.2, putting := some r.1 }

/-- A pass of `Queue_GetWait`, up to its return or its `Yield`. -/
def Transfer.get (s : Transfer n α) (c : GetCall α) (p : Poll) : Transfer n α :=
  let r := c.pass s.q
  if r.1.read = r.1.count ∨ r.1.wait.GivesUp p then
    { s with q := r.2, getting := none, gets := s.gets ++ [(r.1, p)] }
  else
    { s with q := r.2, getting := some r.1 }

/-- Either task calls, or goes on after its `Yield`. -/
inductive Transfer.Event (n : Nat) (α : Type*) where
  | putWait (xs : List (Fin n → α)) (wait : Patience) (p : Poll)
  | putResume (p : Poll)
  | getWait (count : Nat) (ptr : Nat → α) (wait : Patience) (p : Poll)
  | getResume (p : Poll)

/-- One pass; a task makes one call at a time. -/
def Transfer.step (s : Transfer n α) : Transfer.Event n α → Option (Transfer n α)
  | .putWait xs wait p => if s.putting.isNone then some (s.put { xs := xs, wait := wait } p) else none
  | .putResume p => s.putting.map fun c => s.put c p
  | .getWait count ptr wait p =>
      if s.getting.isNone then some (s.get { count := count, ptr := ptr, wait := wait } p) else none
  | .getResume p => s.getting.map fun c => s.get c p

/-! ## Streams -/

/-- The first `written` elements. -/
def PutCall.sent (c : PutCall n α) : List α := Block.flat (c.xs.take c.written)

/-- The first `read` elements of the buffer. -/
def GetCall.received (n : Nat) (c : GetCall α) : List α := Ring.copyOut c.ptr 0 (c.read * n)

/-- What the sender's calls put, the one in progress included. -/
def Transfer.sent (s : Transfer n α) : List α :=
  s.puts.flatMap (fun r => r.1.sent) ++ s.putting.toList.flatMap PutCall.sent

/-- What the receiver's calls returned. -/
def Transfer.received (s : Transfer n α) : List α := s.gets.flatMap fun r => r.1.received n

/-- A call moved what its total says, and no more than was asked. -/
def PutCall.Exact (c : PutCall n α) : Prop := c.moved = c.written ∧ c.written ≤ c.xs.length

def GetCall.Exact (c : GetCall α) : Prop := c.moved = c.read ∧ c.read ≤ c.count

/-- The invariant: the streams agree, and every call is exact. -/
structure Stream (s : Transfer n α) : Prop where
  size : s.q.size = n
  dvd : s.q.count ∣ 2 ^ 32
  stream : s.sent = s.received ++ s.getting.toList.flatMap (GetCall.received n) ++ s.q.contents
  putting : ∀ c ∈ s.putting, c.Exact
  getting : ∀ c ∈ s.getting, c.Exact
  puts : ∀ r ∈ s.puts, r.1.Exact ∧ (r.1.written < r.1.xs.length → r.1.wait.GivesUp r.2)
  gets : ∀ r ∈ s.gets, r.1.Exact ∧ (r.1.read < r.1.count → r.1.wait.GivesUp r.2)

/-! ## One pass -/

section Pass

variable {q : Queue α}

theorem PutCall.pass_exact {c : PutCall n α} (h : c.Exact) (q : Queue α) : (c.pass q).1.Exact := by
  obtain ⟨hmoved, hle⟩ := h
  refine ⟨?_, ?_⟩
  · show c.moved + ((q.put _ _).2.head - q.head).toNat = c.written + (q.put _ _).1
    rw [head_put, hmoved]
  · show c.written + min (c.xs.length - c.written) q.getFree ≤ c.xs.length
    omega

theorem GetCall.pass_exact {c : GetCall α} (h : c.Exact) (q : Queue α) : (c.pass q).1.Exact := by
  obtain ⟨hmoved, hle⟩ := h
  refine ⟨?_, ?_⟩
  · show c.moved + ((q.drop _).2.tail - q.tail).toNat = c.read + min (c.count - c.read) q.getUsed
    rw [tail_drop, hmoved, Nat.min_assoc, Nat.min_self]
  · show c.read + min (c.count - c.read) q.getUsed ≤ c.count
    omega

/-- What a pass adds to the elements sent, it adds to the queue. -/
theorem PutCall.pass_sent {c : PutCall n α} (hs : q.size = n) (hd : q.count ∣ 2 ^ 32) :
    ∃ added, (c.pass q).1.sent = c.sent ++ added ∧ (c.pass q).2.contents = q.contents ++ added := by
  have hroom : (c.xs.length - c.written) * q.size ≤ ((Block.flat c.xs).drop (c.written * q.size)).length := by
    rw [List.length_drop, Block.length_flat, hs, ← Nat.sub_mul]
  refine ⟨Block.flat ((c.xs.drop c.written).take (min (c.xs.length - c.written) q.getFree)), ?_, ?_⟩
  · show Block.flat (c.xs.take (c.written + min (c.xs.length - c.written) q.getFree)) = _
    rw [List.take_add, Block.flat_append]
    rfl
  · show (q.put _ _).2.contents = _
    rw [contents_put (Or.inl hd) hroom, Block.flat_take, Block.flat_drop, hs]

/-- What a pass adds to the elements received, it takes from the front of the queue. -/
theorem GetCall.pass_received {c : GetCall α} (hs : q.size = n) (hd : q.count ∣ 2 ^ 32) :
    (c.pass q).1.received n ++ (c.pass q).2.contents = c.received n ++ q.contents := by
  have hlen : (q.peek (c.count - c.read)).length = q.toRead (c.count - c.read) * n := by
    rw [peek_eq, List.length_take, length_contents, Nat.mul_min_mul_right, hs, toRead]
  have hbuf : (c.pass q).1.received n = c.received n ++ q.peek (c.count - c.read) := by
    show Ring.copyOut (Ring.copyIn c.ptr (c.read * q.size) (q.peek _)) 0 ((c.read + q.toRead _) * n) = _
    rw [hs, Nat.add_mul, ← hlen, Ring.copyOut_copyIn]
    rfl
  have hrest : (c.pass q).2.contents = q.contents.drop (q.toRead (c.count - c.read) * n) := by
    show (q.drop (min (c.count - c.read) q.getUsed)).2.contents = _
    rw [contents_drop (Or.inl hd), hs]
    rfl
  have hpeek : q.peek (c.count - c.read) = q.contents.take (q.toRead (c.count - c.read) * n) := by
    rw [peek_eq, List.take_eq_take_iff, length_contents, hs, toRead, Nat.mul_min_mul_right, Nat.mul_min_mul_right,
      Nat.min_assoc, Nat.min_self]
  rw [hbuf, hrest, hpeek, List.append_assoc, List.take_append_drop]

end Pass

/-! ## Runs -/

theorem Stream.start (q : Queue α) (hs : q.size = n) (hd : q.count ∣ 2 ^ 32) (h0 : q.getUsed = 0) :
    Stream (Transfer.start q : Transfer n α) := by
  refine ⟨hs, hd, ?_, by simp [Transfer.start], by simp [Transfer.start], by simp [Transfer.start],
    by simp [Transfer.start]⟩
  simp [Transfer.sent, Transfer.received, Transfer.start, contents_eq_nil h0]

/-- A pass of `Queue_PutWait` for the call in progress, or for a new one. -/
theorem Stream.put {s : Transfer n α} (h : Stream s) {c : PutCall n α} (hc : c.Exact)
    (hsent : s.putting.toList.flatMap PutCall.sent = c.sent) (p : Poll) : Stream (s.put c p) := by
  obtain ⟨added, hadd, hcont⟩ := PutCall.pass_sent (c := c) h.size h.dvd
  have hstream : s.puts.flatMap (fun r => r.1.sent) ++ (c.pass s.q).1.sent =
      s.received ++ s.getting.toList.flatMap (GetCall.received n) ++ (c.pass s.q).2.contents := by
    rw [hadd, hcont, ← List.append_assoc, ← hsent, ← List.append_assoc, ← h.stream]
    rfl
  have hexact := PutCall.pass_exact hc s.q
  unfold Transfer.put
  dsimp only
  split
  · rename_i hend
    refine ⟨h.size, h.dvd, ?_, by simp, h.getting, ?_, h.gets⟩
    · refine Eq.trans ?_ hstream
      simp [Transfer.sent]
    · intro r hr
      rcases List.mem_append.1 hr with hr | hr
      · exact h.puts r hr
      · obtain rfl := List.mem_singleton.1 hr
        exact ⟨hexact, fun hlt => hend.resolve_left (Nat.ne_of_lt hlt)⟩
  · refine ⟨h.size, h.dvd, ?_, ?_, h.getting, h.puts, h.gets⟩
    · refine Eq.trans ?_ hstream
      simp [Transfer.sent]
    · intro c' hc'
      obtain rfl := Option.some.inj hc'
      exact hexact

/-- A pass of `Queue_GetWait` for the call in progress, or for a new one. -/
theorem Stream.get {s : Transfer n α} (h : Stream s) {c : GetCall α} (hc : c.Exact)
    (hreceived : s.getting.toList.flatMap (GetCall.received n) = c.received n) (p : Poll) : Stream (s.get c p) := by
  have hpass := GetCall.pass_received (c := c) h.size h.dvd
  have hstream : s.sent = s.received ++ (c.pass s.q).1.received n ++ (c.pass s.q).2.contents := by
    rw [List.append_assoc, hpass, h.stream, hreceived, List.append_assoc]
  have hexact := GetCall.pass_exact hc s.q
  unfold Transfer.get
  dsimp only
  split
  · rename_i hend
    refine ⟨h.size, h.dvd, ?_, h.putting, by simp, h.puts, ?_⟩
    · refine hstream.trans ?_
      simp [Transfer.received]
    · intro r hr
      rcases List.mem_append.1 hr with hr | hr
      · exact h.gets r hr
      · obtain rfl := List.mem_singleton.1 hr
        exact ⟨hexact, fun hlt => hend.resolve_left (Nat.ne_of_lt hlt)⟩
  · refine ⟨h.size, h.dvd, ?_, h.putting, ?_, h.puts, h.gets⟩
    · refine hstream.trans ?_
      simp [Transfer.received]
    · intro c' hc'
      obtain rfl := Option.some.inj hc'
      exact hexact

theorem Stream.step {s s' : Transfer n α} {e : Transfer.Event n α} (h : Stream s) (hs : s.step e = some s') :
    Stream s' := by
  cases e with
  | putWait xs wait p =>
      obtain ⟨hnone, hs⟩ := Option.ite_none_right_eq_some.1 hs
      obtain rfl := Option.some.inj hs
      refine h.put ⟨rfl, Nat.zero_le _⟩ ?_ p
      rw [Option.isNone_iff_eq_none.1 hnone]
      simp [PutCall.sent]
  | putResume p =>
      obtain ⟨c, hc, rfl⟩ := Option.map_eq_some_iff.1 hs
      refine h.put (h.putting c hc) ?_ p
      simp [hc]
  | getWait count ptr wait p =>
      obtain ⟨hnone, hs⟩ := Option.ite_none_right_eq_some.1 hs
      obtain rfl := Option.some.inj hs
      refine h.get ⟨rfl, Nat.zero_le _⟩ ?_ p
      rw [Option.isNone_iff_eq_none.1 hnone]
      simp [GetCall.received, Ring.copyOut]
  | getResume p =>
      obtain ⟨c, hc, rfl⟩ := Option.map_eq_some_iff.1 hs
      refine h.get (h.getting c hc) ?_ p
      simp [hc]

/-- **Blocking transfers lose nothing**: in every run of one sender and one receiver from an empty queue, what the
receiver's calls returned is a prefix of what the sender's calls wrote; each call returned the number of elements it
moved; and it returned fewer than asked only by time-out or cancellation. -/
theorem run_transfers (q : Queue α) (hd : q.count ∣ 2 ^ 32) (h0 : q.getUsed = 0)
    (es : List (Transfer.Event q.size α)) (s : Transfer q.size α)
    (hr : run Transfer.step (Transfer.start q) es = some s) :
    s.received <+: s.sent ∧
      (∀ r ∈ s.puts, r.1.written = r.1.moved ∧ r.1.written ≤ r.1.xs.length ∧
        (r.1.written < r.1.xs.length → r.1.wait.GivesUp r.2)) ∧
      (∀ r ∈ s.gets, r.1.read = r.1.moved ∧ r.1.read ≤ r.1.count ∧
        (r.1.read < r.1.count → r.1.wait.GivesUp r.2)) := by
  have h : Stream s := run_keeps (fun _ _ _ h hs => h.step hs) (Stream.start q rfl hd h0) hr
  refine ⟨?_, fun r hr => ?_, fun r hr => ?_⟩
  · rw [h.stream, List.append_assoc]
    exact List.prefix_append ..
  · obtain ⟨⟨hmoved, hle⟩, hless⟩ := h.puts r hr
    exact ⟨hmoved.symm, hle, hless⟩
  · obtain ⟨⟨hmoved, hle⟩, hless⟩ := h.gets r hr
    exact ⟨hmoved.symm, hle, hless⟩

/-- The run of three elements over a queue of two; the receiver asks for four and gives up. -/
def threeOverTwo : List (Transfer.Event 2 Nat) :=
  [.putWait [![1, 2], ![3, 4], ![5, 6]] ⟨0, 0⟩ ⟨0, false⟩, .getWait 4 (fun _ => 0) ⟨5, 0⟩ ⟨3, false⟩,
    .putResume ⟨7, false⟩, .getResume ⟨9, false⟩]

theorem run_transfers_threeOverTwo :
    ∃ s, run Transfer.step (Transfer.start wrapping) threeOverTwo = some s ∧ s.received = [1, 2, 3, 4, 5, 6] ∧
      s.received <+: s.sent := by
  have hrun : (run Transfer.step (Transfer.start wrapping) threeOverTwo).map Transfer.received =
      some [1, 2, 3, 4, 5, 6] := by decide
  obtain ⟨s, hs, hreceived⟩ := Option.map_eq_some_iff.1 hrun
  exact ⟨s, hs, hreceived, (run_transfers wrapping (by decide) (by decide) threeOverTwo s hs).1⟩

end Queue

end YieldStm32
