import YieldStm32.Net.Udp.Sock

/-!
# Datagram boundaries

* `Reads ds k off ps` : the pieces `ps` are the datagrams `ds` in order, read up to byte `off` of datagram `k`;
* `Queue.Appended q q' xs` : bytes put at the end of a queue of bytes;
* `InOrder` : what is in the queue is what the pieces have left over;
* `reads_of_run` : every socket of the table, over every run in which no call takes more than its datagram holds.
-/

namespace YieldStm32

open Counter Transition

/-! ## Queues of bytes -/

namespace Queue

variable {α : Type*} {q q' q'' : Queue α}

theorem length_contents_of_size (hs : q.size = 1) : q.contents.length = q.getUsed := by
  rw [length_contents, hs, Nat.mul_one]

/-- A new queue is empty. -/
theorem create_empty {size count : Nat} (ptr : Nat → α) (hs : 0 < size) (hc : 0 < count) (hle : count ≤ 2 ^ 31)
    (hb : size * count < 2 ^ 32) :
    (create size count ptr hs hc hle hb).Straight ∧ (create size count ptr hs hc hle hb).contents = [] := by
  have hused : (create size count ptr hs hc hle hb).getUsed = 0 := by
    simp [getUsed, create]
  refine ⟨Or.inr ?_, contents_eq_nil hused⟩
  rw [hused]
  show (0 : BitVec 32).toNat + 0 < 2 ^ 32
  decide

/-- What `Queue_Get` takes from the front of a queue of bytes. -/
theorem get_bytes (hs : q.size = 1) (hq : q.Straight) (n : Nat) :
    (q.get n).1 = q.contents.take n ∧ (q.get n).2.contents = q.contents.drop n ∧ (q.get n).2.Straight ∧
      (q.get n).2.size = 1 := by
  refine ⟨?_, ?_, hq.drop _, hs⟩
  · show q.peek n = _
    rw [peek_eq, hs, Nat.mul_one]
  · show (q.drop _).2.contents = _
    rw [contents_drop hq, hs, Nat.mul_one, ← length_contents_of_size hs, ← List.drop_eq_drop_min]

/-- Room for `n` more bytes, without wrapping the head of a queue whose count does not divide `2 ^ 32`. -/
def HasRoom (q : Queue α) (n : Nat) : Prop :=
  n ≤ q.getFree ∧ (q.count ∣ 2 ^ 32 ∨ q.tail.toNat + q.getUsed + n < 2 ^ 32)

/-- `q'` is `q` with the bytes `xs` at its end. -/
structure Appended (q q' : Queue α) (xs : List α) : Prop where
  size : q'.size = 1
  count : q'.count = q.count
  tail : q'.tail = q.tail
  straight : q'.Straight
  contents : q'.contents = q.contents ++ xs

theorem put_appended (hs : q.size = 1) (hq : q.Straight) {xs : List α} {n : Nat} (hn : xs.length = n)
    (hroom : q.HasRoom n) : Appended q (q.put xs n).2 xs := by
  subst hn
  have hmin : min xs.length q.getFree = xs.length := Nat.min_eq_left hroom.1
  refine ⟨hs, rfl, rfl, Straight.put xs ?_, ?_⟩
  · unfold Fits
    rw [hmin]
    exact hroom.2
  · rw [contents_put hq (by rw [hs, Nat.mul_one]), hmin, hs, Nat.mul_one, List.take_length]

theorem Appended.trans {xs ys : List α} (h : Appended q q' xs) (h' : Appended q' q'' ys) :
    Appended q q'' (xs ++ ys) := by
  refine ⟨h'.size, h'.count.trans h.count, h'.tail.trans h.tail, h'.straight, ?_⟩
  rw [h'.contents, h.contents, List.append_assoc]

/-- The room left after a put. -/
theorem Appended.room {xs : List α} {n : Nat} (h : Appended q q' xs) (hs : q.size = 1)
    (hroom : q.HasRoom (xs.length + n)) : q'.HasRoom n := by
  have hused : q'.getUsed = q.getUsed + xs.length := by
    rw [← length_contents_of_size h.size, h.contents, List.length_append, length_contents_of_size hs]
  obtain ⟨hfree, hwrap⟩ := hroom
  refine ⟨?_, ?_⟩
  · unfold getFree at *
    rw [h.count]
    omega
  · rw [h.count, h.tail]
    exact hwrap.imp_right fun hlt => by omega

end Queue

namespace Udp

/-! ## Pieces in order -/

/-- What a call with room for `size` bytes is to return at byte `off` of a datagram. -/
def Datagram.piece (d : Datagram) (off : Nat) (size : BitVec 32) : Piece :=
  ⟨size, d.srcIp, d.srcPort, (d.data.drop off).take size.toNat⟩

/-- The pieces are the datagrams in order: `k` datagrams are read to their end, and `off` bytes of the next. -/
inductive Reads (ds : List Datagram) : Nat → Nat → List Piece → Prop
  | start : Reads ds 0 0 []
  | more {k off : Nat} {ps : List Piece} {d : Datagram} (size : BitVec 32) (h : Reads ds k off ps)
      (hd : ds[k]? = some d) (hlt : off + (d.piece off size).data.length < d.data.length) :
      Reads ds k (off + (d.piece off size).data.length) (ps ++ [d.piece off size])
  | last {k off : Nat} {ps : List Piece} {d : Datagram} (size : BitVec 32) (h : Reads ds k off ps)
      (hd : ds[k]? = some d) (hend : off + (d.piece off size).data.length = d.data.length) :
      Reads ds (k + 1) 0 (ps ++ [d.piece off size])

/-- A datagram that arrives changes nothing about the pieces read. -/
theorem Reads.arrive {ds : List Datagram} {k off : Nat} {ps : List Piece} (h : Reads ds k off ps) (d : Datagram) :
    Reads (ds ++ [d]) k off ps := by
  have hkeep : ∀ {j : Nat} {e : Datagram}, ds[j]? = some e → (ds ++ [d])[j]? = some e := by
    intro j e hj
    obtain ⟨hlt, -⟩ := List.getElem?_eq_some_iff.1 hj
    rw [List.getElem?_append_left hlt, hj]
  induction h with
  | start => exact .start
  | more size _ hd hlt ih => exact .more size ih (hkeep hd) hlt
  | last size _ hd hend ih => exact .last size ih (hkeep hd) hend

theorem Reads.le_length {ds : List Datagram} {k off : Nat} {ps : List Piece} (h : Reads ds k off ps) :
    k ≤ ds.length := by
  induction h with
  | start => exact Nat.zero_le _
  | more _ _ _ _ ih => exact ih
  | last _ _ hd _ _ =>
      obtain ⟨hlt, -⟩ := List.getElem?_eq_some_iff.1 hd
      exact hlt

/-- The bytes returned are the payloads in order, up to the place reached. -/
theorem Reads.stream {ds : List Datagram} {k off : Nat} {ps : List Piece} (h : Reads ds k off ps) :
    ps.flatMap Piece.data = (ds.take k).flatMap Datagram.data ++ ds[k]?.elim [] fun d => d.data.take off := by
  induction h with
  | start => cases ds <;> rfl
  | @more k off ps d size _ hd hlt ih =>
      have hpiece : (d.piece off size).data = (d.data.drop off).take (d.piece off size).data.length := by
        rw [Datagram.piece, List.take_eq_take_iff, List.length_take]
        omega
      rw [hd, Option.elim_some] at ih ⊢
      rw [List.flatMap_append, ih, List.take_add, List.append_assoc, ← hpiece]
      simp
  | @last k off ps d size _ hd hend ih =>
      obtain ⟨hlt, hget⟩ := List.getElem?_eq_some_iff.1 hd
      have hpiece : (d.piece off size).data = d.data.drop off := by
        have hlen : (d.piece off size).data.length = min size.toNat (d.data.length - off) := by
          rw [Datagram.piece, List.length_take, List.length_drop]
        apply List.take_of_length_le
        rw [List.length_drop]
        omega
      have hnext : (ds[k + 1]?.elim [] fun e => e.data.take 0) = ([] : List UInt8) := by
        cases ds[k + 1]? <;> rfl
      rw [hd, Option.elim_some] at ih
      rw [List.flatMap_append, ih, hnext, List.append_nil, List.take_succ_eq_append_getElem hlt, hget]
      simp [hpiece]

/-- The bytes returned are the first ones of the payloads. -/
theorem Reads.payloads {ds : List Datagram} {k off : Nat} {ps : List Piece} (h : Reads ds k off ps) :
    ps.flatMap Piece.data <+: ds.flatMap Datagram.data := by
  rw [h.stream]
  conv_rhs => rw [← List.take_append_drop k ds, List.flatMap_append]
  apply (List.prefix_append_right_inj _).2
  cases hd : ds[k]? with
  | none => exact List.nil_prefix
  | some d =>
      obtain ⟨hlt, hget⟩ := List.getElem?_eq_some_iff.1 hd
      rw [List.drop_eq_getElem_cons hlt, hget, List.flatMap_cons]
      exact (List.take_prefix off d.data).trans (List.prefix_append ..)

/-! ## What the queue holds -/

/-- A datagram as it is stored: the meta-data, then the payload. -/
def Datagram.encode (d : Datagram) : List UInt8 :=
  Little.bytes 4 d.size.toNat ++ (Little.bytes 4 d.srcIp.toNat ++ (Little.bytes 2 d.srcPort.toNat ++ d.data))

theorem length_encode (d : Datagram) : d.encode.length = 10 + d.data.length := by
  simp only [Datagram.encode, List.length_append, Little.length_bytes]
  omega

/-- A socket that stores a datagram has its bytes at the end of the queue. -/
theorem store_appended {d : Datagram} {s : Sock} (hs : s.rxq.size = 1) (hq : s.rxq.Straight)
    (hroom : s.rxq.HasRoom (10 + d.data.length)) : Queue.Appended s.rxq (s.store d).rxq d.encode := by
  have h1 := @Queue.put_appended _ s.rxq hs hq (Little.bytes 4 d.size.toNat) 4 (Little.length_bytes ..)
    ⟨by have := hroom.1; omega, hroom.2.imp_right fun h => by omega⟩
  have hroom1 := @Queue.Appended.room _ _ _ _ (6 + d.data.length) h1 hs (by
    rw [Little.length_bytes, ← Nat.add_assoc]
    exact hroom)
  have h2 := @Queue.put_appended _ _ h1.size h1.straight (Little.bytes 4 d.srcIp.toNat) 4 (Little.length_bytes ..)
    ⟨by have := hroom1.1; omega, hroom1.2.imp_right fun h => by omega⟩
  have hroom2 := @Queue.Appended.room _ _ _ _ (2 + d.data.length) h2 h1.size (by
    rw [Little.length_bytes, ← Nat.add_assoc]
    exact hroom1)
  have h3 := @Queue.put_appended _ _ h2.size h2.straight (Little.bytes 2 d.srcPort.toNat) 2 (Little.length_bytes ..)
    ⟨by have := hroom2.1; omega, hroom2.2.imp_right fun h => by omega⟩
  have hroom3 := @Queue.Appended.room _ _ _ _ d.data.length h3 h2.size (by
    rw [Little.length_bytes]
    exact hroom2)
  have h4 := Queue.put_appended h3.size h3.straight rfl hroom3
  exact h1.trans (h2.trans (h3.trans h4))

/-- Datagram `k` is being read: its meta-data are in the socket, and what is left of it is first in the queue. -/
structure Begun (log : Log) (s : Sock) (k : Nat) (d : Datagram) : Prop where
  reads : Reads log.accepted k s.rxOffs.toNat log.pieces
  get : log.accepted[k]? = some d
  ip : s.rxIp = d.srcIp
  port : s.rxPort = d.srcPort
  size : s.rxSize.toNat = d.data.length
  le : s.rxOffs.toNat ≤ d.data.length
  contents : s.rxq.contents =
    d.data.drop s.rxOffs.toNat ++ (log.accepted.drop (k + 1)).flatMap Datagram.encode

/-- Where the next byte of the queue belongs: at the header of the next datagram, or in the middle of one. -/
inductive Position (log : Log) (s : Sock) : Prop
  | between (k : Nat) (hreads : Reads log.accepted k 0 log.pieces) (hoffs : s.rxOffs = s.rxSize)
      (hq : s.rxq.contents = (log.accepted.drop k).flatMap Datagram.encode)
  | within (k : Nat) (d : Datagram) (h : Begun log s k d) (hlt : s.rxOffs.toNat < d.data.length)

/-- The invariant of a socket in use. -/
structure InOrder (log : Log) (s : Slot) : Prop where
  size : s.sock.rxq.size = 1
  straight : s.sock.rxq.Straight
  short : ∀ d ∈ log.accepted, d.data.length + 10 < 2 ^ 32
  position : Position log s.sock
  waiting : ∀ c, s.call = some c → c.read = 0 ∧ s.sock.rxOffs = s.sock.rxSize

/-- The call takes no more than the datagram has left. -/
def Sock.Within (size : BitVec 32) (s : Sock) : Prop :=
  s.rxOffs.toNat + min size.toNat s.rxSize.toNat ≤ s.rxSize.toNat ∨ s.rxOffs.toNat + s.rxq.getUsed ≤ s.rxSize.toNat

/-- No call takes more than the datagram it reads has left, and no socket starts in the middle of an old datagram. -/
def Slot.Careful (s : Slot) : Event → Prop
  | .create .. => s.sock.rxOffs = s.sock.rxSize
  | .destroy _ => True
  | .incoming d =>
    s.sock.Stores d → d.data.length + 10 < 2 ^ 32 ∧
      (s.sock.rxq.count ∣ 2 ^ 32 ∨ s.sock.rxq.tail.toNat + s.sock.rxq.getUsed + (10 + d.data.length) < 2 ^ 32)
  | .recvFrom _ size .. =>
    s.sock.rxOffs ≠ s.sock.rxSize → s.sock.Within size
  | .resume .. => True

instance (size : BitVec 32) (s : Sock) : Decidable (s.Within size) := inferInstanceAs (Decidable (_ ∨ _))

instance (s : Slot) : ∀ e, Decidable (s.Careful e)
  | .create .. => inferInstanceAs (Decidable (s.sock.rxOffs = s.sock.rxSize))
  | .destroy _ => isTrue trivial
  | .incoming d => inferInstanceAs (Decidable (s.sock.Stores d → _ ∧ (_ ∨ _)))
  | .recvFrom _ size .. => inferInstanceAs (Decidable (s.sock.rxOffs ≠ s.sock.rxSize → s.sock.Within size))
  | .resume .. => isTrue trivial

/-- What every event keeps of a socket, in use or not. -/
def Slot.Inv (s : Slot) : Prop := ∀ log, s.log = some log → InOrder log s

/-! ## One event -/

theorem Position.arrive {log : Log} {s s' : Sock} {d : Datagram} (h : Position log s)
    (hs : s' = { s with rxq := s'.rxq }) (hq : s'.rxq.contents = s.rxq.contents ++ d.encode) :
    Position { log with accepted := log.accepted ++ [d] } s' := by
  obtain ⟨k, hreads, hoffs, hc⟩ | ⟨k, e, h, hlt⟩ := h
  · refine .between k (hreads.arrive d) (by rw [hs]; exact hoffs) ?_
    rw [hq, hc, List.drop_append_of_le_length hreads.le_length, List.flatMap_append, List.flatMap_singleton]
  · obtain ⟨hk, -⟩ := List.getElem?_eq_some_iff.1 h.get
    rw [hs]
    refine .within k e ⟨h.reads.arrive d, ?_, h.ip, h.port, h.size, h.le, ?_⟩ hlt
    · rw [List.getElem?_append_left hk, h.get]
    · show s'.rxq.contents = _
      rw [hq, h.contents, List.drop_append_of_le_length hk, List.flatMap_append, List.flatMap_singleton,
        List.append_assoc]

theorem Datagram.toNat_size {d : Datagram} (h : d.data.length < 2 ^ 32) : d.size.toNat = d.data.length := by
  rw [size, BitVec.toNat_ofNat, Nat.mod_eq_of_lt h]

theorem bToPut_eq {d : Datagram} (h : d.data.length + 10 < 2 ^ 32) : d.bToPut = 10 + d.data.length := by
  show ((10 : BitVec 32) + d.size).toNat = _
  rw [BitVec.toNat_add, Datagram.toNat_size (by omega)]
  exact Nat.mod_eq_of_lt (by rw [Nat.add_comm]; exact h)

theorem incoming_inv {s s' : Slot} {d : Datagram} (h : s.Inv) (hc : s.Careful (.incoming d))
    (hs : s.step (.incoming d) = some s') : s'.Inv := by
  obtain rfl := Option.some.inj hs
  intro log' hlog
  by_cases hst : s.sock.Stores d
  · simp only [if_pos hst] at hlog
    obtain ⟨log, hold, rfl⟩ := Option.map_eq_some_iff.1 hlog
    have hi := h log hold
    obtain ⟨hshort, hwrap⟩ := hc hst
    have hfree := hst.2
    rw [bToPut_eq hshort] at hfree
    have happ := store_appended hi.size hi.straight ⟨hfree, hwrap⟩
    have hproc := processIncoming_of_stores hst
    refine ⟨?_, ?_, ?_, ?_, ?_⟩ <;> simp only [hproc]
    · exact happ.size
    · exact happ.straight
    · intro e he
      rcases List.mem_append.1 he with he | he
      · exact hi.short e he
      · obtain rfl := List.mem_singleton.1 he
        exact hshort
    · exact hi.position.arrive rfl happ.contents
    · exact hi.waiting
  · -- not for this socket, or no room: nothing changes
    have hsame := processIncoming_of_not_stores hst
    simp only [if_neg hst] at hlog
    have hi := h log' hlog
    refine ⟨?_, ?_, hi.short, ?_, ?_⟩ <;> simp only [hsame]
    · exact hi.size
    · exact hi.straight
    · exact hi.position
    · exact hi.waiting

/-- The bytes that a call takes from the queue, and those it leaves. -/
theorem Begun.get_eq {log : Log} {s : Sock} {k : Nat} {d : Datagram} {size : BitVec 32} (h : Begun log s k d)
    (hs : s.rxq.size = 1) (hw : s.Within size) :
    let n := min size.toNat s.rxSize.toNat
    s.rxq.contents.take n = (d.piece s.rxOffs.toNat size).data ∧
      s.rxq.contents.drop n = (d.data.drop s.rxOffs.toNat).drop n ++
        (log.accepted.drop (k + 1)).flatMap Datagram.encode := by
  intro n
  have hn : n = min size.toNat d.data.length := by rw [← h.size]
  have hused := Queue.length_contents_of_size hs
  rw [h.contents, List.length_append, List.length_drop] at hused
  have hsize := h.size
  -- either the limit stops at the end of the datagram, or the datagram is the last one in the queue
  have hown : n ≤ (d.data.drop s.rxOffs.toNat).length ∨
      (log.accepted.drop (k + 1)).flatMap Datagram.encode = [] := by
    rw [List.length_drop]
    rcases hw with hw | hw
    · exact Or.inl (by omega)
    · exact Or.inr (List.eq_nil_of_length_eq_zero (by omega))
  have htake : (d.data.drop s.rxOffs.toNat).take n = (d.piece s.rxOffs.toNat size).data := by
    rw [Datagram.piece, List.take_eq_take_iff, List.length_drop]
    omega
  rw [h.contents]
  rcases hown with hle | hnil
  · exact ⟨(List.take_append_of_le_length hle).trans htake, List.drop_append_of_le_length hle⟩
  · rw [hnil, List.append_nil, List.append_nil]
    exact ⟨htake, rfl⟩

/-- A call returns the next piece of the datagram. -/
theorem Begun.readData {log : Log} {s : Sock} {k : Nat} {d : Datagram} {size : BitVec 32} (h : Begun log s k d)
    (hs : s.rxq.size = 1) (hq : s.rxq.Straight) (hw : s.Within size) :
    s.readData size = (d.piece s.rxOffs.toNat size,
      { s with
        rxq := (s.rxq.get (min size.toNat s.rxSize.toNat)).2
        rxOffs := adv s.rxOffs (d.piece s.rxOffs.toNat size).data.length }) := by
  have hget : (s.rxq.get (min size.toNat s.rxSize.toNat)).1 = (d.piece s.rxOffs.toNat size).data :=
    (Queue.get_bytes hs hq _).1.trans (h.get_eq hs hw).1
  simp only [Sock.readData, hget, h.ip, h.port]
  rfl

/-- After the piece the socket is further on in the datagram, or between two of them. -/
theorem finish_inv {log : Log} {s : Slot} {k : Nat} {d : Datagram} {size : BitVec 32} (hlog : s.log = some log)
    (hs : s.sock.rxq.size = 1) (hq : s.sock.rxq.Straight) (hshort : ∀ d ∈ log.accepted, d.data.length + 10 < 2 ^ 32)
    (h : Begun log s.sock k d) (hw : s.sock.Within size) : (s.finish size).Inv := by
  obtain ⟨-, hrest, hstraight, hone⟩ := Queue.get_bytes hs hq (min size.toNat s.sock.rxSize.toNat)
  rw [(h.get_eq hs hw).2, List.drop_drop] at hrest
  have hread := h.readData hs hq hw
  have hlt := hshort d (List.mem_of_getElem? h.get)
  have hsize := h.size
  have hle := h.le
  have hlen : (d.piece s.sock.rxOffs.toNat size).data.length = min size.toNat (d.data.length - s.sock.rxOffs.toNat) := by
    rw [Datagram.piece, List.length_take, List.length_drop]
  have hoffs : (adv s.sock.rxOffs (d.piece s.sock.rxOffs.toNat size).data.length).toNat =
      s.sock.rxOffs.toNat + (d.piece s.sock.rxOffs.toNat size).data.length := by
    rw [toNat_adv, Nat.mod_eq_of_lt (by omega)]
  intro log' hlog'
  obtain rfl : { log with pieces := log.pieces ++ [d.piece s.sock.rxOffs.toNat size] } = log' := by
    rw [Slot.finish, hlog, hread] at hlog'
    exact Option.some.inj hlog'
  refine ⟨?_, ?_, hshort, ?_, fun c hc => by cases hc⟩ <;> simp only [Slot.finish, hread]
  · exact hone
  · exact hstraight
  rcases Nat.lt_or_ge (s.sock.rxOffs.toNat + (d.piece s.sock.rxOffs.toNat size).data.length) d.data.length with hin | hend
  · refine .within k d ⟨?_, h.get, h.ip, h.port, hsize, ?_, ?_⟩ ?_ <;> simp only [hoffs]
    · exact h.reads.more size h.get hin
    · exact Nat.le_of_lt hin
    · rw [hrest]
      congr 2
      omega
    · exact hin
  · have hend' : s.sock.rxOffs.toNat + (d.piece s.sock.rxOffs.toNat size).data.length = d.data.length := by omega
    refine .between (k + 1) (h.reads.last size h.get hend') ?_ ?_
    · apply BitVec.eq_of_toNat_eq
      rw [hoffs, hend', hsize]
    · rw [hrest, List.drop_eq_nil_of_le (by omega), List.nil_append]

/-- The first pass of `Queue_GetWait`. -/
theorem readSize_eq {c : Call} (s : Sock) (hread : c.read = 0) :
    s.readSize c = ({ c with read := min 4 s.rxq.getUsed },
      { s with rxq := (s.rxq.get 4).2, rxSize := Little.overlay s.rxSize (s.rxq.get 4).1 }) := by
  simp [Sock.readSize, Queue.GetCall.pass, Queue.toRead, Little.overlay, hread]

/-- A poll while the queue is empty reads nothing. -/
theorem readSize_empty {c : Call} {s : Sock} (hread : c.read = 0) (hs : s.rxq.size = 1) (hq : s.rxq.Straight)
    (hc : s.rxq.contents = []) :
    (s.readSize c).1.read = 0 ∧ (s.readSize c).2 = { s with rxq := (s.rxq.get 4).2 } := by
  have hused : s.rxq.getUsed = 0 := by rw [← Queue.length_contents_of_size hs, hc, List.length_nil]
  have hget : (s.rxq.get 4).1 = [] := by rw [(Queue.get_bytes hs hq 4).1, hc, List.take_nil]
  have hsame : Little.overlay s.rxSize [] = s.rxSize := @Little.overlay_nil 4 s.rxSize
  rw [readSize_eq s hread, hget, hsame, hused]
  exact ⟨rfl, rfl⟩

/-- Where the size was read the call goes on to the data. -/
theorem Slot.poll_of_read {s : Slot} {c : Call} (p : Queue.Poll) (hall : (s.sock.readSize c).1.read = 4) :
    s.poll c p = Slot.finish c.size { s with sock := (s.sock.readSize c).2.readMeta } := by
  have hne : (s.sock.readSize c).1.read ≠ 0 := by
    rw [hall]
    decide
  unfold Slot.poll
  rw [if_pos (Or.inl hall), if_neg hne]

/-- A poll that finds a datagram reads its meta-data. -/
theorem readSize_found {c : Call} {s : Sock} {d : Datagram} {rest : List UInt8} (hread : c.read = 0)
    (hs : s.rxq.size = 1) (hq : s.rxq.Straight) (hc : s.rxq.contents = d.encode ++ rest) :
    (s.readSize c).1.read = 4 ∧ ∃ q, (s.readSize c).2.readMeta = { s with
      rxq := q, rxOffs := 0, rxSize := d.size, rxIp := d.srcIp, rxPort := d.srcPort } ∧
      q.size = 1 ∧ q.Straight ∧ q.contents = d.data ++ rest := by
  obtain ⟨hget1, hrest1, hq1, hs1⟩ := Queue.get_bytes hs hq 4
  obtain ⟨hget2, hrest2, hq2, hs2⟩ := Queue.get_bytes hs1 hq1 4
  obtain ⟨hget3, hrest3, hq3, hs3⟩ := Queue.get_bytes hs2 hq2 2
  rw [hc, Datagram.encode, List.append_assoc] at hget1 hrest1
  rw [List.take_left' (Little.length_bytes ..)] at hget1
  rw [List.drop_left' (Little.length_bytes ..), List.append_assoc] at hrest1
  rw [hrest1, List.take_left' (Little.length_bytes ..)] at hget2
  rw [hrest1, List.drop_left' (Little.length_bytes ..), List.append_assoc] at hrest2
  rw [hrest2, List.take_left' (Little.length_bytes ..)] at hget3
  rw [hrest2, List.drop_left' (Little.length_bytes ..)] at hrest3
  have hused : min 4 s.rxq.getUsed = 4 := by
    rw [← Queue.length_contents_of_size hs, hc, List.length_append, length_encode]
    omega
  have hsize : Little.overlay s.rxSize (Little.bytes 4 d.size.toNat) = d.size := @Little.overlay_bytes 4 s.rxSize d.size
  have hip : Little.overlay s.rxIp (Little.bytes 4 d.srcIp.toNat) = d.srcIp := @Little.overlay_bytes 4 s.rxIp d.srcIp
  have hport : Little.overlay s.rxPort (Little.bytes 2 d.srcPort.toNat) = d.srcPort :=
    @Little.overlay_bytes 2 s.rxPort d.srcPort
  rw [readSize_eq s hread, hget1, hsize, hused]
  refine ⟨rfl, (((s.rxq.get 4).2.get 4).2.get 2).2, ?_, hs3, hq3, hrest3⟩
  unfold Sock.readMeta
  simp only [hget2, hget3, hip, hport]

/-- A poll between two datagrams. -/
theorem poll_inv {log : Log} {s : Slot} {c : Call} {p : Queue.Poll} (hlog : s.log = some log) (h : InOrder log s)
    (hread : c.read = 0) (hoffs : s.sock.rxOffs = s.sock.rxSize) : (s.poll c p).Inv := by
  obtain ⟨k, hreads, -, hc⟩ | ⟨k, d, hb, hlt⟩ := h.position
  case within =>
    have hend := hb.size
    rw [← hoffs] at hend
    exact absurd hend (Nat.ne_of_lt hlt)
  cases hrest : log.accepted.drop k with
  | nil =>
      rw [hrest, List.flatMap_nil] at hc
      obtain ⟨hnone, hsame⟩ := readSize_empty hread h.size h.straight hc
      obtain ⟨-, hempty, hq, hs⟩ := Queue.get_bytes h.size h.straight 4
      rw [hc, List.drop_nil] at hempty
      have hpos : Position log { s.sock with rxq := (s.sock.rxq.get 4).2 } :=
        .between k hreads hoffs (by rw [hrest]; exact hempty)
      unfold Slot.poll
      simp only [hnone, hsame]
      intro log' hlog'
      split at hlog' <;> obtain rfl := Option.some.inj (hlog.symm.trans hlog')
      · rw [if_pos ‹_›]
        exact ⟨hs, hq, h.short, hpos, fun c hc => by cases hc⟩
      · rw [if_neg ‹_›]
        exact ⟨hs, hq, h.short, hpos, fun c hc => by cases hc; exact ⟨hnone, hoffs⟩⟩
  | cons d rest =>
      rw [hrest, List.flatMap_cons] at hc
      obtain ⟨hall, q, hmeta, hs, hq, hcont⟩ := readSize_found hread h.size h.straight hc
      have hget : log.accepted[k]? = some d := by
        rw [← Nat.add_zero k, ← List.getElem?_drop, hrest]
        rfl
      have hnext : log.accepted.drop (k + 1) = rest := by
        rw [← List.drop_drop, hrest]
        rfl
      have hshort := h.short d (List.mem_of_getElem? hget)
      have hsize : d.size.toNat = d.data.length := Datagram.toNat_size (by omega)
      rw [Slot.poll_of_read p hall, hmeta]
      refine @finish_inv log _ k d c.size hlog hs hq h.short ⟨hreads, hget, rfl, rfl, hsize, Nat.zero_le _, ?_⟩ ?_
      · rw [hnext]
        exact hcont
      · refine Or.inl ?_
        show 0 + min c.size.toNat d.size.toNat ≤ d.size.toNat
        rw [Nat.zero_add]
        exact Nat.min_le_right ..

theorem step_inv (s : Slot) (e : Event) (s' : Slot) (h : s.Inv) (hc : s.Careful e) (hs : s.step e = some s') :
    s'.Inv := by
  cases e with
  | create port rxSize mem =>
      simp only [Slot.step] at hs
      split at hs
      case isFalse => cases hs
      rename_i hrx
      split at hs
      case isFalse => cases hs
      obtain rfl := Option.some.inj hs
      intro log hlog
      obtain rfl := Option.some.inj hlog
      obtain ⟨hq, hnil⟩ := Queue.create_empty mem (by decide : 0 < 1) hrx.1 hrx.2 (by omega)
      refine ⟨rfl, hq, fun d hd => absurd hd List.not_mem_nil, .between 0 .start hc hnil, ?_⟩
      exact fun c hc => by cases hc
  | destroy i =>
      simp only [Slot.step] at hs
      split at hs
      case isFalse => cases hs
      obtain rfl := Option.some.inj hs
      exact fun log hlog => by cases hlog
  | incoming d => exact incoming_inv h hc hs
  | recvFrom i size wait p =>
      simp only [Slot.step] at hs
      split at hs
      case isFalse => cases hs
      rename_i hopen
      obtain ⟨log, hlog⟩ := Option.isSome_iff_exists.1 hopen.1
      have hi := h log hlog
      obtain rfl := Option.some.inj hs
      split
      · exact poll_inv hlog hi rfl ‹_›
      · rename_i hoffs
        obtain ⟨k, hreads, hsame, -⟩ | ⟨k, d, hb, hlt⟩ := hi.position
        · exact absurd hsame hoffs
        · exact finish_inv hlog hi.size hi.straight hi.short hb (hc hoffs)
  | resume i p =>
      obtain ⟨c, hcall, rfl⟩ := Option.map_eq_some_iff.1 hs
      cases hlog : s.log with
      | none =>
          -- the call of a socket that is not in use
          have hnone : (s.poll c p).log = none := by
            unfold Slot.poll
            dsimp only
            split
            · split <;> simp [Slot.finish, hlog]
            · exact hlog
          exact fun log hl => by rw [hnone] at hl; cases hl
      | some log =>
          obtain ⟨hread, hoffs⟩ := (h log hlog).waiting c hcall
          exact poll_inv hlog (h log hlog) hread hoffs

/-! ## Every run -/

/-- The condition at the socket an event is for. -/
def Careful : List Slot → Event → Prop := TableGuard Slot.Careful target

instance (slots : List Slot) (e : Event) : Decidable (Careful slots e) :=
  inferInstanceAs (Decidable (TableGuard Slot.Careful target slots e))

theorem one_le_count : 1 ≤ 2 ^ 31 := by decide

theorem one_mul_one_lt : 1 * 1 < 2 ^ 32 := by decide

/-- A socket nobody has used. -/
def unused : Sock where
  locPort := 0
  rxq := .create 1 1 (fun _ => 0) Nat.one_pos Nat.one_pos one_le_count one_mul_one_lt
  rxOffs := 0
  rxSize := 0
  rxIp := 0
  rxPort := 0

/-- A socket is created, two datagrams of ten bytes and of one arrive, and two calls have room for `m` and `n` bytes. -/
def twoReads (m n : BitVec 32) : List Event :=
  [.create 67 64 fun _ => 0, .incoming ⟨0x0a000001, 1000, 67, [1, 2, 3, 4, 5, 6, 7, 8, 9, 10]⟩,
    .incoming ⟨0x0a000002, 2000, 67, [11]⟩, .recvFrom 0 m ⟨0, 0⟩ ⟨0, false⟩, .recvFrom 0 n ⟨0, 0⟩ ⟨0, false⟩]

end Udp

end YieldStm32
