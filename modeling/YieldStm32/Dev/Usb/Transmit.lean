import YieldStm32.Dev.Usb.Core
import YieldStm32.Dev.Usb.Receive
import YieldStm32.Lib.Packets
import YieldStm32.Lib.Run
import YieldStm32.Lib.Words

/-!
# Transfers to the host (`dev/src/usb.c`)

A transfer is started by programming its size and the number of its packets; the data are written to the FIFO of the
endpoint as interrupts report that there is space in it. The controller sends a packet once all of its words are in the
FIFO, and reports the end of a transfer when the packets are counted down. Memory stays as it is while the transfer is in
progress.

* `writePacket`, `startINTransfer`, `handleInEpIsr` : the functions of the source;
* `step` : these, what the controller does, a bus reset and what follows it;
* `Inv` : what every event keeps, `Active` while a transfer is in progress;
* `wire_delivered` : the packets on the bus when a transfer ends are its data.
-/

namespace YieldStm32.Usb.Transmit

open Packets Ring Transition Words

/-! ## Words for the FIFO -/

section

variable (m : Nat → UInt8)

/-- The loop of `USB_WritePacket`, as long as there are four bytes left: `k` times. -/
def writeLoop (p : Nat) : Nat → List UInt32
  | 0 => []
  | k + 1 => word (m p) (m (p + 1)) (m (p + 2)) (m (p + 3)) :: writeLoop (p + 4) k

/-- The last bytes of `USB_WritePacket`: each `case` goes on with the next. -/
def lastWord (p : Nat) : Nat → UInt32 → List UInt32
  | 3, temp => lastWord p 2 (temp ||| (m (p + 2)).toUInt32 <<< 16)
  | 2, temp => lastWord p 1 (temp ||| (m (p + 1)).toUInt32 <<< 8)
  | 1, temp => [(m p).toUInt32 ||| temp]
  | _, _ => []

/-- `USB_WritePacket`, with room for `avail` words: what is written to the FIFO, and the number of bytes. -/
def writePacket (avail p size : Nat) : List UInt32 × Nat :=
  let size := min (avail * 4) size
  (writeLoop m p (size / 4) ++ lastWord m (p + 4 * (size / 4)) (size % 4) 0, size)

theorem writeLoop_eq (p k : Nat) : writeLoop m p k = pack (copyOut m p (4 * k)) := by
  induction k generalizing p with
  | zero => rfl
  | succ k ih =>
      rw [writeLoop, ih, Nat.mul_succ, Nat.add_comm (4 * k) 4, copyOut_add]
      rfl

/-- The bytes that do not fill a word. -/
theorem lastWord_eq (p : Nat) {r : Nat} (hr : r < 4) : lastWord m p r 0 = pack (copyOut m p r) := by
  have hcases : r = 0 ∨ r = 1 ∨ r = 2 ∨ r = 3 := by omega
  rcases hcases with rfl | rfl | rfl | rfl
  · simp [lastWord, pack, copyOut]
  · simp [lastWord, pack, copyOut, word, List.range_succ]
  · simp [lastWord, pack, copyOut, word, List.range_succ]
  · simp [lastWord, pack, copyOut, word, List.range_succ, UInt32.or_assoc, UInt32.or_comm]

/-- What is written are the words of the first bytes that there is room for. -/
theorem writePacket_eq (avail p size : Nat) :
    writePacket m avail p size = (pack (copyOut m p (min (avail * 4) size)), min (avail * 4) size) := by
  generalize hk : min (avail * 4) size = k
  have hsplit : copyOut m p k = copyOut m p (4 * (k / 4)) ++ copyOut m (p + 4 * (k / 4)) (k % 4) := by
    rw [← copyOut_add, Nat.div_add_mod]
  have hwords : 4 ∣ (copyOut m p (4 * (k / 4))).length := by
    rw [length_copyOut]
    exact Nat.dvd_mul_right 4 _
  unfold writePacket
  rw [hk]
  dsimp only
  rw [writeLoop_eq, lastWord_eq m _ (Nat.mod_lt k (by decide)), hsplit, pack_append hwords]

end

/-! ## The endpoint -/

/-- `usb_ep_t`, of a transfer that sends. -/
structure Ep where
  ptr : Nat
  ec : Int
  size : Nat
  offs : Nat
  zlp : Bool

/-- The endpoint, its registers and its FIFO; `wire` are the packets on the bus since the transfer was started. -/
structure State where
  ep : Ep
  /-- the bit of the endpoint in `DIEPEMPMSK` -/
  fe : Bool
  /-- `PKTCNT` and `XFRSIZ` of `DIEPTSIZ` -/
  pktcnt : Nat
  xfrsiz : Nat
  /-- `EPENA` of `DIEPCTL` -/
  ena : Bool
  /-- `XFRC` of `DIEPINT` -/
  xfrc : Bool
  fifo : List UInt32
  wire : List (List UInt8)

/-- A bulk endpoint, and the largest packet. -/
structure Config where
  bulk : Bool
  maxSize : Nat

/-- `start` is a call of `USB_StartINTransfer`; `txfe` and `xfrc` are the interrupts of the endpoint, the first with the
words that there is room for; `packet` is what the controller does; `reset` is `USB_HandleReset`, `enum` is
`USB_HandleEnum`, and `flush` is `USB_FlushTxFifo` in the configuration of an interface. -/
inductive Event where
  | start (ptr size : Nat)
  | txfe (avail : Nat)
  | packet
  | xfrc
  | reset
  | enum
  | flush

section

variable (c : Config) (m : Nat → UInt8)

/-- `USB_StartINTransfer` -/
def startINTransfer (ptr size : Nat) (s : State) : State :=
  if s.ep.ec = ebusy then s
  else
    let pktCnt := count c.maxSize size
    { s with
      ep := { ptr := ptr, ec := ebusy, size := size, offs := 0
              zlp := if c.bulk then decide (pktCnt * c.maxSize = size) else s.ep.zlp }
      pktcnt := pktCnt
      xfrsiz := size
      ena := true
      fe := if size ≠ 0 then true else s.fe
      wire := [] }

/-- The part of `USB_HandleInEpIsr` for an empty FIFO. -/
def handleTxfe (avail : Nat) (s : State) : State :=
  let (ws, written) := writePacket m avail (s.ep.ptr + s.ep.offs) (s.ep.size - s.ep.offs)
  let offs := s.ep.offs + written
  if s.ep.size ≤ offs then
    { s with ep := { s.ep with offs := s.ep.size }, fe := false, fifo := s.fifo ++ ws }
  else { s with ep := { s.ep with offs := offs }, fifo := s.fifo ++ ws }

/-- `USB_FinishTransfer` -/
def finishTransfer (ec : Int) (s : State) : State := { s with ep := { s.ep with ec := ec } }

/-- The part of `USB_HandleInEpIsr` for the end of a transfer. -/
def handleXfrc (s : State) : State :=
  let s := { s with xfrc := false }
  if s.ep.zlp then { s with ep := { s.ep with zlp := false }, xfrsiz := 0, pktcnt := 1, ena := true }
  else finishTransfer eok s

/-- The length of the next packet. -/
def next (s : State) : Nat := min c.maxSize s.xfrsiz

/-- The controller takes the words of a packet out of the FIFO; behind the last packet it disables the endpoint. -/
def sendPacket (s : State) : State :=
  let words := (next c s + 3) / 4
  { s with
    wire := s.wire ++ [(unpack (s.fifo.take words)).take (next c s)]
    fifo := s.fifo.drop words
    xfrsiz := s.xfrsiz - next c s
    pktcnt := s.pktcnt - 1
    ena := decide (s.pktcnt ≠ 1)
    xfrc := decide (s.pktcnt = 1) }

/-- One event. -/
def step (s : State) : Event → Option State
  | .start ptr size => some (startINTransfer c ptr size s)
  | .txfe avail => if s.fe then some (handleTxfe m avail s) else none
  | .packet => if s.ena ∧ s.pktcnt ≠ 0 ∧ (next c s + 3) / 4 ≤ s.fifo.length then some (sendPacket c s) else none
  | .xfrc => if s.xfrc then some (handleXfrc s) else none
  | .reset => some { s with fifo := [], ena := false, xfrc := false }
  | .enum => some (finishTransfer eusbReset s)
  | .flush => some { s with fifo := [] }

/-- The packets of a transfer. A bulk transfer ends with a short one. -/
def packets (ep : Ep) : List (List UInt8) :=
  if c.bulk then pieces c.maxSize m ep.ptr ep.size else chunks c.maxSize m ep.ptr ep.size

/-! ## The invariant -/

/-- The packets that the registers still count. -/
def todo (s : State) : List (List UInt8) :=
  (if s.ena then chunks c.maxSize m (s.ep.ptr + (s.ep.size - s.xfrsiz)) s.xfrsiz else []) ++
    if s.ep.zlp then [[]] else []

/-- A transfer is in progress: the FIFO has the words of what was written to it and was not yet sent. -/
structure Active (s : State) : Prop where
  ec : s.ep.ec = ebusy
  zlp : c.bulk = false → s.ep.zlp = false
  offs : s.ep.offs ≤ s.ep.size
  aligned : s.ep.offs = s.ep.size ∨ 4 ∣ s.ep.offs
  fe : s.fe = decide (s.ep.offs < s.ep.size)
  left : s.xfrsiz ≤ s.ep.size
  sent : s.ep.size - s.xfrsiz ≤ s.ep.offs
  sentWords : 4 ∣ s.ep.size - s.xfrsiz ∨ s.xfrsiz = 0
  fifo : s.fifo = pack (copyOut m (s.ep.ptr + (s.ep.size - s.xfrsiz)) (s.ep.offs - (s.ep.size - s.xfrsiz)))
  phase : s.ena = true ∧ s.xfrc = false ∧ s.pktcnt = count c.maxSize s.xfrsiz ∨
    s.ena = false ∧ s.xfrc = true ∧ s.xfrsiz = 0
  wire : s.wire ++ todo c m s = packets c m s.ep

/-- No transfer is in progress, or one was broken off by a reset. -/
structure Quiet (s : State) : Prop where
  zlp : c.bulk = false → s.ep.zlp = false
  fe : s.fe = false
  ena : s.ena = false
  xfrc : s.xfrc = false
  fifo : s.fifo = []

def Inv (s : State) : Prop := Quiet c s ∨ Active c m s

/-- The end of a transfer. -/
def Delivers (s : State) (e : Event) (s' : State) : Prop :=
  e = .xfrc → s'.ep.ec = eok → s'.ep.offs = s'.ep.size ∧ s.wire = packets c m s.ep

/-- No reset comes while there are data to be written, and nothing is started between a reset and the enumeration, or
before the FIFO is flushed. -/
def Settled (s : State) : Event → Prop
  | .reset => s.fe = false
  | .enum => s.fe = false ∧ s.ena = false ∧ s.xfrc = false
  | .flush => s.ena = false
  | _ => True

end

section

variable {c : Config} {m : Nat → UInt8} {s : State}

/-- A transfer is started from an empty FIFO. -/
theorem active_start (hn : 0 < c.maxSize) (h : Quiet c s) (hec : s.ep.ec ≠ ebusy) (ptr size : Nat) :
    Active c m (startINTransfer c ptr size s) := by
  have hfe : (if size ≠ 0 then true else s.fe) = decide (0 < size) := by
    rw [h.fe]
    by_cases hsize : size = 0
    · rw [if_neg (not_not.2 hsize), hsize]
      rfl
    · rw [if_pos hsize, decide_eq_true (Nat.pos_of_ne_zero hsize)]
  unfold startINTransfer
  rw [if_neg hec]
  refine ⟨rfl, ?_, Nat.zero_le _, .inr (Nat.dvd_zero 4), hfe, Nat.le_refl _, ?_, .inl ?_, ?_, .inl ⟨rfl, h.xfrc, rfl⟩, ?_⟩
  · intro hbulk
    dsimp only
    rw [hbulk]
    exact h.zlp hbulk
  · simp
  · simp
  · dsimp only
    rw [h.fifo, Nat.sub_self, Nat.sub_self]
    simp [copyOut, pack]
  · unfold todo packets
    dsimp only
    rw [Nat.sub_self, Nat.add_zero, List.nil_append, if_pos rfl]
    cases hbulk : c.bulk with
    | false => simp [h.zlp hbulk]
    | true => simp [pieces_eq_chunks m ptr size hn]

/-- The words of the data that there is room for are appended. -/
theorem Active.txfe (h : Active c m s) (hfe : s.fe = true) (avail : Nat) : Active c m (handleTxfe m avail s) := by
  have hlt : s.ep.offs < s.ep.size := by
    rw [h.fe] at hfe
    exact of_decide_eq_true hfe
  have hal : 4 ∣ s.ep.offs := h.aligned.resolve_left (Nat.ne_of_lt hlt)
  have hsent := h.sent
  have hsentWords : 4 ∣ s.ep.size - s.xfrsiz := h.sentWords.resolve_right fun h0 => by
    rw [h0] at hsent
    omega
  -- what is in the FIFO ends with a word
  have hwords : 4 ∣ (copyOut m (s.ep.ptr + (s.ep.size - s.xfrsiz)) (s.ep.offs - (s.ep.size - s.xfrsiz))).length := by
    rw [length_copyOut]
    exact Nat.dvd_sub hal hsentWords
  have hfifo (k : Nat) : s.fifo ++ pack (copyOut m (s.ep.ptr + s.ep.offs) k) =
      pack (copyOut m (s.ep.ptr + (s.ep.size - s.xfrsiz)) (s.ep.offs + k - (s.ep.size - s.xfrsiz))) := by
    have hadd : s.ep.offs + k - (s.ep.size - s.xfrsiz) = s.ep.offs - (s.ep.size - s.xfrsiz) + k := by omega
    have hpos : s.ep.ptr + (s.ep.size - s.xfrsiz) + (s.ep.offs - (s.ep.size - s.xfrsiz)) = s.ep.ptr + s.ep.offs := by omega
    rw [h.fifo, ← pack_append hwords, hadd, copyOut_add, hpos]
  unfold handleTxfe
  rw [writePacket_eq]
  dsimp only
  split
  · rename_i hall
    have hk : min (avail * 4) (s.ep.size - s.ep.offs) = s.ep.size - s.ep.offs := by omega
    refine ⟨h.ec, h.zlp, Nat.le_refl _, .inl rfl, ?_, h.left, Nat.sub_le _ _, h.sentWords, ?_, h.phase, h.wire⟩
    · simp
    · dsimp only
      rw [hk, hfifo, Nat.add_sub_cancel' (Nat.le_of_lt hlt)]
  · rename_i hmore
    have hk : min (avail * 4) (s.ep.size - s.ep.offs) = avail * 4 := by omega
    rw [hk] at hmore ⊢
    refine ⟨h.ec, h.zlp, by dsimp only; omega, .inr ?_, ?_, h.left, by dsimp only; omega, h.sentWords, hfifo _, h.phase, h.wire⟩
    · exact Nat.dvd_add hal (Nat.dvd_mul_left 4 avail)
    · dsimp only
      rw [hfe, decide_eq_true (Nat.not_le.1 hmore)]

/-- The next packet, where its words are in the FIFO. -/
theorem Active.next_le (h : Active c m s) (h4 : 4 ∣ c.maxSize) (hlen : (next c s + 3) / 4 ≤ s.fifo.length) :
    next c s ≤ s.ep.offs - (s.ep.size - s.xfrsiz) := by
  have hoffs := h.offs
  have hleft := h.left
  have hsent := h.sent
  rw [h.fifo, length_pack, length_copyOut] at hlen
  have hmin : next c s = min c.maxSize s.xfrsiz := rfl
  rcases h.sentWords with hsw | h0
  · rcases h.aligned with hall | hal
    · omega
    · omega
  · omega

/-- A packet on the bus is the next stretch of the data. -/
theorem Active.packet (h : Active c m s) (hn : 0 < c.maxSize) (h4 : 4 ∣ c.maxSize) (hena : s.ena = true)
    (hlen : (next c s + 3) / 4 ≤ s.fifo.length) : Active c m (sendPacket c s) := by
  have hoffs := h.offs
  have hleft := h.left
  have hsent := h.sent
  have hle := h.next_le h4 hlen
  obtain ⟨hxfrc, hcnt⟩ : s.xfrc = false ∧ s.pktcnt = count c.maxSize s.xfrsiz := by
    rcases h.phase with ⟨-, h1, h2⟩ | ⟨h1, -⟩
    · exact ⟨h1, h2⟩
    · exact absurd (hena.symm.trans h1) (by decide)
  have hwords : next c s ≤ (copyOut m (s.ep.ptr + (s.ep.size - s.xfrsiz)) (s.ep.offs - (s.ep.size - s.xfrsiz))).length := by
    rwa [length_copyOut]
  have hbytes : (unpack (s.fifo.take ((next c s + 3) / 4))).take (next c s) =
      copyOut m (s.ep.ptr + (s.ep.size - s.xfrsiz)) (next c s) := by
    rw [h.fifo, take_unpack_take hwords, take_copyOut, Nat.min_eq_left hle]
  have hwire := h.wire
  unfold todo at hwire
  rw [if_pos hena] at hwire
  unfold sendPacket
  dsimp only
  rw [hbytes]
  rcases Nat.lt_or_ge c.maxSize s.xfrsiz with hlt | hge
  · -- others follow
    have hnext : next c s = c.maxSize := Nat.min_eq_left (Nat.le_of_lt hlt)
    have hcount := count_of_lt hn hlt
    have hpos : 0 < count c.maxSize (s.xfrsiz - c.maxSize) := Nat.lt_of_lt_of_le Nat.one_pos (Nat.le_max_left ..)
    have hne : s.pktcnt ≠ 1 := by omega
    have hsw : 4 ∣ s.ep.size - s.xfrsiz := h.sentWords.resolve_right (by omega)
    have hk : s.ep.size - (s.xfrsiz - c.maxSize) = s.ep.size - s.xfrsiz + c.maxSize := by omega
    rw [hnext] at hle ⊢
    refine ⟨h.ec, h.zlp, h.offs, h.aligned, h.fe, ?_, ?_, .inl ?_, ?_, .inl ⟨?_, ?_, ?_⟩, ?_⟩
    · dsimp only
      omega
    · dsimp only
      omega
    · dsimp only
      rw [hk]
      exact Nat.dvd_add hsw h4
    · obtain ⟨w, hw⟩ := h4
      have hdiv : (c.maxSize + 3) / 4 = w := by omega
      dsimp only
      rw [h.fifo, drop_pack, hdiv, ← hw, drop_copyOut, hk]
      congr 2 <;> omega
    · exact decide_eq_true hne
    · exact decide_eq_false hne
    · dsimp only
      omega
    · rw [chunks_of_lt m _ hn hlt] at hwire
      unfold todo
      dsimp only
      rw [decide_eq_true hne, if_pos rfl, hk, ← Nat.add_assoc, ← hwire]
      simp
  · -- the last one
    have hnext : next c s = s.xfrsiz := Nat.min_eq_right hge
    have hone : s.pktcnt = 1 := by rw [hcnt, count_of_le hn hge]
    rw [hnext] at hle ⊢
    have hall : s.ep.offs = s.ep.size := by omega
    refine ⟨h.ec, h.zlp, h.offs, h.aligned, h.fe, ?_, ?_, .inr ?_, ?_, .inr ⟨?_, ?_, ?_⟩, ?_⟩
    · dsimp only
      omega
    · dsimp only
      omega
    · exact Nat.sub_self _
    · have hdrop : s.ep.offs - (s.ep.size - s.xfrsiz) ≤ 4 * ((s.xfrsiz + 3) / 4) := by omega
      dsimp only
      rw [h.fifo, drop_pack, drop_copyOut, Nat.sub_eq_zero_of_le hdrop, Nat.sub_self, Nat.sub_zero, hall, Nat.sub_self]
      rfl
    · exact decide_eq_false (not_not.2 hone)
    · exact decide_eq_true hone
    · exact Nat.sub_self _
    · rw [chunks_of_le m _ hge] at hwire
      unfold todo
      dsimp only
      rw [decide_eq_false (not_not.2 hone), if_neg Bool.false_ne_true, ← hwire]
      simp

/-- The packets were counted down. -/
theorem Active.done (h : Active c m s) (hxfrc : s.xfrc = true) : s.ena = false ∧ s.xfrsiz = 0 := by
  rcases h.phase with ⟨-, h1, -⟩ | ⟨h1, -, h2⟩
  · exact absurd (hxfrc.symm.trans h1) (by decide)
  · exact ⟨h1, h2⟩

/-- An empty packet follows, -/
theorem Active.zlp_xfrc (h : Active c m s) (hn : 0 < c.maxSize) (hxfrc : s.xfrc = true) (hzlp : s.ep.zlp = true) :
    Active c m (handleXfrc s) := by
  obtain ⟨hena, hleft⟩ := h.done hxfrc
  have hwire := h.wire
  have hsent := h.sent
  have hfifo := h.fifo
  unfold todo at hwire
  rw [hena, if_neg Bool.false_ne_true, if_pos hzlp, List.nil_append] at hwire
  rw [hleft] at hsent hfifo
  unfold handleXfrc
  rw [if_pos hzlp]
  refine ⟨h.ec, fun _ => rfl, h.offs, h.aligned, h.fe, Nat.zero_le _, hsent, .inr rfl, hfifo, .inl ⟨rfl, rfl, ?_⟩, ?_⟩
  · exact (count_of_le hn (Nat.zero_le _)).symm
  · unfold todo
    dsimp only
    rw [if_pos rfl, if_neg Bool.false_ne_true, List.append_nil, chunks_of_le m _ (Nat.zero_le _)]
    exact hwire

/-- or the transfer is over: all of its packets were sent, and nothing is left behind. -/
theorem Active.last_xfrc (h : Active c m s) (hxfrc : s.xfrc = true) (hzlp : s.ep.zlp = false) :
    Quiet c (handleXfrc s) ∧ s.ep.offs = s.ep.size ∧ s.wire = packets c m s.ep := by
  obtain ⟨hena, hleft⟩ := h.done hxfrc
  have hoffs : s.ep.offs = s.ep.size := by
    have hsent := h.sent
    have hle := h.offs
    omega
  have hwire := h.wire
  unfold todo at hwire
  rw [hena, if_neg Bool.false_ne_true, hzlp, if_neg Bool.false_ne_true, List.append_nil, List.append_nil] at hwire
  have hfifo := h.fifo
  rw [hoffs, hleft, Nat.sub_zero, Nat.sub_self] at hfifo
  have hfe := h.fe
  rw [hoffs, decide_eq_false (Nat.lt_irrefl _)] at hfe
  unfold handleXfrc
  dsimp only
  rw [hzlp, if_neg Bool.false_ne_true]
  exact ⟨⟨fun _ => hzlp, hfe, hena, rfl, hfifo⟩, hoffs, hwire⟩

/-- A broken transfer leaves nothing behind, if all of its data were written. -/
theorem Inv.reset (h : Inv c m s) (hfe : s.fe = false) :
    Quiet c { s with fifo := [], ena := false, xfrc := false } := by
  rcases h with h | h
  · exact ⟨h.zlp, h.fe, rfl, rfl, rfl⟩
  · exact ⟨h.zlp, hfe, rfl, rfl, rfl⟩

theorem step_inv (hn : 0 < c.maxSize) (h4 : 4 ∣ c.maxSize) {e : Event} {s' : State} (h : Inv c m s) (hg : Settled s e)
    (hs : step c m s e = some s') : Inv c m s' ∧ Delivers c m s e s' := by
  cases e with
  | start ptr size =>
      obtain rfl := Option.some.inj hs
      refine ⟨?_, nofun⟩
      by_cases hec : s.ep.ec = ebusy
      · have hsame : startINTransfer c ptr size s = s := if_pos hec
        rw [hsame]
        exact h
      · rcases h with h | h
        · exact .inr (active_start hn h hec ptr size)
        · exact absurd h.ec hec
  | txfe avail =>
      obtain ⟨hfe, hs⟩ := Option.ite_none_right_eq_some.1 hs
      obtain rfl := Option.some.inj hs
      rcases h with h | h
      · exact absurd (hfe.symm.trans h.fe) (by decide)
      · exact ⟨.inr (h.txfe hfe avail), nofun⟩
  | packet =>
      obtain ⟨⟨hena, -, hlen⟩, hs⟩ := Option.ite_none_right_eq_some.1 hs
      obtain rfl := Option.some.inj hs
      rcases h with h | h
      · exact absurd (hena.symm.trans h.ena) (by decide)
      · exact ⟨.inr (h.packet hn h4 hena hlen), nofun⟩
  | xfrc =>
      obtain ⟨hxfrc, hs⟩ := Option.ite_none_right_eq_some.1 hs
      obtain rfl := Option.some.inj hs
      rcases h with h | h
      · exact absurd (hxfrc.symm.trans h.xfrc) (by decide)
      · cases hzlp : s.ep.zlp with
        | true =>
            refine ⟨.inr (h.zlp_xfrc hn hxfrc hzlp), fun _ hok => ?_⟩
            -- the error code is still the one of a transfer in progress
            have hec := (h.zlp_xfrc hn hxfrc hzlp).ec
            exact absurd (hec.symm.trans hok) (by decide)
        | false =>
            obtain ⟨hquiet, hoffs, hwire⟩ := h.last_xfrc hxfrc hzlp
            refine ⟨.inl hquiet, fun _ _ => ⟨?_, hwire⟩⟩
            unfold handleXfrc
            dsimp only
            rw [hzlp, if_neg Bool.false_ne_true]
            exact hoffs
  | reset =>
      obtain rfl := Option.some.inj hs
      exact ⟨.inl (h.reset hg), nofun⟩
  | enum =>
      obtain rfl := Option.some.inj hs
      obtain ⟨hfe, hena, hxfrc⟩ := hg
      refine ⟨?_, nofun⟩
      rcases h with h | h
      · exact .inl ⟨h.zlp, h.fe, h.ena, h.xfrc, h.fifo⟩
      · rcases h.phase with ⟨h1, -⟩ | ⟨-, h1, -⟩
        · exact absurd (h1.symm.trans hena) (by decide)
        · exact absurd (h1.symm.trans hxfrc) (by decide)
  | flush =>
      obtain rfl := Option.some.inj hs
      refine ⟨?_, nofun⟩
      rcases h with h | h
      · exact .inl ⟨h.zlp, h.fe, h.ena, h.xfrc, rfl⟩
      · have hleft : s.xfrsiz = 0 := by
          rcases h.phase with ⟨h1, -⟩ | ⟨-, -, h1⟩
          · exact absurd (h1.symm.trans hg) (by decide)
          · exact h1
        have hempty : s.fifo = [] := by
          have hoffs := h.offs
          rw [h.fifo, hleft, Nat.sub_zero, Nat.sub_eq_zero_of_le hoffs]
          rfl
        have hsame : { s with fifo := [] } = s := by rw [← hempty]
        rw [hsame]
        exact .inr h

end

/-- An endpoint that was never used. -/
def idle : State := ⟨⟨0, 0, 0, 0, false⟩, false, 0, 0, false, false, [], []⟩

theorem quiet_idle (c : Config) : Quiet c idle := ⟨fun _ => rfl, rfl, rfl, rfl, rfl⟩

/-- Eight bytes in packets of four, written one word at a time. -/
def eightBytes : List Event := [.start 16 8, .txfe 1, .packet, .txfe 1, .packet, .xfrc, .packet, .xfrc]

/-- A reset comes while a word of the old data is to be written, which then goes out in the place of the new one. -/
def resetInBetween : List Event :=
  [.start 16 8, .txfe 1, .reset, .enum, .flush, .txfe 1, .start 32 4, .packet, .xfrc, .packet, .xfrc]

theorem not_wire_delivered_reset :
    ¬ Along (step ⟨true, 4⟩ fun i => UInt8.ofNat i) (Delivers ⟨true, 4⟩ fun i => UInt8.ofNat i) idle resetInBetween := by
  intro h
  have h : Along _ _ idle (resetInBetween.dropLast ++ [.xfrc]) := h
  have hwire : _ = pieces 4 (fun i => UInt8.ofNat i) 32 4 := (h.last rfl rfl rfl rfl).2
  rw [pieces_of_le _ _ (by decide) (Nat.le_refl 4)] at hwire
  exact absurd (List.cons.inj hwire).1 (by decide)

/-! ## Progress -/

section

variable {c : Config} {m : Nat → UInt8} {s : State}

/-- What is left to be done: bytes to be written, packets, an empty one, and the interrupt. -/
def measure (s : State) : Nat :=
  s.ep.size - s.ep.offs + 2 * s.pktcnt + (if s.ep.zlp then 2 else 0) + if s.xfrc then 1 else 0

/-- The events of a transfer in progress, with room for a word at least. -/
def Advances : Event → Prop
  | .txfe avail => 0 < avail
  | .packet => True
  | .xfrc => True
  | _ => False

theorem measure_lt {e : Event} {s' : State} (h : Active c m s) (he : Advances e) (hs : step c m s e = some s') :
    measure s' < measure s := by
  cases e with
  | txfe avail =>
      have hroom : 0 < avail := he
      obtain ⟨hfe, hs⟩ := Option.ite_none_right_eq_some.1 hs
      obtain rfl := Option.some.inj hs
      have hlt : s.ep.offs < s.ep.size := by
        rw [h.fe] at hfe
        exact of_decide_eq_true hfe
      unfold handleTxfe measure
      rw [writePacket_eq]
      dsimp only
      split
      · dsimp only
        omega
      · dsimp only
        omega
  | packet =>
      obtain ⟨⟨-, hcnt, -⟩, hs⟩ := Option.ite_none_right_eq_some.1 hs
      obtain rfl := Option.some.inj hs
      unfold sendPacket measure
      simp only [decide_eq_true_eq]
      split_ifs <;> omega
  | xfrc =>
      obtain ⟨hxfrc, hs⟩ := Option.ite_none_right_eq_some.1 hs
      obtain rfl := Option.some.inj hs
      cases hzlp : s.ep.zlp with
      | true =>
          have hnew : handleXfrc s = { s with
              xfrc := false, ep := { s.ep with zlp := false }, xfrsiz := 0, pktcnt := 1, ena := true } := if_pos hzlp
          rw [hnew]
          simp only [measure, hxfrc, hzlp, if_true, Bool.false_eq_true, if_false]
          omega
      | false =>
          have hnew : handleXfrc s = finishTransfer eok { s with xfrc := false } := by simp [handleXfrc, hzlp]
          rw [hnew]
          simp [measure, finishTransfer, hxfrc, hzlp]
  | start ptr size => exact he.elim
  | reset => exact he.elim
  | enum => exact he.elim
  | flush => exact he.elim

/-- Until the transfer is over, one of them is enabled. -/
theorem Active.advances (h : Active c m s) :
    ∃ e s', Advances e ∧ step c m s e = some s' := by
  cases hfe : s.fe with
  | true => exact ⟨.txfe 1, _, Nat.one_pos, if_pos hfe⟩
  | false =>
      have hoffs : s.ep.offs = s.ep.size := by
        have hle := h.offs
        have hnot := of_decide_eq_false (h.fe.symm.trans hfe)
        omega
      rcases h.phase with ⟨hena, -, hcnt⟩ | ⟨-, hxfrc, -⟩
      · have hpos : s.pktcnt ≠ 0 := by
          have hge : 1 ≤ count c.maxSize s.xfrsiz := Nat.le_max_left ..
          omega
        have hlen : (next c s + 3) / 4 ≤ s.fifo.length := by
          have hleft := h.left
          have hmin : next c s = min c.maxSize s.xfrsiz := rfl
          rw [h.fifo, length_pack, length_copyOut]
          omega
        exact ⟨.packet, _, True.intro, if_pos ⟨hena, hpos, hlen⟩⟩
      · exact ⟨.xfrc, _, True.intro, if_pos hxfrc⟩

/-- One of them leads on, or to the end. -/
theorem Active.advance (h : Active c m s) (hn : 0 < c.maxSize) (h4 : 4 ∣ c.maxSize) {e : Event} (he : Advances e) {s' : State}
    (hs : step c m s e = some s') :
    Active c m s' ∨ Quiet c s' ∧ s'.ep.ec = eok ∧ s'.wire = packets c m s'.ep := by
  cases e with
  | txfe avail =>
      obtain ⟨hfe, hs⟩ := Option.ite_none_right_eq_some.1 hs
      obtain rfl := Option.some.inj hs
      exact .inl (h.txfe hfe avail)
  | packet =>
      obtain ⟨⟨hena, -, hlen⟩, hs⟩ := Option.ite_none_right_eq_some.1 hs
      obtain rfl := Option.some.inj hs
      exact .inl (h.packet hn h4 hena hlen)
  | xfrc =>
      obtain ⟨hxfrc, hs⟩ := Option.ite_none_right_eq_some.1 hs
      obtain rfl := Option.some.inj hs
      cases hzlp : s.ep.zlp with
      | true => exact .inl (h.zlp_xfrc hn hxfrc hzlp)
      | false =>
          obtain ⟨hquiet, -, hwire⟩ := h.last_xfrc hxfrc hzlp
          have hdone : handleXfrc s = finishTransfer eok { s with xfrc := false } := by simp [handleXfrc, hzlp]
          refine .inr ⟨hquiet, ?_⟩
          rw [hdone]
          exact ⟨rfl, hwire⟩
  | start ptr size => exact he.elim
  | reset => exact he.elim
  | enum => exact he.elim
  | flush => exact he.elim

/-- Nothing more is done for a transfer that is over. -/
theorem Quiet.not_advances (h : Quiet c s) {e : Event} (he : Advances e) : step c m s e = none := by
  cases e with
  | txfe avail => exact if_neg (by simp [h.fe])
  | packet => exact if_neg (by simp [h.ena])
  | xfrc => exact if_neg (by simp [h.xfrc])
  | start ptr size => exact he.elim
  | reset => exact he.elim
  | enum => exact he.elim
  | flush => exact he.elim

/-- **A transfer in progress comes to its end**: after so many of its events at most, in whatever order they come, it is
over and sent; and until then one of them is enabled. -/
theorem finishes (hn : 0 < c.maxSize) (h4 : 4 ∣ c.maxSize) (h : Active c m s) (es : List Event) (he : ∀ e ∈ es, Advances e)
    {s' : State} (hr : run (step c m) s es = some s') :
    es.length ≤ measure s ∧
      ((∃ e s'', Advances e ∧ step c m s' e = some s'') ∨ s'.ep.ec = eok ∧ s'.wire = packets c m s'.ep) := by
  induction es generalizing s with
  | nil =>
      obtain rfl := Option.some.inj hr
      exact ⟨Nat.zero_le _, .inl h.advances⟩
  | cons e es ih =>
      obtain ⟨he, hes⟩ := List.forall_mem_cons.1 he
      obtain ⟨t, ht, hr⟩ := Option.bind_eq_some_iff.1 hr
      have hlt := measure_lt h he ht
      rcases h.advance hn h4 he ht with hactive | ⟨hquiet, hover⟩
      · obtain ⟨hlen, hend⟩ := ih hactive hes hr
        refine ⟨?_, hend⟩
        rw [List.length_cons]
        omega
      · cases es with
        | nil =>
            obtain rfl := Option.some.inj hr
            refine ⟨?_, .inr hover⟩
            rw [List.length_singleton]
            omega
        | cons e' es =>
            rw [run, hquiet.not_advances (hes e' List.mem_cons_self)] at hr
            cases hr

/-- The events of eight bytes. -/
theorem finishes_eightBytes : 7 ≤ measure (startINTransfer ⟨true, 4⟩ 16 8 idle) :=
  (finishes (c := ⟨true, 4⟩) (m := fun i => UInt8.ofNat i) (by decide) (by decide)
    (active_start (by decide) (quiet_idle ⟨true, 4⟩) (by decide) 16 8)
    [.txfe 1, .packet, .txfe 1, .packet, .xfrc, .packet, .xfrc] (by simp [Advances])
    (Option.some_get (by decide +kernel)).symm).1

end

end YieldStm32.Usb.Transmit
