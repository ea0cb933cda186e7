import Mathlib.Data.List.Basic
import Mathlib.Logic.Function.Basic
import Mathlib.Tactic.Common
import YieldStm32.Lib.Run

/-!
# Reception over a USART (`dev/src/usart.c`)

The DMA stream stores what the USART receives into a ring of 512 bytes, round and round, and only tells how many
transfers are left up to the end of the ring. `USART_Recv` compares that with its own tail. It does not yield between
the comparison and its end, but the DMA does not wait for it: bytes arrive between any two bytes that are copied.

* `Timely` : fewer than 512 bytes are waiting when a call looks, and none is overwritten before it is copied;
* `received_of_timely` : along every such run what the calls returned is what the line brought, from the first byte on;
* `poll_call` : without it, a call takes what is left over whole rounds of the ring.
-/

namespace YieldStm32.Usart

open Transition

/-- `elems(dev->circ)` -/
def circElems : BitVec 32 := 512

/-- `min` of `util/minmax.h` -/
def cMin (a b : BitVec 32) : BitVec 32 := if a < b then a else b

/-- `usart_dev_t`, with `NDTR` of its reception stream. -/
structure Dev where
  circ : Nat → UInt8
  ndtr : BitVec 32
  head : BitVec 32
  tail : BitVec 32

/-- `USART_Recv` behind its loop: how much it copies, up to the end of the ring and in all, and what it has copied. -/
structure Call where
  bnum : BitVec 32
  wrap : BitVec 32
  copied : Nat → Option UInt8

/-- The device and the call on it, all bytes that came over the line, and all that the calls returned. -/
structure State where
  dev : Dev
  call : Option Call
  stream : List UInt8
  read : List UInt8

/-- A transfer of the DMA stream. -/
def Dev.store (b : UInt8) (d : Dev) : Dev :=
  { d with
    circ := Function.update d.circ (circElems - d.ndtr).toNat b
    ndtr := if d.ndtr = 1 then circElems else d.ndtr - 1 }

/-- A pass of the loop of `USART_Recv`, and the numbers behind it. -/
def Dev.poll (size : BitVec 32) (d : Dev) : Option Call × Dev :=
  let d := { d with head := circElems - d.ndtr }
  if d.head - d.tail = 0 then (none, d)
  else
    let bnum := cMin ((d.head - d.tail) % circElems) size
    (some ⟨bnum, cMin bnum (circElems - d.tail), fun _ => none⟩, d)

/-- The cell that byte `i` of a call is in. -/
def Call.cell (d : Dev) (c : Call) (i : Nat) : Nat :=
  if i < c.wrap.toNat then d.tail.toNat + i else i - c.wrap.toNat

/-- What the call returns. -/
def Call.data (c : Call) : List UInt8 := (List.range c.bnum.toNat).filterMap c.copied

/-- A byte comes over the line; a call looks; it copies one byte, in whatever order `memcpy` takes them; it returns. -/
inductive Event where
  | byte (b : UInt8)
  | recv (size : BitVec 32)
  | copy (i : Nat)
  | ret
deriving DecidableEq, Repr

def step (s : State) (e : Event) : Option State :=
  match e, s.call with
  | .byte b, _ => some { s with dev := s.dev.store b, stream := s.stream ++ [b] }
  | .recv size, none =>
    let (call, dev) := s.dev.poll size
    some { s with dev := dev, call := call }
  | .copy i, some c =>
    if i < c.bnum.toNat then
      some { s with call := some { c with copied := Function.update c.copied i (some (s.dev.circ (c.cell s.dev i))) } }
    else none
  | .ret, some c =>
    if ∀ i < c.bnum.toNat, (c.copied i).isSome then
      some { s with
        dev := { s.dev with tail := (s.dev.tail + c.bnum) % circElems }
        call := none
        read := s.read ++ c.data }
    else none
  | _, _ => none

/-- The bytes that wait. -/
def State.waiting (s : State) : Nat := s.stream.length - s.read.length

def Timely (s : State) : Event → Prop
  | .recv _ => s.waiting < 512
  | .copy i => s.waiting ≤ i + 512
  | _ => True

/-- What was returned is the beginning of what came, and a call that looks takes what waits, as far as it is asked for. -/
structure Received (s : State) (e : Event) (s' : State) : Prop where
  read : s'.read <+: s'.stream
  call : ∀ size, e = .recv size → (s'.call = none ↔ s.waiting = 0) ∧
    ∀ c ∈ s'.call, c.bnum.toNat = min s.waiting size.toNat

/-- The ring holds the last bytes of the stream, the tail is behind what was read, and what is copied is right. -/
structure Inv (s : State) : Prop where
  ndtr : s.dev.ndtr.toNat + s.stream.length % 512 = 512
  cells : ∀ i < s.stream.length, s.stream.length ≤ i + 512 → s.stream[i]? = some (s.dev.circ (i % 512))
  tail : s.dev.tail.toNat = s.read.length % 512
  read : s.read <+: s.stream
  room : ∀ c ∈ s.call, s.read.length + c.bnum.toNat ≤ s.stream.length
  wrap : ∀ c ∈ s.call, c.wrap.toNat = min c.bnum.toNat (512 - s.dev.tail.toNat)
  small : ∀ c ∈ s.call, c.bnum.toNat < 512
  copied : ∀ c ∈ s.call, ∀ i b, c.copied i = some b → s.stream[s.read.length + i]? = some b

section

variable {s s' : State}

theorem toNat_cMin (a b : BitVec 32) : (cMin a b).toNat = min a.toNat b.toNat := by
  unfold cMin
  split
  · exact (Nat.min_eq_left (Nat.le_of_lt (BitVec.lt_def.1 ‹_›))).symm
  · exact (Nat.min_eq_right (Nat.le_of_not_lt fun h => ‹¬ _› (BitVec.lt_def.2 h))).symm

/-- The call that a look begins. -/
theorem poll_eq_some {d : Dev} {size : BitVec 32} {c : Call} (hc : (d.poll size).1 = some c) :
    circElems - d.ndtr - d.tail ≠ 0 ∧ c.bnum = cMin ((circElems - d.ndtr - d.tail) % circElems) size ∧
      c.wrap = cMin c.bnum (circElems - d.tail) ∧ ∀ i, c.copied i = none := by
  unfold Dev.poll at hc
  dsimp only at hc
  by_cases hne : circElems - d.ndtr - d.tail = 0
  · rw [if_pos hne] at hc
    cases hc
  · rw [if_neg hne] at hc
    obtain rfl := Option.some.inj hc
    dsimp only
    exact ⟨hne, rfl, rfl, fun _ => rfl⟩

theorem poll_eq_none (d : Dev) (size : BitVec 32) : (d.poll size).1 = none ↔ circElems - d.ndtr - d.tail = 0 := by
  unfold Dev.poll
  dsimp only
  by_cases hne : circElems - d.ndtr - d.tail = 0
  · rw [if_pos hne]
    exact iff_of_true rfl hne
  · rw [if_neg hne]
    exact iff_of_false nofun hne

theorem poll_dev (d : Dev) (size : BitVec 32) : (d.poll size).2 = { d with head := circElems - d.ndtr } := by
  unfold Dev.poll
  dsimp only
  split <;> rfl

/-- The reading loop over what was copied. -/
theorem filterMap_range {f : Nat → Option UInt8} {xs : List UInt8} {n : Nat} (h : ∀ i < n, f i = xs[i]?) :
    (List.range n).filterMap f = xs.take n := by
  induction n with
  | zero => rfl
  | succ n ih =>
      have hlast : [n].filterMap f = xs[n]?.toList := by
        rw [← h n (Nat.lt_succ_self n)]
        cases hf : f n <;> simp [hf]
      rw [List.range_succ, List.filterMap_append, ih fun i hi => h i (Nat.lt_succ_of_lt hi), hlast, List.take_add_one]

theorem step_byte {b : UInt8} (hs : step s (.byte b) = some s') :
    s' = { s with dev := s.dev.store b, stream := s.stream ++ [b] } :=
  (Option.some.inj hs).symm

theorem step_recv {size : BitVec 32} (hs : step s (.recv size) = some s') :
    ∃ call dev, s.dev.poll size = (call, dev) ∧ s' = { s with dev := dev, call := call } := by
  unfold step at hs
  cases hcall : s.call with
  | none =>
      rw [hcall] at hs
      rcases hpoll : s.dev.poll size with ⟨call, dev⟩
      simp only [hpoll] at hs
      exact ⟨call, dev, rfl, (Option.some.inj hs).symm⟩
  | some c =>
      rw [hcall] at hs
      cases hs

theorem step_copy {i : Nat} (hs : step s (.copy i) = some s') :
    ∃ c, s.call = some c ∧ i < c.bnum.toNat ∧
      s' = { s with
        call := some { c with copied := Function.update c.copied i (some (s.dev.circ (c.cell s.dev i))) } } := by
  unfold step at hs
  cases hcall : s.call with
  | none =>
      rw [hcall] at hs
      cases hs
  | some c =>
      rw [hcall] at hs
      obtain ⟨hi, hs⟩ := Option.ite_none_right_eq_some.1 hs
      exact ⟨c, rfl, hi, (Option.some.inj hs).symm⟩

theorem step_ret (hs : step s .ret = some s') :
    ∃ c, s.call = some c ∧ (∀ i < c.bnum.toNat, (c.copied i).isSome) ∧
      s' = { s with
        dev := { s.dev with tail := (s.dev.tail + c.bnum) % circElems }
        call := none
        read := s.read ++ c.data } := by
  unfold step at hs
  cases hcall : s.call with
  | none =>
      rw [hcall] at hs
      cases hs
  | some c =>
      rw [hcall] at hs
      obtain ⟨hall, hs⟩ := Option.ite_none_right_eq_some.1 hs
      exact ⟨c, rfl, hall, (Option.some.inj hs).symm⟩

/-- A look at the ring tells what waits up to whole rounds. -/
theorem Inv.head_sub_tail (h : Inv s) :
    (circElems - s.dev.ndtr - s.dev.tail = 0 ↔ s.waiting % 512 = 0) ∧
      ((circElems - s.dev.ndtr - s.dev.tail) % circElems).toNat = s.waiting % 512 := by
  have hndtr := h.ndtr
  have htail := h.tail
  have hle := h.read.length_le
  have hdist : (circElems - s.dev.ndtr - s.dev.tail).toNat % 512 = s.waiting % 512 := by
    unfold State.waiting circElems
    bv_omega
  have hzero : circElems - s.dev.ndtr - s.dev.tail = 0 ↔ (circElems - s.dev.ndtr - s.dev.tail).toNat % 512 = 0 := by
    have hlt := Nat.mod_lt s.read.length (by decide : 0 < 512)
    unfold circElems
    bv_omega
  exact ⟨hdist ▸ hzero, (BitVec.toNat_umod ..).trans hdist⟩

/-- **A call takes what waits up to whole rounds of the ring**: nothing, where it is whole rounds. -/
theorem poll_call (h : Inv s) (size : BitVec 32) :
    ((s.dev.poll size).1 = none ↔ s.waiting % 512 = 0) ∧
      ∀ c ∈ (s.dev.poll size).1, c.bnum.toNat = min (s.waiting % 512) size.toNat := by
  obtain ⟨hzero, hmod⟩ := h.head_sub_tail
  refine ⟨(poll_eq_none ..).trans hzero, fun c hc => ?_⟩
  obtain ⟨-, hbnum, -⟩ := poll_eq_some (Option.mem_def.1 hc)
  rw [hbnum, toNat_cMin, hmod]

theorem Inv.byte (h : Inv s) (b : UInt8) :
    Inv { s with dev := s.dev.store b, stream := s.stream ++ [b] } := by
  have hndtr := h.ndtr
  have hlt := Nat.mod_lt s.stream.length (by decide : 0 < 512)
  have hcell : (circElems - s.dev.ndtr).toNat = s.stream.length % 512 := by
    unfold circElems
    bv_omega
  refine ⟨?_, fun i hi hlast => ?_, h.tail, h.read.trans (List.prefix_append ..), fun c hc => ?_, h.wrap, h.small,
    fun c hc i b' hi => ?_⟩
  · rw [List.length_append, List.length_singleton]
    show (if s.dev.ndtr = 1 then circElems else s.dev.ndtr - 1).toNat + _ = 512
    unfold circElems
    split
    · bv_omega
    · bv_omega
  · rw [List.length_append, List.length_singleton] at hi hlast
    show _ = some (Function.update s.dev.circ (circElems - s.dev.ndtr).toNat b (i % 512))
    rw [hcell]
    rcases Nat.lt_or_eq_of_le (Nat.le_of_lt_succ hi) with hi | rfl
    · rw [Function.update_of_ne (by omega), List.getElem?_append_left hi]
      exact h.cells i hi (by omega)
    · rw [Function.update_self, List.getElem?_concat_length]
  · rw [List.length_append]
    exact Nat.le_trans (h.room c hc) (Nat.le_add_right ..)
  · have hsome := h.copied c hc i b' hi
    rw [List.getElem?_append_left (List.getElem?_eq_some_iff.1 hsome).1]
    exact hsome

theorem Inv.recv (h : Inv s) {size : BitVec 32} (hwait : s.waiting < 512) {call : Option Call} {dev : Dev}
    (hpoll : s.dev.poll size = (call, dev)) : Inv { s with dev := dev, call := call } := by
  have hbnum := (poll_call h size).2
  have hdev := poll_dev s.dev size
  have hbegun := @poll_eq_some s.dev size
  rw [hpoll] at hbnum hdev hbegun
  have hle := h.read.length_le
  have htail := h.tail
  have hwaiting : s.waiting = s.stream.length - s.read.length := rfl
  subst hdev
  refine ⟨h.ndtr, h.cells, h.tail, h.read, fun c hc => ?_, fun c hc => ?_, fun c hc => ?_, fun c hc i b hi => ?_⟩
  · have hmin := hbnum c hc
    show s.read.length + c.bnum.toNat ≤ s.stream.length
    omega
  · obtain ⟨-, -, hwrap, -⟩ := hbegun hc
    have hrest : (circElems - s.dev.tail).toNat = 512 - s.dev.tail.toNat := by
      unfold circElems
      bv_omega
    rw [hwrap, toNat_cMin, hrest]
  · have hmin := hbnum c hc
    omega
  · rw [(hbegun hc).2.2.2 i] at hi
    cases hi

theorem Inv.copy (h : Inv s) {c : Call} (hc : s.call = some c) {i : Nat} (hi : i < c.bnum.toNat)
    (hlate : s.waiting ≤ i + 512) :
    Inv { s with call := some { c with copied := Function.update c.copied i (some (s.dev.circ (c.cell s.dev i))) } } := by
  have hroom := h.room c hc
  have hwrap := h.wrap c hc
  have hsmall := h.small c hc
  have htail := h.tail
  have hcell : c.cell s.dev i = (s.read.length + i) % 512 := by
    unfold Call.cell
    rw [hwrap, htail]
    rcases Nat.le_total c.bnum.toNat (512 - s.read.length % 512) with hm | hm
    · rw [Nat.min_eq_left hm, if_pos hi]
      omega
    · rw [Nat.min_eq_right hm]
      split <;> omega
  have hbyte : s.stream[s.read.length + i]? = some (s.dev.circ (c.cell s.dev i)) := by
    rw [hcell]
    unfold State.waiting at hlate
    exact h.cells _ (by omega) (by omega)
  refine ⟨h.ndtr, h.cells, h.tail, h.read, fun c' hc' => ?_, fun c' hc' => ?_, fun c' hc' => ?_, fun c' hc' j b hj => ?_⟩
  · obtain rfl := Option.some.inj hc'
    exact hroom
  · obtain rfl := Option.some.inj hc'
    exact hwrap
  · obtain rfl := Option.some.inj hc'
    exact hsmall
  · obtain rfl := Option.some.inj hc'
    by_cases hij : j = i
    · subst hij
      exact hbyte.trans ((Function.update_self (f := c.copied) ..).symm.trans hj)
    · exact h.copied c hc j b ((Function.update_of_ne hij ..).symm.trans hj)

theorem Inv.ret (h : Inv s) {c : Call} (hc : s.call = some c) (hall : ∀ i < c.bnum.toNat, (c.copied i).isSome) :
    Inv { s with
      dev := { s.dev with tail := (s.dev.tail + c.bnum) % circElems }
      call := none
      read := s.read ++ c.data } := by
  have hroom := h.room c hc
  have htail := h.tail
  obtain ⟨rest, hrest⟩ := h.read
  have hdata : c.data = rest.take c.bnum.toNat := by
    refine filterMap_range fun i hi => ?_
    obtain ⟨b, hb⟩ := Option.isSome_iff_exists.1 (hall i hi)
    have hsome := h.copied c hc i b hb
    rw [← hrest, List.getElem?_append_right (Nat.le_add_right ..), Nat.add_sub_cancel_left] at hsome
    exact hb.trans hsome.symm
  have hlen : (s.read ++ c.data).length = s.read.length + c.bnum.toNat := by
    have htotal := congrArg List.length hrest
    rw [List.length_append] at htotal
    rw [hdata, List.length_append, List.length_take, Nat.min_eq_left (by omega)]
  refine ⟨h.ndtr, h.cells, ?_, ?_, nofun, nofun, nofun, nofun⟩
  · have hsmall := h.small c hc
    have hmod : ((s.dev.tail + c.bnum) % circElems).toNat = (s.dev.tail + c.bnum).toNat % 512 := BitVec.toNat_umod ..
    refine hmod.trans ?_
    rw [hlen, BitVec.toNat_add]
    omega
  · rw [hdata, ← hrest, List.prefix_append_right_inj]
    exact List.take_prefix ..

theorem inv_step {e : Event} (h : Inv s) (hg : Timely s e) (hs : step s e = some s') : Inv s' ∧ Received s e s' := by
  suffices hinv : Inv s' ∧ ∀ size, e = .recv size →
      (s'.call = none ↔ s.waiting = 0) ∧ ∀ c ∈ s'.call, c.bnum.toNat = min s.waiting size.toNat from
    ⟨hinv.1, hinv.1.read, hinv.2⟩
  cases e with
  | byte b =>
      obtain rfl := step_byte hs
      exact ⟨h.byte b, nofun⟩
  | recv size =>
      have hwait : s.waiting < 512 := hg
      have hcall := poll_call h size
      rw [Nat.mod_eq_of_lt hwait] at hcall
      obtain ⟨call, dev, hpoll, rfl⟩ := step_recv hs
      rw [hpoll] at hcall
      refine ⟨h.recv hwait hpoll, fun size' he => ?_⟩
      rw [← Event.recv.inj he]
      exact hcall
  | copy i =>
      obtain ⟨c, hc, hi, rfl⟩ := step_copy hs
      exact ⟨h.copy hc hi hg, nofun⟩
  | ret =>
      obtain ⟨c, hc, hall, rfl⟩ := step_ret hs
      exact ⟨h.ret hc hall, nofun⟩

/-- The device as `USART_DevInit` leaves it. -/
def start (circ : Nat → UInt8) : State := ⟨⟨circ, circElems, 0, 0⟩, none, [], []⟩

theorem inv_start (circ : Nat → UInt8) : Inv (start circ) := by
  refine ⟨rfl, fun i hi => absurd hi (Nat.not_lt_zero i), rfl, List.nil_prefix, ?_, ?_, ?_, ?_⟩
  all_goals exact nofun

/-- **What is received is what was sent**, in order and without a gap, along every run in which the calls keep up with
the line. -/
theorem received_of_timely (circ : Nat → UInt8) (es : List Event) (hg : Meets step Timely (start circ) es) :
    Along step Received (start circ) es :=
  along_of_meets (I := Inv) (fun _ e _ h hg hs => inv_step (e := e) h hg hs) (inv_start circ) hg

end

instance (s : State) : ∀ e, Decidable (Timely s e)
  | .recv _ => inferInstanceAs (Decidable (s.waiting < 512))
  | .copy i => inferInstanceAs (Decidable (s.waiting ≤ i + 512))
  | .byte _ | .ret => isTrue trivial

/-- Three bytes, the third of them in the middle of a call. -/
def threeBytes : List Event := [.byte 1, .byte 2, .recv 8, .copy 1, .byte 3, .copy 0, .ret, .recv 8, .copy 0, .ret]

theorem received_of_timely_threeBytes :
    (∀ s ∈ run step (start fun _ => 0) threeBytes, s.read = [1, 2, 3]) ∧
      Along step Received (start fun _ => 0) threeBytes :=
  ⟨by decide, received_of_timely (fun _ => 0) threeBytes (by decide)⟩

end YieldStm32.Usart
