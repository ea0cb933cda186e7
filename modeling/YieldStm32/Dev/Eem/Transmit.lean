import YieldStm32.Dev.Eem.Frame
import YieldStm32.Lib.Run

/-!
# The EEM transmit ring (`dev/src/usb_eem.c`)

Tasks switch only at `Yield()`. `USBEEM_TxTask` fills a transfer from the ring and yields until `USB_WaitINTransfer`
returns; only then it moves the tail, by the copy it made. `USBEEM_Send` polls for room; what a pass of its loop does
depends only on the frame and on the ring, so a call is its passes.

* `step` : one event; `accepted`, `completed` : the frames taken and the transfers that went well;
* `Inv` : what every event keeps;
* `delivered_once` : every frame taken is in one completed transfer or in the ring, in order.
-/

namespace YieldStm32.Eem

open Counter Ring Transition

/-- `USBEEM_TX_BUF_CAPACITY` -/
def txBufCapacity : Nat := 2

inductive Err where
  | eargval
  | etimeout
  | ecancel
  | eusbInactive
deriving DecidableEq, Repr

/-- `USBEEM_TxTask` is at the top of its loop, or waits for a transfer with the tail it will have when it is done. -/
inductive TxTask where
  | top
  | waiting (offs : Nat) (tail : BitVec 32)
deriving DecidableEq

/-- `tx`, `tx_head`, `tx_tail`, `endiannes`, and what `USBEEM_TxTask` is at. -/
structure State where
  tx : Nat → Buf
  head : BitVec 32
  tail : BitVec 32
  endiannes : Endiannes
  transfer : Mem
  task : TxTask

/-- `giveUp` is what time-out, cancellation and the state of the interface say, `started` the result of
`USB_StartINTransfer`, `done` the one of `USB_WaitINTransfer`. -/
inductive Event where
  | endian (e : Endiannes)
  | send (ptr : List UInt8) (giveUp : Option Err)
  | tx (started : Bool)
  | busy
  | done (ok : Bool)

/-- What a pass comes to: the size, an error, or another pass. -/
inductive Pass where
  | size (n : Nat)
  | err (e : Err)
  | again
deriving DecidableEq

/-- A pass of `USBEEM_Send` from its call, or from its `Yield()`. -/
def send (ptr : List UInt8) (giveUp : Option Err) (s : State) : Pass × State :=
  if h : ptr.length ≤ maxEthFrameLen then
    if (s.head - s.tail).toNat = txBufCapacity then (giveUp.elim .again .err, s)
    else
      (.size ptr.length, { s with
        tx := Function.update s.tx (Slots.index txBufCapacity s.head) ⟨ptr, h⟩
        head := s.head + 1 })
  else (.err .eargval, s)

/-- A round of `USBEEM_TxTask` from the top of its loop. -/
def txRound (started : Bool) (s : State) : State :=
  if s.endiannes = .unknown then s
  else
    let p := pack s.endiannes txBufCapacity s.tx s.head s.tail s.transfer
    -- no frames to be sent
    if p.offs = 0 then { s with transfer := p.transfer }
    else if started then { s with transfer := p.transfer, task := .waiting p.offs p.tail }
    else { s with transfer := p.transfer }

/-- One event. The byte order is set by the reception task and cleared by a reset. -/
def step (s : State) : Event → Option State
  | .endian e => some { s with endiannes := e }
  | .send ptr giveUp => some (send ptr giveUp s).2
  | .tx started => if s.task = .top then some (txRound started s) else none
  | .busy => if s.task = .top then none else some s
  | .done ok =>
    match s.task with
    | .top => none
    | .waiting _ tail => some { s with task := .top, tail := if ok then tail else s.tail }

/-- The frame for which `USBEEM_Send` returns its size. -/
def accepted (s : State) : Event → State → List Buf
  | .send ptr giveUp, _ =>
    if h : ptr.length ≤ maxEthFrameLen then
      if (send ptr giveUp s).1 = .size ptr.length then [⟨ptr, h⟩] else []
    else []
  | _, _ => []

theorem accepted_send (s s' : State) (ptr : List UInt8) (giveUp : Option Err) :
    accepted s (.send ptr giveUp) s' = if h : ptr.length ≤ maxEthFrameLen then
      if (send ptr giveUp s).1 = .size ptr.length then [⟨ptr, h⟩] else [] else [] := rfl

/-- The bytes of a transfer that completes successfully. -/
def completed (s : State) : Event → State → List (List UInt8)
  | .done true, _ =>
    match s.task with
    | .top => []
    | .waiting offs _ => [copyOut s.transfer 0 offs]
  | _, _ => []

/-- The frames in the ring. -/
def State.waiting (s : State) : List Buf := Slots.list txBufCapacity s.tx (s.head - s.tail).toNat s.tail

/-- The bytes are the frames, one after the other, in a byte order of a host. -/
def Carries (bytes : List UInt8) (bufs : List Buf) : Prop :=
  ∃ e : Endiannes, e ≠ .unknown ∧ bytes = bufs.flatMap (Buf.encode e)

/-- The ring is not overfull, and the transfer on its way is made of its first frames. -/
structure Inv (s : State) : Prop where
  used : (s.head - s.tail).toNat ≤ txBufCapacity
  flight : ∀ offs tail, s.task = .waiting offs tail → ∃ k ≤ (s.head - s.tail).toNat, tail = adv s.tail k ∧
    Carries (copyOut s.transfer 0 offs) (Slots.list txBufCapacity s.tx k s.tail)

/-- No slot between tail and head changes. -/
def Untouched (s : State) (_ : Event) (s' : State) : Prop :=
  ∀ i < (s.head - s.tail).toNat, s'.tx (Slots.index txBufCapacity (adv s.tail i)) =
    s.tx (Slots.index txBufCapacity (adv s.tail i))

theorem txBufCapacity_dvd : txBufCapacity ∣ 2 ^ 32 := by decide

/-- A pass that stores its frame puts it behind those in the ring. -/
theorem send_stored {s : State} {ptr : List UInt8} (giveUp : Option Err) (h : Inv s) (hlen : ptr.length ≤ maxEthFrameLen)
    (hfull : (s.head - s.tail).toNat ≠ txBufCapacity) :
    let s' := (send ptr giveUp s).2
    (send ptr giveUp s).1 = .size ptr.length ∧ Inv s' ∧ Untouched s (.send ptr giveUp) s' ∧
      s'.waiting = s.waiting ++ [⟨ptr, hlen⟩] := by
  have hroom : (s.head - s.tail).toNat < txBufCapacity := Nat.lt_of_le_of_ne h.used hfull
  have hcap : txBufCapacity < 2 ^ 32 - 1 := by decide
  have hhead : adv s.tail (s.head - s.tail).toNat = s.head := adv_toNat_sub s.head s.tail
  have hused : (s.head + 1 - s.tail).toNat = (s.head - s.tail).toNat + 1 :=
    adv_sub s.head s.tail (n := 1) (by omega)
  have hsend : send ptr giveUp s = (.size ptr.length, { s with
      tx := Function.update s.tx (Slots.index txBufCapacity (adv s.tail (s.head - s.tail).toNat)) ⟨ptr, hlen⟩
      head := s.head + 1 }) := by
    unfold send
    rw [dif_pos hlen, if_neg hfull, hhead]
  rw [hsend]
  refine ⟨rfl, ⟨?_, fun offs tail htask => ?_⟩, fun i hi => ?_, ?_⟩
  · show (s.head + 1 - s.tail).toNat ≤ txBufCapacity
    omega
  · obtain ⟨k, hk, htail, hcarry⟩ := h.flight offs tail htask
    refine ⟨k, ?_, htail, ?_⟩
    · show k ≤ (s.head + 1 - s.tail).toNat
      omega
    · rwa [Slots.list_update txBufCapacity_dvd hroom _ _ _ hk]
  · exact Slots.update_behind txBufCapacity_dvd hroom s.tx s.tail _ hi
  · show Slots.list txBufCapacity _ (s.head + 1 - s.tail).toNat s.tail = _
    rw [hused, Slots.list_push txBufCapacity_dvd hroom]
    rfl

/-- A pass that stores nothing changes nothing. -/
theorem send_not_stored {s : State} {ptr : List UInt8} (giveUp : Option Err)
    (h : ¬ (ptr.length ≤ maxEthFrameLen ∧ (s.head - s.tail).toNat ≠ txBufCapacity)) :
    (send ptr giveUp s).1 ≠ .size ptr.length ∧ (send ptr giveUp s).2 = s := by
  unfold send
  split
  · rename_i hlen
    have hfull : (s.head - s.tail).toNat = txBufCapacity := not_not.1 fun hne => h ⟨hlen, hne⟩
    rw [if_pos hfull]
    cases giveUp <;> exact ⟨nofun, rfl⟩
  · exact ⟨nofun, rfl⟩

/-- A round of the transmit task touches neither the ring nor its counters. -/
theorem txRound_ring (started : Bool) (s : State) :
    (txRound started s).tx = s.tx ∧ (txRound started s).head = s.head ∧ (txRound started s).tail = s.tail := by
  unfold txRound
  dsimp only
  split
  · exact ⟨rfl, rfl, rfl⟩
  · split
    · exact ⟨rfl, rfl, rfl⟩
    · split <;> exact ⟨rfl, rfl, rfl⟩

theorem txRound_inv {s : State} (started : Bool) (h : Inv s) (htop : s.task = .top) : Inv (txRound started s) := by
  obtain ⟨htx, hhead, htail⟩ := txRound_ring started s
  refine ⟨by rw [hhead, htail]; exact h.used, fun offs tail htask => ?_⟩
  rw [htx, hhead, htail]
  unfold txRound at htask ⊢
  dsimp only at htask ⊢
  split at htask
  · rw [htop] at htask
    cases htask
  rename_i hknown
  rw [if_neg hknown]
  split at htask
  · rw [htop] at htask
    cases htask
  rename_i hsome
  rw [if_neg hsome]
  cases started with
  | false =>
      rw [if_neg Bool.false_ne_true] at htask
      rw [htop] at htask
      cases htask
  | true =>
      rw [if_pos rfl] at htask ⊢
      obtain ⟨k, hk, -, hend, hbytes, -⟩ :=
        packLoop_spec s.endiannes txBufCapacity s.tx (s.head - s.tail).toNat ⟨s.transfer, 0, s.tail, 0⟩
      cases htask
      exact ⟨k, hk, hend, s.endiannes, hknown, hbytes⟩

/-- One event: the frames taken follow those in the ring, and a completed transfer carries its first ones. -/
theorem step_balance (s : State) (e : Event) (s' : State) (h : Inv s) (hs : step s e = some s') :
    (Inv s' ∧ ∃ bss : List (List Buf), List.Forall₂ Carries (completed s e s') bss ∧
      s.waiting ++ accepted s e s' = bss.flatten ++ s'.waiting) ∧ Untouched s e s' := by
  -- nothing in, nothing out
  have hquiet : completed s e s' = [] → accepted s e s' = [] → Inv s' → s'.tx = s.tx → s'.head = s.head → s'.tail = s.tail →
      (Inv s' ∧ ∃ bss : List (List Buf), List.Forall₂ Carries (completed s e s') bss ∧
        s.waiting ++ accepted s e s' = bss.flatten ++ s'.waiting) ∧ Untouched s e s' := by
    intro hc ha hinv htx hhead htail
    refine ⟨⟨hinv, [], ?_, ?_⟩, fun i _ => by rw [htx]⟩
    · rw [hc]
      exact .nil
    · rw [ha, List.append_nil, State.waiting, State.waiting, htx, hhead, htail]
      rfl
  cases e with
  | endian e =>
      obtain rfl := Option.some.inj hs
      exact hquiet rfl rfl ⟨h.used, h.flight⟩ rfl rfl rfl
  | send ptr giveUp =>
      obtain rfl := Option.some.inj hs
      by_cases hst : ptr.length ≤ maxEthFrameLen ∧ (s.head - s.tail).toNat ≠ txBufCapacity
      · obtain ⟨hsize, hinv, hkeep, hwait⟩ := send_stored giveUp h hst.1 hst.2
        refine ⟨⟨hinv, [], .nil, ?_⟩, hkeep⟩
        have hacc : accepted s (.send ptr giveUp) (send ptr giveUp s).2 = [⟨ptr, hst.1⟩] := by
          rw [accepted_send, dif_pos hst.1, if_pos hsize]
        rw [hacc, hwait]
        rfl
      · obtain ⟨hsize, hsame⟩ := send_not_stored giveUp hst
        have hacc : accepted s (.send ptr giveUp) (send ptr giveUp s).2 = [] := by
          rw [accepted_send]
          split <;> rfl
        exact hquiet rfl hacc (by rw [hsame]; exact h) (by rw [hsame]) (by rw [hsame]) (by rw [hsame])
  | tx started =>
      obtain ⟨htop, hround⟩ := Option.ite_none_right_eq_some.1 hs
      obtain rfl := Option.some.inj hround
      obtain ⟨htx, hhead, htail⟩ := txRound_ring started s
      exact hquiet rfl rfl (txRound_inv started h htop) htx hhead htail
  | busy =>
      obtain ⟨-, hsame⟩ := Option.ite_none_left_eq_some.1 hs
      obtain rfl := Option.some.inj hsame
      exact hquiet rfl rfl h rfl rfl rfl
  | done ok =>
      cases htask : s.task with
      | top =>
          simp only [step, htask] at hs
          cases hs
      | waiting offs tail =>
          simp only [step, htask] at hs
          obtain rfl := Option.some.inj hs
          cases ok with
          | false => exact hquiet rfl rfl ⟨h.used, nofun⟩ rfl rfl rfl
          | true =>
              obtain ⟨k, hk, rfl, hcarry⟩ := h.flight offs tail htask
              have hused : (s.head - adv s.tail k).toNat = (s.head - s.tail).toNat - k := sub_adv s.head s.tail hk
              refine ⟨⟨⟨?_, nofun⟩, [Slots.list txBufCapacity s.tx k s.tail], ?_, ?_⟩, fun _ _ => rfl⟩
              · show (s.head - adv s.tail k).toNat ≤ txBufCapacity
                rw [hused]
                exact Nat.le_trans (Nat.sub_le ..) h.used
              · simp only [completed, htask]
                exact .cons hcarry .nil
              · show s.waiting ++ [] = [_].flatten ++ Slots.list txBufCapacity s.tx (s.head - adv s.tail k).toNat (adv s.tail k)
                rw [hused, List.append_nil, List.flatten_singleton, ← Slots.list_add, Nat.add_sub_cancel' hk]
                rfl

/-- **The transmit ring delivers each frame once**: over every run, the frames for which `USBEEM_Send` returned their size
are, in order, those in the transfers that completed successfully and then those in the ring; no slot of a frame that is
not yet delivered is written to. -/
theorem delivered_once (s s' : State) (es : List Event) (hused : (s.head - s.tail).toNat ≤ txBufCapacity)
    (htop : s.task = .top) (hr : run step s es = some s') :
    (∃ bss : List (List Buf), List.Forall₂ Carries (trace step completed s es) bss ∧
        s.waiting ++ trace step accepted s es = bss.flatten ++ s'.waiting) ∧
      Along step Untouched s es := by
  have hinv : Inv s := ⟨hused, fun offs tail htask => by rw [htop] at htask; cases htask⟩
  refine ⟨trace_balance (fun s e s' h hs => (step_balance s e s' h hs).1) hinv hr, ?_⟩
  refine along_of_meets (I := Inv) (G := fun _ _ => True) (fun s e s' h _ hs => ?_) hinv (Meets.of_forall (fun _ _ => trivial) s es)
  obtain ⟨⟨hinv', -⟩, hkeep⟩ := step_balance s e s' h hs
  exact ⟨hinv', hkeep⟩

/-- An empty ring whose counters are about to wrap, and a host in little endian order. -/
def aboutToWrap : State := ⟨twoBufs, 0xffffffff, 0xffffffff, .le, fun _ => 0, .top⟩

/-- Two frames are taken, the transfer fails, and is made again; a third frame waits for room. -/
def retried : List Event :=
  [.send [1, 2] none, .tx true, .send [3] none, .send [4] none, .done false, .tx true, .done true, .send [4] none]

theorem delivered_once_retried :
    ((aboutToWrap.head - aboutToWrap.tail).toNat ≤ txBufCapacity ∧ aboutToWrap.task = .top) ∧
      ∃ s', run step aboutToWrap retried = some s' ∧
        (∃ bss : List (List Buf), List.Forall₂ Carries (trace step completed aboutToWrap retried) bss ∧
            aboutToWrap.waiting ++ trace step accepted aboutToWrap retried = bss.flatten ++ s'.waiting) ∧
          Along step Untouched aboutToWrap retried := by
  have hused : (aboutToWrap.head - aboutToWrap.tail).toNat ≤ txBufCapacity := by decide
  have hsome : (run step aboutToWrap retried).isSome = true := by decide
  obtain ⟨s', hr⟩ := Option.isSome_iff_exists.1 hsome
  exact ⟨⟨hused, rfl⟩, s', hr, delivered_once aboutToWrap s' retried hused rfl hr⟩

/-- What that run delivers. -/
example : (trace step completed aboutToWrap retried).map List.length = [15] ∧
    (trace step accepted aboutToWrap retried).map Buf.pld = [[1, 2], [3], [4]] := by decide

end YieldStm32.Eem
