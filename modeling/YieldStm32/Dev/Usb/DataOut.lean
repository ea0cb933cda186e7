import YieldStm32.Dev.Usb.DataIn
import YieldStm32.Dev.Usb.Receive

/-!
# The data stage from the host (`dev/src/usb_core.c`)

A packet of 64 bytes is followed by another one; a shorter one ends the stage, and the request is processed a second time,
told apart from the first time by `ctl_ptr`.

* `stored_of_receive` : what a transfer stores of a packet, as the driver takes it from the FIFO;
* `Receiving` : the packet at offset `o` is awaited;
* `Receiving.full`, `Receiving.short` : a packet;
* `Receiving.run` : all packets, the bytes they store and the notification behind them;
* `Received` : what is wanted of the stage, `not_received`.
-/

namespace YieldStm32.Usb.Core

open Packets

variable {σ : Type*} {subscribers : σ → ReqEvArg → σ × ReqEvArg} {descs : DescSet}

/-- The driver stores what there is room for, and counts it. -/
theorem stored_of_receive (ptr : Nat) (size : UInt32) (bytes : List UInt8) (rx : Rx)
    (hbytes : packet rx bytes.length = bytes) :
    (receive ⟨ptr, ebusy, size.toNat, 0⟩ bytes.length rx).2.mem = Ring.copyIn rx.mem ptr (bytes.take size.toNat) ∧
      (receive ⟨ptr, ebusy, size.toNat, 0⟩ bytes.length rx).1.offs = (bytes.take size.toNat).length := by
  have hroom : room ⟨ptr, ebusy, size.toNat, 0⟩ = size.toNat := by
    unfold room
    split
    · rfl
    · rename_i h
      have hzero : ¬ 0 < size.toNat := fun hpos => h ⟨rfl, hpos⟩
      omega
  rw [receive_eq, hroom, hbytes, List.length_take, Nat.min_comm size.toNat]
  refine ⟨?_, Nat.zero_add _⟩
  show Ring.copyIn rx.mem ptr (bytes.take (min bytes.length size.toNat)) = _
  rw [Nat.min_comm, ← List.take_eq_take_min]

/-- The packet at offset `o` of the data for the request `s` is awaited. -/
structure Receiving (s : Setup) (ptr : Ptr) (o : Nat) (c : Core σ) : Prop where
  frame : c.ctlSetup c.ctlIndex.toNat = s
  pointer : c.ctlPtr = ptr
  offset : c.ctlOffset.toNat = o
  inside : o ≤ c.ctlSize.toNat
  transfer : c.epOut = some ⟨ptr.add o, min ctrlepSize (c.ctlSize - c.ctlOffset), .dataOUT⟩

variable {s : Setup} {ptr : Ptr} {o : Nat} {c : Core σ}

/-- Memory with bytes stored at a pointer. -/
def store (m : Block → Nat → UInt8) (p : Ptr) (bytes : List UInt8) : Block → Nat → UInt8 :=
  Function.update m p.block (Ring.copyIn (m p.block) p.offs bytes)

theorem store_store (m : Block → Nat → UInt8) (p : Ptr) (xs ys : List UInt8) :
    store (store m p xs) (p.add xs.length) ys = store m p (xs ++ ys) := by
  show Function.update (Function.update m p.block _) p.block (Ring.copyIn (Function.update m p.block _ p.block) _ ys) = _
  rw [Function.update_self, Function.update_idem, store, ← Ring.copyIn_append]
  rfl

theorem Receiving.rest (h : Receiving s ptr o c) : (c.ctlSize - c.ctlOffset).toNat = c.ctlSize.toNat - o :=
  toNat_rest h.offset h.inside

/-- A packet that is not longer than what is awaited is stored as it is. -/
theorem Receiving.outPacket_eq (h : Receiving s ptr o c) {bytes : List UInt8} (hlen : bytes.length ≤ 64)
    (hroom : o + bytes.length ≤ c.ctlSize.toNat) :
    outPacket subscribers descs bytes c =
      dataOUTCallback subscribers descs eok (UInt32.ofNat bytes.length)
        { c with epOut := none, mem := store c.mem (ptr.add o) bytes } := by
  have htake : bytes.take (min ctrlepSize (c.ctlSize - c.ctlOffset)).toNat = bytes := by
    rw [toNat_min, h.rest]
    refine List.take_of_length_le (Nat.le_min.2 ⟨hlen, ?_⟩)
    omega
  rw [outPacket, h.transfer]
  dsimp only
  rw [htake]
  rfl

theorem Receiving.offset_add (h : Receiving s ptr o c) {k : Nat} (hk : o + k ≤ c.ctlSize.toNat) :
    (c.ctlOffset + UInt32.ofNat k).toNat = o + k := by
  have hlt := c.ctlSize.toNat_lt
  rw [UInt32.toNat_add, UInt32.toNat_ofNat_of_lt' (by show k < 2 ^ 32; omega), h.offset]
  exact Nat.mod_eq_of_lt (by omega)

/-- A full packet: the next one is awaited behind it. -/
theorem Receiving.full (h : Receiving s ptr o c) {bytes : List UInt8} (hlen : bytes.length = 64)
    (hroom : o + 64 ≤ c.ctlSize.toNat) :
    let c' := outPacket subscribers descs bytes c
    Receiving s ptr (o + 64) c' ∧ c'.ctlSize = c.ctlSize ∧ c'.mem = store c.mem (ptr.add o) bytes ∧ c'.notes = c.notes ∧
      c'.subs = c.subs ∧ c'.epIn = c.epIn := by
  have hoffset : (c.ctlOffset + ctrlepSize).toNat = o + 64 := h.offset_add hroom
  have hrun : outPacket subscribers descs bytes c =
      startOUTTransfer (c.ctlPtr.add (c.ctlOffset + ctrlepSize).toNat)
        (min ctrlepSize (c.ctlSize - (c.ctlOffset + ctrlepSize))) .dataOUT
        { c with epOut := none, mem := store c.mem (ptr.add o) bytes, ctlOffset := c.ctlOffset + ctrlepSize } := by
    rw [h.outPacket_eq (Nat.le_of_eq hlen) (by rw [hlen]; exact hroom), hlen]
    have hsize : UInt32.ofNat 64 = ctrlepSize := rfl
    unfold dataOUTCallback
    rw [if_neg (by decide)]
    dsimp only
    rw [if_pos hsize, hsize]
  intro c'
  have hc' : c' = _ := hrun
  rw [hc', hoffset, h.pointer]
  exact ⟨⟨h.frame, rfl, hoffset, hroom, rfl⟩, rfl, rfl, rfl, rfl, rfl⟩

/-- A request from the host, before and after its data: subscribers are notified without a pointer. -/
theorem processSetupData_out (hdir : s.dirIn = false) (c : Core σ) :
    processSetupData subscribers descs s c =
      let (arg, c) := c.notify subscribers ⟨s, efatal, .null, 0⟩
      if arg.status = eok then
        if c.ctlPtr = .null then c.startDataOUTStage arg.ptr arg.size else c.startStatusINStage
      else
        c.abortStage := by
  have hreply : standardData subscribers descs s c = ⟨efatal, .null, 0, c⟩ := by
    unfold standardData
    rw [if_neg fun h => by rw [hdir] at h; exact Bool.false_ne_true h.2]
  unfold processSetupData
  rw [hreply, hdir]
  rfl

/-- The end of a request whose data are there. -/
theorem processSetupData_again (hdir : s.dirIn = false) (hnull : c.ctlPtr ≠ .null) (hfree : c.epOut = none) :
    let c' := processSetupData subscribers descs s c
    c'.mem = c.mem ∧ c'.notes = c.notes ++ [⟨s, efatal, .null, 0⟩] ∧
      ((subscribers c.subs ⟨s, efatal, .null, 0⟩).2.status = eok → c.epIn = none →
        c'.epIn = some ⟨.null, 0, .statusIN⟩ ∧ c'.epOut = none) := by
  intro c'
  have hc' : c' = _ := processSetupData_out hdir c
  rw [hc']
  unfold notify
  dsimp only
  split
  · refine ⟨rfl, rfl, fun _ hin => ⟨?_, hfree⟩⟩
    show c.epIn.or _ = _
    rw [hin]
    rfl
  · rename_i hstatus
    exact ⟨rfl, rfl, fun h => absurd h hstatus⟩

/-- A short packet: the request is processed again. -/
theorem Receiving.short (h : Receiving s ptr o c) (hdir : s.dirIn = false) (hdata : s.length ≠ 0) (hnull : ptr ≠ .null)
    {bytes : List UInt8} (hlen : bytes.length < 64) (hroom : o + bytes.length ≤ c.ctlSize.toNat) :
    let c' := outPacket subscribers descs bytes c
    c'.mem = store c.mem (ptr.add o) bytes ∧ c'.notes = c.notes ++ [⟨s, efatal, .null, 0⟩] ∧
      ((subscribers c.subs ⟨s, efatal, .null, 0⟩).2.status = eok → c.epIn = none →
        c'.epIn = some ⟨.null, 0, .statusIN⟩ ∧ c'.epOut = none) := by
  have hsize : UInt32.ofNat bytes.length ≠ ctrlepSize := by
    intro heq
    have hnat := congrArg UInt32.toNat heq
    rw [UInt32.toNat_ofNat_of_lt' (by show _ < 2 ^ 32; omega)] at hnat
    exact absurd hnat (Nat.ne_of_lt hlen)
  have hrun : outPacket subscribers descs bytes c = processSetupData subscribers descs s
      { c with
        epOut := none
        mem := store c.mem (ptr.add o) bytes
        ctlOffset := c.ctlOffset + UInt32.ofNat bytes.length } := by
    rw [h.outPacket_eq (Nat.le_of_lt hlen) hroom]
    unfold dataOUTCallback
    rw [if_neg (by decide)]
    dsimp only
    rw [if_neg hsize]
    unfold setupCallback processSetup
    rw [if_neg (by decide)]
    dsimp only
    rw [if_neg (not_not.2 rfl), h.frame, if_neg hdata]
  intro c'
  have hc' : c' = _ := hrun
  rw [hc']
  exact @processSetupData_again _ _ _ _ _ hdir (h.pointer ▸ hnull) rfl

/-! ## All packets -/

/-- The host sends its packets. -/
def receiveAll (subscribers : σ → ReqEvArg → σ × ReqEvArg) (descs : DescSet) (ps : List (List UInt8)) (c : Core σ) : Core σ :=
  ps.foldl (fun c p => outPacket subscribers descs p c) c

/-- The bytes of all packets are stored behind one another. Behind a short packet the subscribers are notified, without a
pointer, and the status stage can begin; behind a full one another packet is awaited. -/
theorem Receiving.run (h : Receiving s ptr o c) (hdir : s.dirIn = false) (hdata : s.length ≠ 0) (hnull : ptr ≠ .null)
    {ps : List (List UInt8)} (hps : Split 64 (fun k => 0 < k ∧ k ≤ 64) ps)
    (hsum : o + ps.flatten.length = c.ctlSize.toNat) :
    let c' := receiveAll subscribers descs ps c
    c'.mem = store c.mem (ptr.add o) ps.flatten ∧
      c'.notes = c.notes ++ (if ps.flatten.length % 64 = 0 then [] else [⟨s, efatal, .null, 0⟩]) ∧
      (ps.flatten.length % 64 = 0 → c'.epOut ≠ none) ∧
      (ps.flatten.length % 64 ≠ 0 → (subscribers c.subs ⟨s, efatal, .null, 0⟩).2.status = eok → c.epIn = none →
        c'.epIn = some ⟨.null, 0, .statusIN⟩ ∧ c'.epOut = none) := by
  induction ps generalizing o c with
  | nil => exact absurd hps not_split_nil
  | cons bytes ps ih =>
      rw [List.flatten_cons, List.length_append] at hsum ⊢
      rcases hps.cons_cases with ⟨rfl, hpos, hle⟩ | ⟨hlen, hps⟩
      · rw [List.flatten_nil, List.length_nil, Nat.add_zero] at hsum
        rw [List.flatten_nil, List.append_nil, List.length_nil, Nat.add_zero]
        rcases Nat.lt_or_eq_of_le hle with hlt | hfull
        · have hmod : bytes.length % 64 ≠ 0 := by omega
          obtain ⟨hmem, hnotes, hstatus⟩ :=
            @Receiving.short _ subscribers descs _ _ _ _ h hdir hdata hnull bytes hlt (Nat.le_of_eq hsum)
          rw [if_neg hmod]
          exact ⟨hmem, hnotes, fun h0 => absurd h0 hmod, fun _ => hstatus⟩
        · have hmod : bytes.length % 64 = 0 := by omega
          obtain ⟨hnext, -, hmem, hnotes, -, -⟩ :=
            @Receiving.full _ subscribers descs _ _ _ _ h bytes hfull (by omega)
          rw [if_pos hmod, List.append_nil]
          refine ⟨hmem, hnotes, fun _ hnone => ?_, fun hne => absurd hmod hne⟩
          exact absurd (hnext.transfer.symm.trans hnone) (Option.some_ne_none _)
      · obtain ⟨hnext, hsize, hmem, hnotes, hsubs, hin⟩ :=
          @Receiving.full _ subscribers descs _ _ _ _ h bytes hlen (by omega)
        have hmod : (bytes.length + ps.flatten.length) % 64 = ps.flatten.length % 64 := by omega
        have hrun := ih hnext hps (by rw [hsize]; omega)
        rw [hmem, hnotes, hsubs, hin] at hrun
        obtain ⟨hmem', hrest⟩ := hrun
        rw [hmod]
        have hstore := store_store c.mem (ptr.add o) bytes ps.flatten
        rw [hlen, Ptr.add_add] at hstore
        exact ⟨hmem'.trans hstore, hrest⟩

/-- The setup stage waits for a frame. -/
structure Listening (c : Core σ) : Prop where
  transfer : c.epOut = some ⟨⟨.ctlSetup, 0⟩, 24, .setup⟩
  pointer : c.ctlPtr = .null

/-- A request from the host, for which subscribers supply memory. -/
theorem receiving_start (hc : Listening c) (hdir : s.dirIn = false) (hdata : s.length ≠ 0)
    (hstatus : (subscribers c.subs ⟨s, efatal, .null, 0⟩).2.status = eok)
    (hptr : (subscribers c.subs ⟨s, efatal, .null, 0⟩).2.ptr = ptr) :
    let c' := setupDone subscribers descs [s] c
    Receiving s ptr 0 c' ∧ c'.ctlSize = (subscribers c.subs ⟨s, efatal, .null, 0⟩).2.size ∧ c'.mem = c.mem ∧
      c'.notes = c.notes ++ [⟨s, efatal, .null, 0⟩] := by
  have hpos : UInt32.ofNat (8 * [s].length) ≠ 0 := show UInt32.ofNat (8 * 1) ≠ 0 by decide
  have hindex : UInt32.ofNat (8 * [s].length) / 8 - 1 = 0 := show UInt32.ofNat (8 * 1) / 8 - 1 = 0 by decide
  have hframe : Ring.copyIn c.ctlSetup 0 [s] 0 = s := rfl
  have hrun : setupDone subscribers descs [s] c = processSetupData subscribers descs s
      { c with epOut := none, ctlSetup := Ring.copyIn c.ctlSetup 0 [s], ctlIndex := 0 } := by
    rw [setupDone, hc.transfer]
    dsimp only [runCallback]
    unfold setupCallback processSetup
    rw [if_neg (by decide)]
    dsimp only
    rw [if_pos hpos, hindex]
    exact if_neg hdata
  intro c'
  have hc' : c' = _ := hrun
  rw [hc', processSetupData_out hdir]
  unfold notify
  dsimp only
  rw [if_pos hstatus, if_pos hc.pointer]
  unfold startDataOUTStage startOUTTransfer
  dsimp only [Option.none_or]
  rw [hptr]
  refine ⟨⟨hframe, rfl, rfl, Nat.zero_le _, ?_⟩, rfl, rfl, rfl⟩
  exact congrArg (fun n => some (Transfer.mk ptr (min ctrlepSize n) .dataOUT)) (UInt32.sub_zero _).symm

/-- What is wanted of the stage: the data in the memory that was supplied, and nothing else written; one more notification,
with the data; then the status stage, and no more packet awaited. -/
structure Received (subscribers : σ → ReqEvArg → σ × ReqEvArg) (descs : DescSet) (s : Setup) (ptr : Ptr)
    (ps : List (List UInt8)) (c : Core σ) : Prop where
  stored : (receiveAll subscribers descs ps (setupDone subscribers descs [s] c)).mem = store c.mem ptr ps.flatten
  notified : ∃ status, (receiveAll subscribers descs ps (setupDone subscribers descs [s] c)).notes =
    (setupDone subscribers descs [s] c).notes ++ [⟨s, status, ptr, s.length.toUInt32⟩]
  status : (receiveAll subscribers descs ps (setupDone subscribers descs [s] c)).epIn = some ⟨.null, 0, .statusIN⟩ ∧
    (receiveAll subscribers descs ps (setupDone subscribers descs [s] c)).epOut = none

/-- A host that sends `wLength` bytes to subscribers that supply memory for them. -/
structure Scenario (subscribers : σ → ReqEvArg → σ × ReqEvArg) (s : Setup) (ptr : Ptr) (ps : List (List UInt8))
    (c : Core σ) : Prop where
  listening : Listening c
  dirOut : s.dirIn = false
  data : s.length ≠ 0
  answer : (subscribers c.subs ⟨s, efatal, .null, 0⟩).2.status = eok
  buffer : (subscribers c.subs ⟨s, efatal, .null, 0⟩).2.ptr = ptr
  size : (subscribers c.subs ⟨s, efatal, .null, 0⟩).2.size = s.length.toUInt32
  notNull : ptr ≠ .null
  packets : Split 64 (fun k => 0 < k ∧ k ≤ 64) ps
  length : ps.flatten.length = s.length.toNat

variable {ps : List (List UInt8)}

/-- The stage of a scenario: the data are stored and nothing else is; the notification behind a short packet has no pointer;
behind a full packet there is none, and one more packet is awaited. -/
theorem Scenario.stage (h : Scenario subscribers s ptr ps c) :
    let c₁ := setupDone subscribers descs [s] c
    let c₂ := receiveAll subscribers descs ps c₁
    c₂.mem = store c.mem ptr ps.flatten ∧
      c₂.notes = c₁.notes ++ (if ps.flatten.length % 64 = 0 then [] else [⟨s, efatal, .null, 0⟩]) ∧
      (ps.flatten.length % 64 = 0 → c₂.epOut ≠ none) ∧
      (ps.flatten.length % 64 ≠ 0 → (subscribers c₁.subs ⟨s, efatal, .null, 0⟩).2.status = eok → c₁.epIn = none →
        c₂.epIn = some ⟨.null, 0, .statusIN⟩ ∧ c₂.epOut = none) := by
  obtain ⟨hstart, hsize, hmem, -⟩ := @receiving_start _ _ descs _ _ _ h.listening h.dirOut h.data h.answer h.buffer
  have hsum : 0 + ps.flatten.length = (setupDone subscribers descs [s] c).ctlSize.toNat := by
    rw [hsize, h.size, h.length, Nat.zero_add, UInt16.toNat_toUInt32]
  have hrun := @Receiving.run _ subscribers descs _ _ _ _ hstart h.dirOut h.data h.notNull _ h.packets hsum
  rw [hmem] at hrun
  exact hrun

/-- **The subscribers never get the data**: for no request does the notification behind its data have their pointer. -/
theorem not_received (h : Scenario subscribers s ptr ps c) : ¬ Received subscribers descs s ptr ps c := by
  intro hr
  obtain ⟨-, hnotes, -, -⟩ := @Scenario.stage _ subscribers descs _ _ _ _ h
  obtain ⟨status, hnote⟩ := hr.notified
  rw [hnotes] at hnote
  have hlast := List.append_cancel_left hnote
  split at hlast
  · exact List.cons_ne_nil _ _ hlast.symm
  · exact h.notNull (congrArg ReqEvArg.ptr (List.cons.inj hlast).1).symm

/-- A device that listens. -/
def listening : Core Unit := { idle with epOut := some ⟨⟨.ctlSetup, 0⟩, 24, .setup⟩ }

/-- A subscriber with a buffer of 64 bytes. -/
def buffer64 (_ : Unit) (a : ReqEvArg) : Unit × ReqEvArg := ((), { a with status := eok, ptr := ⟨.other 0, 0⟩, size := 64 })

/-- A request with one full packet. -/
theorem not_received_full :
    ¬ Received buffer64 usbDescriptors ⟨0x21, 0x30, 0, 0, 64⟩ ⟨.other 0, 0⟩ [List.replicate 64 7] listening :=
  not_received ⟨⟨rfl, rfl⟩, by decide, by decide, rfl, rfl, rfl, by decide, split_single (by decide), by decide⟩

/-- `SET_LINE_CODING` and its seven bytes: the virtual COM port is asked for memory a second time. -/
theorem not_received_lineCoding :
    ¬ Received requestCallback usbDescriptors ⟨0x21, 0x20, 0, 0, 7⟩ ⟨.le, 0⟩ [[0, 194, 1, 0, 0, 0, 8]] listening := by
  intro h
  obtain ⟨status, hnotes⟩ := h.notified
  have hsizes := (congrArg (List.map ReqEvArg.size) hnotes).trans List.map_append
  exact absurd (show _ = _ ++ [(7 : UInt32)] from hsizes) (by decide)

end YieldStm32.Usb.Core
