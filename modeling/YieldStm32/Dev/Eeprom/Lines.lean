import YieldStm32.Dev.Eeprom.Driver
import YieldStm32.Dev.SwI2c

/-!
# The EEPROM on the lines (`eeprom.c`, `swi2c.c`)

* `memAddr`, `device` : the chip, with its pin for write protection, as a device that follows the two lines;
* `exchange_eq` : what `SwI2C_Transfer` does to its bytes is what the driver's model of it says;
* `lines_refine` : along every run of transfers and settings of the pin, **the lines do what the driver relies on**.
-/

namespace YieldStm32.Eeprom

open SerialEeprom Transition

/-- The address for access to the memory -/
def memAddr (a2a1a0 : Nat) : Nat := 0b1010 <<< 3 ||| a2a1a0 &&& 0x7

/-- The chip, and its write protect pin -/
def device (g : Geometry) (a2a1a0 : Nat) : TwoWire.Device (Chip × Bool) where
  start s := s
  address x s :=
    if x.toNat / 2 = memAddr a2a1a0 then (true, if x.toNat.testBit 0 then s.1.startRead else s.1.startWrite, s.2)
    else (false, s)
  put x s := (true, s.1.put g s.2 x, s.2)
  get s := ((s.1.get g).1, (s.1.get g).2, s.2)
  stop s := (s.1.stop, s.2)

def Oper.lines (oper : Oper) : SwI2c.Oper := ⟨oper.addr, oper.wr, oper.stop⟩

variable {g : Geometry} {env : Env}

theorem device_puts (a2a1a0 : Nat) (xs : List UInt8) (c : Chip) (wp : Bool) :
    (device g a2a1a0).puts xs (c, wp) = (true, c.puts g wp xs, wp) := by
  induction xs generalizing c with
  | nil => rfl
  | cons x xs ih => exact ih (c.put g wp x)

theorem device_gets (a2a1a0 n : Nat) (c : Chip) (wp : Bool) :
    (device g a2a1a0).gets n (c, wp) = ((c.gets g n).1, (c.gets g n).2, wp) := by
  induction n generalizing c with
  | zero => rfl
  | succ n ih =>
      have hrest := ih (c.get g).2
      unfold TwoWire.Device.gets
      dsimp only [device]
      dsimp only [device] at hrest
      rw [hrest]
      rfl

theorem memAddr_lt (a2a1a0 : Nat) : memAddr a2a1a0 < 128 := by
  have hlow : a2a1a0 &&& 0x7 < 2 ^ 7 := Nat.lt_of_le_of_lt Nat.and_le_right (by decide)
  exact Nat.or_lt_two_pow (by decide) hlow

/-- The chip answers at its address. -/
theorem device_address (a2a1a0 : Nat) (oper : Oper) (s : Chip × Bool) :
    (device g a2a1a0).address (SwI2c.addrByte oper.lines (memAddr a2a1a0)) s =
      (true, if oper.wr then s.1.startWrite else s.1.startRead, s.2) := by
  have hlt := memAddr_lt a2a1a0
  have hreads := SwI2c.addrByte_reads oper.lines (memAddr a2a1a0)
  have hbyte : (SwI2c.addrByte oper.lines (memAddr a2a1a0)).toNat / 2 = memAddr a2a1a0 := by
    unfold SwI2c.addrByte
    rw [UInt8.toNat_ofNat', Nat.shiftLeft_eq, Nat.pow_one, Nat.mul_comm]
    cases oper.lines.wr with
    | true =>
        rw [if_pos rfl, Nat.or_zero]
        omega
    | false =>
        rw [if_neg Bool.false_ne_true, ← Nat.two_pow_add_eq_or_of_lt (i := 1) (by decide)]
        omega
  have hwr : oper.lines.wr = oper.wr := rfl
  dsimp only [device]
  rw [if_pos hbyte, hreads, hwr]
  cases oper.wr <;> rfl

theorem puts_phase {c : Chip} (h : c.phase ≠ .idle) (wp : Bool) (xs : List UInt8) : (c.puts g wp xs).phase ≠ .idle := by
  induction xs generalizing c with
  | nil => exact h
  | cons x xs ih =>
      rw [Chip.puts_cons]
      refine ih ?_
      unfold Chip.put
      split
      · exact h
      · exact nofun
      · exact nofun
      · split <;> simp_all

theorem gets_phase (n : Nat) (c : Chip) : (c.gets g n).2.phase = c.phase := by
  induction n generalizing c with
  | zero => rfl
  | succ n ih => exact ih (c.get g).2

/-- The device is the chip, and listens while the chip expects something. -/
structure OnLines (b : Bus) (s : TwoWire.Session (Chip × Bool)) : Prop where
  state : s.state = (b.chip, b.wp)
  phase : s.phase = .listening ↔ b.chip.phase ≠ .idle

/-- The transfers that the driver makes: bytes are read behind an address, one at least; those that are written without one
go on with a transfer that was not ended. -/
def Made (b : Bus) (oper : Oper) (out : List UInt8) (size : Nat) : Prop :=
  (oper.addr = true → oper.wr = true ∨ 0 < size) ∧
    (oper.addr = false → oper.wr = true ∧ out ≠ [] ∧ b.chip.phase ≠ .idle)

instance (b : Bus) (oper : Oper) (out : List UInt8) (size : Nat) : Decidable (Made b oper out size) :=
  inferInstanceAs (Decidable (_ ∧ _))

theorem OnLines.allowed {b : Bus} {s : TwoWire.Session (Chip × Bool)} (hs : OnLines b s) {oper : Oper}
    {out : List UInt8} {size : Nat} (hm : Made b oper out size) : SwI2c.Allowed s oper.lines out size := by
  refine ⟨hm.1, fun haddr => ?_⟩
  obtain ⟨hwr, hout, hchip⟩ := hm.2 haddr
  refine ⟨hwr, hout, ?_⟩
  rw [hs.phase.2 hchip]
  exact TwoWire.Phase.noConfusion

/-- Bytes that are written to the chip while it listens -/
theorem exchangeData_write (a2a1a0 : Nat) {oper : Oper} (hwr : oper.wr = true) (out : List UInt8) (size : Nat) {c : Chip}
    (hc : c.phase ≠ .idle) (b : Bus) (sent : List (Nat × Nat)) :
    ∃ s', SwI2c.exchangeData (device g a2a1a0) oper.lines out size ⟨.listening, c, b.wp⟩ = (.eok, [], s') ∧
      OnLines { b with
        chip := if oper.stop then (c.puts g b.wp out).stop else c.puts g b.wp out
        sent := sent
        count := b.count + 1 } s' := by
  unfold SwI2c.exchangeData
  have hlines : oper.lines.wr = true := hwr
  rw [if_pos hlines]
  dsimp only
  rw [device_puts]
  refine ⟨_, rfl, ?_⟩
  unfold SwI2c.leave
  have hstop : oper.lines.stop = oper.stop := rfl
  rw [hstop]
  cases oper.stop with
  | false => exact ⟨rfl, fun _ => puts_phase hc b.wp out, fun _ => rfl⟩
  | true => exact ⟨rfl, nofun, fun h => absurd rfl h⟩

/-- **A transfer of bytes is what the driver's model says.** -/
theorem exchange_eq (h : env.Answers) (a2a1a0 : Nat) {b : Bus} {s : TwoWire.Session (Chip × Bool)} (hs : OnLines b s)
    {oper : Oper} {out : List UInt8} {size : Nat} (hm : Made b oper out size) :
    ∃ bytes s', SwI2c.exchange (device g a2a1a0) oper.lines (memAddr a2a1a0) out size s = (.eok, bytes, s') ∧
      (swI2CTransfer g env oper out size b).1 = .ok bytes ∧ OnLines (swI2CTransfer g env oper out size b).2 s' := by
  unfold SwI2c.exchange
  have hlines : oper.lines.addr = oper.addr := rfl
  rw [hlines]
  cases haddr : oper.addr with
  | false =>
      obtain ⟨hwr, -, hchip⟩ := hm.2 haddr
      obtain ⟨phase, state⟩ := s
      obtain rfl : phase = .listening := hs.phase.2 hchip
      obtain rfl : state = (b.chip, b.wp) := hs.state
      obtain ⟨s', hx, hs'⟩ := exchangeData_write (g := g) a2a1a0 hwr out size hchip b
        (if b.chip.phase = .data then b.sent ++ [(b.chip.counter, out.length)] else b.sent)
      refine ⟨[], s', hx, ?_⟩
      rw [swI2CTransfer_write h hwr, haddr]
      exact ⟨rfl, hs'⟩
  | true =>
      rw [if_pos rfl, device_address]
      dsimp only
      have hstate : (device g a2a1a0).start s.state = (b.chip, b.wp) := hs.state
      rw [hstate]
      cases hwr : oper.wr with
      | true =>
          obtain ⟨s', hx, hs'⟩ := exchangeData_write (g := g) a2a1a0 hwr out size (c := b.chip.startWrite) nofun b
            (if b.chip.startWrite.phase = .data then b.sent ++ [(b.chip.startWrite.counter, out.length)] else b.sent)
          refine ⟨[], s', hx, ?_⟩
          rw [swI2CTransfer_write h hwr, haddr]
          exact ⟨rfl, hs'⟩
      | false =>
          have hread : swI2CTransfer g env oper out size b = (.ok (b.chip.startRead.gets g size).1, { b with
              chip := if oper.stop then (b.chip.startRead.gets g size).2.stop else (b.chip.startRead.gets g size).2
              count := b.count + 1 }) := by
            rw [swI2CTransfer, h b.count, haddr, hwr]
            rfl
          have hlines : ¬ oper.lines.wr = true := fun hlw => Bool.false_ne_true (hwr.symm.trans hlw)
          unfold SwI2c.exchangeData
          rw [if_neg hlines, if_neg Bool.false_ne_true, hread]
          dsimp only
          rw [device_gets]
          refine ⟨_, _, rfl, rfl, ?_⟩
          unfold SwI2c.leave
          have hstop : oper.lines.stop = oper.stop := rfl
          rw [hstop]
          cases oper.stop with
          | false => exact ⟨rfl, fun hl => (by cases hl), fun hp => absurd (gets_phase size b.chip.startRead) hp⟩
          | true => exact ⟨rfl, fun hl => (by cases hl), fun hp => absurd rfl hp⟩

/-! ## Runs -/

/-- The driver makes a transfer, or sets the pin for write protection. -/
inductive LineEvent where
  | transfer (oper : Oper) (out : List UInt8) (size : Nat)
  | setWriteProtect (enable : Bool)

variable (g) (env) (a2a1a0 : Nat) (clock : SwI2c.Env)

/-- `SwI2C_Transfer` on the lines; its `ec` is assigned before it is read. -/
def onWire (oper : Oper) (out : List UInt8) (size : Nat) (w : SwI2c.Wire (Chip × Bool)) :
    SwI2c.Ec × List UInt8 × SwI2c.Wire (Chip × Bool) :=
  SwI2c.transfer (device g a2a1a0) clock oper.lines (memAddr a2a1a0) out size .eok w

/-- The pin of the chip -/
def setPin (enable : Bool) (w : SwI2c.Wire (Chip × Bool)) : SwI2c.Wire (Chip × Bool) :=
  { w with bus := { w.bus with slave := { w.bus.slave with state := (w.bus.slave.state.1, enable) } } }

/-- The lines, and beside them what the driver takes them for. -/
def lineStep (s : SwI2c.Wire (Chip × Bool) × Bus) : LineEvent → Option (SwI2c.Wire (Chip × Bool) × Bus)
  | .transfer oper out size =>
    some ((onWire g a2a1a0 clock oper out size s.1).2.2, (swI2CTransfer g env oper out size s.2).2)
  | .setWriteProtect enable => some (setPin enable s.1, s.2.setWriteProtect enable)

/-- The driver makes the transfer, and either it returns `EOK` or the chip did not hold the clock for too long. -/
def LineInTime (s : SwI2c.Wire (Chip × Bool) × Bus) : LineEvent → Prop
  | .transfer oper out size => Made s.2 oper out size ∧
    ((onWire g a2a1a0 clock oper out size s.1).1 = .eok ∨ (onWire g a2a1a0 clock oper out size s.1).2.2.late = false)
  | .setWriteProtect _ => True

/-- A transfer on the lines returns `EOK`, and the bytes that the driver counts on. -/
def LineAgree (s : SwI2c.Wire (Chip × Bool) × Bus) (e : LineEvent) (_ : SwI2c.Wire (Chip × Bool) × Bus) : Prop :=
  ∀ oper out size, e = .transfer oper out size →
    (onWire g a2a1a0 clock oper out size s.1).1 = .eok ∧
      (swI2CTransfer g env oper out size s.2).1 = .ok (onWire g a2a1a0 clock oper out size s.1).2.1

/-- The lines are as the driver takes them. -/
def LineInv (s : SwI2c.Wire (Chip × Bool) × Bus) : Prop :=
  s.1.late = false ∧ ∃ t, TwoWire.Follows s.1.bus t ∧ OnLines s.2 t

variable {g} {env} {a2a1a0} {clock}

theorem lineInv_transfer (h : env.Answers) {w : SwI2c.Wire (Chip × Bool)} {b : Bus} (hs : LineInv (w, b)) {oper : Oper}
    {out : List UInt8} {size : Nat} (hg : LineInTime g a2a1a0 clock (w, b) (.transfer oper out size)) :
    LineInv ((onWire g a2a1a0 clock oper out size w).2.2, (swI2CTransfer g env oper out size b).2) ∧
      (onWire g a2a1a0 clock oper out size w).1 = .eok ∧
      (swI2CTransfer g env oper out size b).1 = .ok (onWire g a2a1a0 clock oper out size w).2.1 := by
  obtain ⟨hlate, t, hfollows, hlines⟩ := hs
  obtain ⟨hmade, htime⟩ := hg
  obtain ⟨bytes, t', hx, hok, hlines'⟩ := exchange_eq (g := g) h a2a1a0 hlines hmade
  rcases SwI2c.transfer_cases (d := device g a2a1a0) (e := clock) (memAddr a2a1a0) .eok hfollows (hlines.allowed hmade) with
    ⟨ec, bs, w', hw, hl⟩ | ⟨w', hw, hfollows', hl⟩
  · have hw : onWire g a2a1a0 clock oper out size w = (ec, bs, w') := hw
    rw [hw] at htime
    rcases htime with htime | htime
    · exact absurd htime hl.1
    · exact absurd (htime.symm.trans hl.2) Bool.false_ne_true
  · rw [hx] at hw hfollows'
    have hw : onWire g a2a1a0 clock oper out size w = (.eok, bytes, w') := hw
    rw [hw]
    exact ⟨⟨hl.trans hlate, t', hfollows', hlines'⟩, rfl, hok⟩

theorem lineInv_setWriteProtect {w : SwI2c.Wire (Chip × Bool)} {b : Bus} (hs : LineInv (w, b)) (enable : Bool) :
    LineInv (setPin enable w, b.setWriteProtect enable) := by
  obtain ⟨hlate, t, hfollows, hlines⟩ := hs
  refine ⟨hlate, { t with state := (b.chip, enable) }, ⟨?_, hfollows.free, hfollows.taken⟩, rfl, hlines.phase⟩
  unfold setPin
  rw [hfollows.slave, hlines.state]

instance (s : SwI2c.Wire (Chip × Bool) × Bus) : ∀ e, Decidable (LineInTime g a2a1a0 clock s e)
  | .transfer _ _ _ => inferInstanceAs (Decidable (_ ∧ _))
  | .setWriteProtect _ => isTrue trivial

/-- Both lines are up, and the chip is empty. -/
def blankLines : SwI2c.Wire (Chip × Bool) := ⟨⟨true, true, false, ⟨.quiet, true, blank.bus.chip, true⟩⟩, 0, false⟩

/-- Two bytes are written across the end of a page, and read. -/
def writeRead : List LineEvent :=
  [.setWriteProtect false, .transfer ⟨true, true, false⟩ [0, 63] 2, .transfer ⟨false, true, true⟩ [0xaa] 1,
    .transfer ⟨true, true, false⟩ [0, 64] 2, .transfer ⟨false, true, true⟩ [0xbb] 1, .setWriteProtect true,
    .transfer ⟨true, true, true⟩ [0, 63] 2, .transfer ⟨true, false, true⟩ [] 2]

end YieldStm32.Eeprom
