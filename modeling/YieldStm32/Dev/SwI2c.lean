import YieldStm32.Lib.Run
import YieldStm32.Lib.TwoWire

/-!
# The software I²C controller (`dev/src/swi2c.c`)

* `Wire` : the two lines with a device on them; `Env` is what the device does with the clock;
* `wSda`, `wScl`, `rSda`, `rScl`, `clockStrech` : what the functions of the source do with the lines;
* `start`, `stop`, `writeByte`, `readByte`, `transfer` : these functions;
* `exchange` : a transfer of bytes, `Allowed` where the source can be asked for it;
* `transfer_exact` : a transfer over the lines that returns `EOK` is a transfer of bytes;
* `transfers_exact` : so are all transfers of a run, unless the device holds the clock for too long.

The pauses between two edges, and the `Yield()` at the end of a transfer, do nothing to the lines.
-/

namespace YieldStm32.SwI2c

open Transition TwoWire

/-- The codes of `err.h` that are returned here -/
inductive Ec where
  | eok
  | arbLost
  | busTimeout
  | nack
  | start
  | addr
  | stop
deriving DecidableEq, Repr

/-- `swi2c_oper_t` -/
structure Oper where
  addr : Bool
  wr : Bool
  stop : Bool
deriving DecidableEq, Repr

/-- What the device does with the clock: it holds it down from the `i`-th edge on, and lets it go in time before the next. -/
structure Env where
  holds : Nat → Bool
  letsGo : Nat → Bool

/-- The lines, how often the clock went down, and whether it was held for too long. -/
structure Wire (σ : Type*) where
  bus : Bus σ
  edges : Nat := 0
  late : Bool := false

variable {σ : Type*} (d : Device σ) (e : Env)

/-- `W_SDA` -/
def wSda (x : Bool) (w : Wire σ) : Wire σ := { w with bus := w.bus.setSda d x }

/-- `W_SCL` -/
def wScl (x : Bool) (w : Wire σ) : Wire σ :=
  if x then { w with bus := w.bus.raise }
  else { w with bus := w.bus.lower d (e.holds w.edges), edges := w.edges + 1 }

/-- `R_SDA` -/
def rSda (w : Wire σ) : Bool := w.bus.data

/-- `R_SCL` -/
def rScl (w : Wire σ) : Bool := w.bus.clock

/-- `SwI2C_ClockStrech`, and whether it returned `EOK` -/
def clockStrech (w : Wire σ) : Bool × Wire σ :=
  -- clock already released
  if rScl w then (true, w)
  else
    let w := if e.letsGo w.edges then { w with bus := w.bus.letGo } else w
    if rScl w then (true, w) else (false, { w with late := true })

/-- `SwI2C_Start` -/
def start (w : Wire σ) : Ec × Wire σ :=
  match clockStrech e (wScl d e true (wSda d true w)) with
  | (false, w) => (.arbLost, w)
  | (true, w) => (.eok, wScl d e false (wSda d false w))

/-- `SwI2C_Stop` -/
def stop (w : Wire σ) : Ec × Wire σ :=
  match clockStrech e (wScl d e true (wSda d false w)) with
  | (false, w) => (.arbLost, wSda d true w)
  | (true, w) =>
    let w := wSda d true w
    (if rSda w = false then .arbLost else .eok, w)

/-- The loop of `SwI2C_WriteByte`, with the passes that are left -/
def writeBits : Nat → UInt8 → Wire σ → Ec × Wire σ
  | 0, _, w => (.eok, w)
  | n + 1, byte, w =>
    let bitVal := decide (byte &&& 0x80 ≠ 0)
    match clockStrech e (wScl d e true (wSda d bitVal w)) with
    | (false, w) => (.busTimeout, wSda d true w)
    | (true, w) =>
      if bitVal ≠ rSda w then (.arbLost, wSda d true w) else writeBits n (byte <<< 1) (wScl d e false w)

/-- `SwI2C_WriteByte` -/
def writeByte (byte : UInt8) (w : Wire σ) : Ec × Wire σ :=
  match writeBits d e 8 byte w with
  | (.eok, w) =>
    match clockStrech e (wScl d e true (wSda d true w)) with
    | (false, w) => (.busTimeout, w)
    | (true, w) => (if rSda w = false then .eok else .nack, wScl d e false w)
  | (ec, w) => (ec, w)

/-- The loop of `SwI2C_ReadByte`, with the passes that are left -/
def readBits : Nat → Nat → Wire σ → Ec × Nat × Wire σ
  | 0, b, w => (.eok, b, w)
  | n + 1, b, w =>
    match clockStrech e (wScl d e true w) with
    | (false, w) => (.busTimeout, b, w)
    | (true, w) => readBits n (b <<< 1 ||| (rSda w).toNat) (wScl d e false w)

/-- `SwI2C_ReadByte`, with the byte if there is one -/
def readByte (ack : Bool) (w : Wire σ) : Ec × List UInt8 × Wire σ :=
  match readBits d e 8 0 (wSda d true w) with
  | (.eok, b, w) =>
    match clockStrech e (wScl d e true (wSda d (!ack) w)) with
    | (false, w) => (.busTimeout, [], w)
    | (true, w) => (.eok, [UInt8.ofNat b], wScl d e false w)
  | (ec, _, w) => (ec, [], w)

/-- The loop of `SwI2C_Transfer` that writes: `.error` where it goes to `end`, else the value of `ec` behind it -/
def writeAll : List UInt8 → Ec → Wire σ → Except Ec Ec × Wire σ
  | [], ec, w => (.ok ec, w)
  | x :: xs, _, w =>
    match writeByte d e x w with
    | (.eok, w) => writeAll xs .eok w
    | (ec, w) => (.error ec, w)

/-- The loop that reads, with the number of bytes that are left -/
def readAll : Nat → Ec → Wire σ → Except Ec Ec × List UInt8 × Wire σ
  | 0, ec, w => (.ok ec, [], w)
  | n + 1, _, w =>
    -- `i < size - 1`
    match readByte d e (0 < n) w with
    | (.eok, bs, w) =>
      let r := readAll n .eok w
      (r.1, bs ++ r.2.1, r.2.2)
    | (ec, bs, w) => (.error ec, bs, w)

/-- The last phase of `SwI2C_Transfer` -/
def finish (oper : Oper) (ec : Ec) (w : Wire σ) : Ec × Wire σ :=
  if oper.stop then
    match stop d e w with
    | (.eok, w) => (ec, w)
    | (_, w) => (.stop, w)
  else (ec, w)

/-- `SwI2C_Transfer` behind the addressing phase -/
def transferData (oper : Oper) (out : List UInt8) (size : Nat) (ec : Ec) (w : Wire σ) : Ec × List UInt8 × Wire σ :=
  if oper.wr then
    match writeAll d e out ec w with
    | (.ok ec, w) => ((finish d e oper ec w).1, [], (finish d e oper ec w).2)
    | (.error ec, w) => (ec, [], w)
  else
    match readAll d e size ec w with
    | (.ok ec, bs, w) => ((finish d e oper ec w).1, bs, (finish d e oper ec w).2)
    | (.error ec, bs, w) => (ec, bs, w)

/-- The byte behind a start condition -/
def addrByte (oper : Oper) (addr : Nat) : UInt8 := UInt8.ofNat (addr <<< 1 ||| if oper.wr then 0 else 1)

/-- `SwI2C_Transfer` of the bytes `out`, or of `size` bytes that are read; `ec` is what its local variable holds before
it is assigned. -/
def transfer (oper : Oper) (addr : Nat) (out : List UInt8) (size : Nat) (ec : Ec) (w : Wire σ) :
    Ec × List UInt8 × Wire σ :=
  if oper.addr then
    match start d e w with
    | (.eok, w) =>
      match writeByte d e (addrByte oper addr) w with
      | (.eok, w) => transferData d e oper out size .eok w
      -- this is needed to ensure compatibility with smbus
      | (_, w) => (.addr, [], (stop d e (writeByte d e 0 w).2).2)
    | (_, w) => (.start, [], w)
  else transferData d e oper out size ec w

/-! ## Transfers of bytes -/

/-- The end of a transfer, with a stop condition or without one -/
def leave (oper : Oper) (phase : Phase) (s : σ) : Session σ := if oper.stop then ⟨.idle, d.stop s⟩ else ⟨phase, s⟩

/-- A transfer behind the addressing phase -/
def exchangeData (oper : Oper) (out : List UInt8) (size : Nat) (s : Session σ) : Ec × List UInt8 × Session σ :=
  if oper.wr then
    match s.phase, d.puts out s.state with
    | .listening, (true, t) => (.eok, [], leave d oper .listening t)
    | .listening, (false, t) => (.nack, [], ⟨.quiet, t⟩)
    | _, _ => (.nack, [], s)
  else (.eok, (d.gets size s.state).1, leave d oper .quiet (d.gets size s.state).2)

/-- A transfer of bytes: what it returns, the bytes that are read, and what becomes of the device. -/
def exchange (oper : Oper) (addr : Nat) (out : List UInt8) (size : Nat) (s : Session σ) : Ec × List UInt8 × Session σ :=
  if oper.addr then
    match d.address (addrByte oper addr) (d.start s.state) with
    | (true, t) => exchangeData d oper out size ⟨.listening, t⟩
    | (false, t) => (.addr, [], ⟨.idle, d.stop t⟩)
  else exchangeData d oper out size s

/-- What the controller can be asked for: bytes are read behind an address, one at least; without an address some are
written, to a bus that was not let go. -/
def Allowed (s : Session σ) (oper : Oper) (out : List UInt8) (size : Nat) : Prop :=
  (oper.addr = true → oper.wr = true ∨ 0 < size) ∧ (oper.addr = false → oper.wr = true ∧ out ≠ [] ∧ s.phase ≠ .idle)

instance (s : Session σ) (oper : Oper) (out : List UInt8) (size : Nat) : Decidable (Allowed s oper out size) :=
  inferInstanceAs (Decidable (_ ∧ _))

section

variable {d e} {w : Wire σ}

/-! ## The lines -/

/-- The clock was held for too long, and the controller returns an error. -/
def Late (ec : Ec) (w : Wire σ) : Prop := ec ≠ .eok ∧ w.late = true

/-- The clock went up. -/
structure Up (w w' : Wire σ) : Prop where
  scl : w'.bus.scl = true
  held : w'.bus.held = false
  sda : w'.bus.sda = w.bus.sda
  slave : w'.bus.slave = w.bus.slave.rise w.bus.data
  late : w'.late = w.late

/-- The clock is low, and the slave is as it says. -/
structure Down (w : Wire σ) (slave : Slave σ) (w' : Wire σ) : Prop where
  scl : w'.bus.scl = false
  slave : w'.bus.slave = slave
  late : w'.late = w.late

theorem Down.trans {w' w'' : Wire σ} {slave slave' : Slave σ} (h : Down w slave w') (h' : Down w' slave' w'') :
    Down w slave' w'' := ⟨h'.scl, h'.slave, h'.late.trans h.late⟩

theorem rise_sda (line : Bool) (s : Slave σ) : (s.rise line).sda = s.sda ∧ (s.rise line).state = s.state := by
  unfold Slave.rise
  split <;> exact ⟨rfl, rfl⟩

/-- The clock goes up, unless the device holds it for too long. -/
theorem release_cases (h : w.bus.scl = false) :
    (∃ w', clockStrech e (wScl d e true w) = (false, w') ∧ w'.late = true) ∨
      ∃ w', clockStrech e (wScl d e true w) = (true, w') ∧ Up w w' := by
  obtain ⟨hfree, hheld⟩ := Bus.raise_of_low h
  unfold wScl
  rw [if_pos rfl]
  cases hh : w.bus.held with
  | false =>
      right
      refine ⟨{ w with bus := { w.bus with scl := true, slave := w.bus.slave.rise w.bus.data } },
        ?_, rfl, hh, rfl, rfl, rfl⟩
      rw [hfree hh]
      unfold clockStrech rScl
      rw [if_pos (by simp [Bus.clock, hh])]
  | true =>
      rw [hheld hh]
      unfold clockStrech rScl
      rw [if_neg (by simp [Bus.clock, hh])]
      cases hlet : e.letsGo w.edges with
      | false =>
          left
          simp [Bus.clock, hh]
      | true =>
          right
          refine ⟨{ w with bus := { w.bus with scl := true, held := false, slave := w.bus.slave.rise w.bus.data } },
            ?_, rfl, rfl, rfl, rfl, rfl⟩
          simp [Bus.clock, hh, Bus.letGo, Bus.data]

theorem Up.rSda {w' : Wire σ} (h : Up w w') : rSda w' = w.bus.data := by
  rw [SwI2c.rSda, Bus.data, h.sda, h.slave, (rise_sda ..).1, Bus.data]

/-- The clock goes down. -/
theorem lower_down (hscl : w.bus.scl = true) (hheld : w.bus.held = false) :
    Down w (w.bus.slave.fall d) (wScl d e false w) := by
  unfold wScl
  rw [if_neg Bool.false_ne_true, Bus.lower_of_high hscl hheld]
  exact ⟨rfl, rfl, rfl⟩

theorem Up.lower {w' : Wire σ} (h : Up w w') : Down w ((w.bus.slave.rise w.bus.data).fall d) (wScl d e false w') := by
  have hdown := lower_down (d := d) (e := e) h.scl h.held
  exact ⟨hdown.scl, hdown.slave.trans (congrArg (Slave.fall d) h.slave), hdown.late.trans h.late⟩

theorem Up.lower_sda {w' : Wire σ} (h : Up w w') : (wScl d e false w').bus.sda = w.bus.sda := by
  unfold wScl
  rw [if_neg Bool.false_ne_true]
  exact h.sda

theorem wSda_low (h : w.bus.scl = false) (x : Bool) : wSda d x w = { w with bus := { w.bus with sda := x } } := by
  rw [wSda, Bus.setSda_of_low h]

/-- The data line is set while the clock is low, then the clock goes up. -/
theorem set_release_cases (h : w.bus.scl = false) (x : Bool) :
    (∃ w', clockStrech e (wScl d e true (wSda d x w)) = (false, w') ∧ w'.late = true) ∨
      ∃ w', clockStrech e (wScl d e true (wSda d x w)) = (true, w') ∧
        Up { w with bus := { w.bus with sda := x } } w' := by
  rw [wSda_low h]
  exact release_cases h

/-! ## A clock that was held before -/

theorem wScl_late (x : Bool) : (wScl d e x w).late = w.late := by
  unfold wScl
  split <;> rfl

theorem clockStrech_late (h : w.late = true) : (clockStrech e w).2.late = true := by
  unfold clockStrech
  split
  · exact h
  · dsimp only
    split
    · split
      · exact h
      · rfl
    · rfl

theorem release_late (h : w.late = true) {x ok : Bool} {w' : Wire σ}
    (hw : clockStrech e (wScl d e true (wSda d x w)) = (ok, w')) : w'.late = true := by
  have hwait := clockStrech_late (e := e) ((wScl_late (d := d) (e := e) (w := wSda d x w) true).trans h)
  rw [hw] at hwait
  exact hwait

theorem stop_late (h : w.late = true) : (stop d e w).2.late = true := by
  rw [stop]
  rcases hw : clockStrech e (wScl d e true (wSda d false w)) with ⟨_ | _, w'⟩
  all_goals
    have hlate := release_late h hw
    exact hlate

theorem writeBits_late (n : Nat) (byte : UInt8) {w : Wire σ} (h : w.late = true) :
    (writeBits d e n byte w).2.late = true := by
  induction n generalizing byte w with
  | zero => exact h
  | succ n ih =>
      rw [writeBits]
      rcases hw : clockStrech e (wScl d e true (wSda d (decide (byte &&& 0x80 ≠ 0)) w)) with ⟨ok, w'⟩
      have hlate := release_late h hw
      cases ok with
      | false => exact hlate
      | true =>
          dsimp only
          split
          · exact hlate
          · exact ih _ ((wScl_late false).trans hlate)

theorem writeByte_late (byte : UInt8) (h : w.late = true) : (writeByte d e byte w).2.late = true := by
  have hbits := writeBits_late (d := d) (e := e) 8 byte h
  rw [writeByte]
  rcases hw : writeBits d e 8 byte w with ⟨ec, w'⟩
  rw [hw] at hbits
  cases ec with
  | eok =>
      dsimp only
      rcases hw' : clockStrech e (wScl d e true (wSda d true w')) with ⟨_ | _, w''⟩
      · exact release_late hbits hw'
      · exact (wScl_late false).trans (release_late hbits hw')
  | _ => exact hbits

/-! ## A byte to the device -/

theorem high_bit (b : UInt8) : decide (b &&& 0x80 ≠ 0) = decide (128 ≤ b.toNat) := by
  have hbits : ∀ n < 256, (UInt8.ofNat n &&& 0x80 ≠ 0 ↔ 128 ≤ n) := by decide +kernel
  have hb := hbits b.toNat b.toNat_lt
  rw [UInt8.ofNat_toNat] at hb
  exact decide_eq_decide.2 hb

/-- A pass of the loop, while the slave lets the data line go. -/
theorem writeBits_pass (hscl : w.bus.scl = false) (hsda : w.bus.slave.sda = true) (n : Nat) (byte : UInt8) :
    (∃ ec w', writeBits d e (n + 1) byte w = (ec, w') ∧ Late ec w') ∨
      ∃ w', writeBits d e (n + 1) byte w = writeBits d e n (byte <<< 1) w' ∧
        Down w ((w.bus.slave.rise (decide (128 ≤ byte.toNat))).fall d) w' := by
  rw [writeBits, high_bit]
  rcases set_release_cases (d := d) (e := e) hscl (decide (128 ≤ byte.toNat)) with ⟨w', hw', hlate⟩ | ⟨w', hw', hup⟩
  · left
    rw [hw']
    exact ⟨_, _, rfl, Ec.noConfusion, hlate⟩
  · right
    have hdata : rSda w' = decide (128 ≤ byte.toNat) := by
      rw [hup.rSda, Bus.data]
      simp [hsda]
    have hdown := hup.lower (d := d) (e := e)
    rw [← hup.rSda, hdata] at hdown
    rw [hw']
    dsimp only
    rw [if_neg (by simp [hdata])]
    exact ⟨_, rfl, hdown.scl, hdown.slave, hdown.late⟩

/-- The first bits are there, the others are shifted out, up to the last. -/
theorem writeBits_listen {x : UInt8} {isAddress : Bool} {t : σ} (n : Nat) (hn : n < 8) {byte : UInt8} {w : Wire σ}
    (hscl : w.bus.scl = false) (hslave : w.bus.slave = ⟨.listen isAddress (7 - n) (x.toNat / 2 ^ (n + 1)), true, t⟩)
    (hbyte : byte.toNat = x.toNat * 2 ^ (7 - n) % 256) :
    (∃ ec w', writeBits d e (n + 1) byte w = (ec, w') ∧ Late ec w') ∨
      ∃ w', writeBits d e (n + 1) byte w = (.eok, w') ∧ Down w (.take d isAddress x t) w' := by
  induction n generalizing byte w with
  | zero =>
      rcases writeBits_pass (e := e) (d := d) hscl (by rw [hslave]) 0 byte with hlate | ⟨w', hw, h⟩
      · exact Or.inl hlate
      · refine Or.inr ⟨w', hw, h.scl, h.slave.trans ?_, h.late⟩
        rw [hslave, hbyte, ← shift_out x.toNat hn]
        show Slave.take d isAddress (UInt8.ofNat _) t = _
        rw [shift_in, Nat.pow_zero, Nat.div_one, UInt8.ofNat_toNat]
  | succ n ih =>
      rcases writeBits_pass (e := e) (d := d) hscl (by rw [hslave]) (n + 1) byte with hlate | ⟨w', hw, h⟩
      · exact Or.inl hlate
      · have hshift : (byte <<< 1).toNat = x.toNat * 2 ^ (7 - n) % 256 := by
          have hpow : 2 ^ (7 - n) = 2 ^ (7 - (n + 1)) * 2 := by
            rw [← Nat.pow_succ]
            congr 1
            omega
          have hone : (1 : UInt8).toNat % 8 = 1 := rfl
          rw [UInt8.toNat_shiftLeft, hone, Nat.shiftLeft_eq, Nat.pow_one, hbyte, hpow, ← Nat.mul_assoc]
          omega
        have hnext : w'.bus.slave = ⟨.listen isAddress (7 - n) (x.toNat / 2 ^ (n + 1)), true, t⟩ := by
          rw [h.slave, hslave, hbyte, ← shift_out x.toNat hn]
          have hcount : 7 - (n + 1) + 1 = 7 - n := by omega
          have hlt : 7 - (n + 1) + 1 ≠ 8 := by omega
          rw [Slave.rise]
          dsimp only
          rw [Slave.fall]
          dsimp only
          rw [if_neg hlt, shift_in, hcount]
        rw [hw]
        rcases ih (Nat.lt_of_succ_lt hn) h.scl hnext hshift with hlate | ⟨w'', hw', h'⟩
        · exact Or.inl hlate
        · exact Or.inr ⟨w'', hw', h.trans h'⟩

/-- The slave that nobody talks to stays quiet. -/
theorem writeBits_quiet {t : σ} (n : Nat) (byte : UInt8) {w : Wire σ} (hscl : w.bus.scl = false)
    (hslave : w.bus.slave = ⟨.quiet, true, t⟩) :
    (∃ ec w', writeBits d e n byte w = (ec, w') ∧ Late ec w') ∨
      ∃ w', writeBits d e n byte w = (.eok, w') ∧ Down w ⟨.quiet, true, t⟩ w' := by
  induction n generalizing byte w with
  | zero => exact Or.inr ⟨w, rfl, hscl, hslave, rfl⟩
  | succ n ih =>
      rcases writeBits_pass (e := e) (d := d) hscl (by rw [hslave]) n byte with hlate | ⟨w', hw, h⟩
      · exact Or.inl hlate
      · rw [hw]
        rcases ih (byte <<< 1) h.scl (by rw [h.slave, hslave]; rfl) with hlate | ⟨w'', hw', h'⟩
        · exact Or.inl hlate
        · exact Or.inr ⟨w'', hw', h.trans h'⟩

/-- The clock for the acknowledgement -/
theorem writeByte_of_bits {x : UInt8} {slave : Slave σ}
    (hbits : (∃ ec w', writeBits d e 8 x w = (ec, w') ∧ Late ec w') ∨
      ∃ w', writeBits d e 8 x w = (.eok, w') ∧ Down w slave w') (hmode : ∀ line, slave.rise line = slave) :
    (∃ ec w', writeByte d e x w = (ec, w') ∧ Late ec w') ∨
      ∃ w', writeByte d e x w = (if slave.sda then .nack else .eok, w') ∧ Down w (slave.fall d) w' := by
  unfold writeByte
  rcases hbits with ⟨ec, w', hw, hlate⟩ | ⟨w₁, hw, h⟩
  · left
    rw [hw]
    cases ec with
    | eok => exact absurd rfl hlate.1
    | _ => exact ⟨_, _, rfl, hlate⟩
  · rw [hw]
    dsimp only
    rcases set_release_cases (d := d) (e := e) h.scl true with ⟨w', hw', hlate⟩ | ⟨w', hw', hup⟩
    · left
      rw [hw']
      exact ⟨_, _, rfl, Ec.noConfusion, hlate⟩
    · right
      have hdata : rSda w' = slave.sda := by
        rw [hup.rSda, Bus.data, h.slave, Bool.true_and]
      have hdown := hup.lower (d := d) (e := e)
      rw [hw']
      refine ⟨_, ?_, hdown.scl, hdown.slave.trans ?_, hdown.late.trans h.late⟩
      · dsimp only
        rw [hdata]
        cases slave.sda <;> rfl
      · dsimp only
        rw [h.slave, hmode]

/-- What a device makes of a byte. -/
def taken (d : Device σ) (isAddress : Bool) (x : UInt8) (t : σ) : Bool × σ :=
  if isAddress then d.address x t else d.put x t

/-- A slave that has taken a byte, behind the acknowledgement -/
def behind (d : Device σ) (reads : Bool) (r : Bool × σ) : Slave σ :=
  if r.1 then if reads then .send d r.2 else ⟨.listen false 0 0, true, r.2⟩ else ⟨.quiet, true, r.2⟩

/-- **A byte that is written is taken**, and the controller is told whether it was acknowledged. -/
theorem writeByte_listen {isAddress : Bool} {t : σ} (x : UInt8) (hscl : w.bus.scl = false)
    (hslave : w.bus.slave = ⟨.listen isAddress 0 0, true, t⟩) :
    (∃ ec w', writeByte d e x w = (ec, w') ∧ Late ec w') ∨
      ∃ w', writeByte d e x w = (if (taken d isAddress x t).1 then .eok else .nack, w') ∧
        Down w (behind d (isAddress && x.toNat.testBit 0) (taken d isAddress x t)) w' := by
  have hx : x.toNat / 2 ^ (7 + 1) = 0 := Nat.div_eq_of_lt x.toNat_lt
  have hbyte : x.toNat = x.toNat * 2 ^ (7 - 7) % 256 := by
    rw [Nat.sub_self, Nat.pow_zero, Nat.mul_one, Nat.mod_eq_of_lt x.toNat_lt]
  have hbits := writeBits_listen (d := d) (e := e) (x := x) 7 (by decide) hscl (hslave.trans (by rw [hx])) hbyte
  have htake : Slave.take d isAddress x t =
      if (taken d isAddress x t).1 then ⟨.answer (isAddress && x.toNat.testBit 0), false, (taken d isAddress x t).2⟩
      else ⟨.quiet, true, (taken d isAddress x t).2⟩ := rfl
  have hack := writeByte_of_bits hbits fun line => by
    rw [htake]
    split <;> rfl
  rw [htake] at hack
  unfold behind
  generalize (isAddress && x.toNat.testBit 0) = reads at hack ⊢
  cases hr : (taken d isAddress x t).1 with
  | false => simpa [hr, Slave.fall] using hack
  | true => cases reads <;> simpa [hr, Slave.fall] using hack

/-- A byte that nobody takes is not acknowledged. -/
theorem writeByte_quiet {t : σ} (x : UInt8) (hscl : w.bus.scl = false) (hslave : w.bus.slave = ⟨.quiet, true, t⟩) :
    (∃ ec w', writeByte d e x w = (ec, w') ∧ Late ec w') ∨
      ∃ w', writeByte d e x w = (.nack, w') ∧ Down w ⟨.quiet, true, t⟩ w' :=
  writeByte_of_bits (writeBits_quiet 8 x hscl hslave) fun _ => rfl

/-- The slave of a bus in each phase -/
def between (r : Bool × σ) : Slave σ := ⟨if r.1 then .listen false 0 0 else .quiet, true, r.2⟩

/-- Bytes are written up to the first that is not acknowledged. -/
theorem writeAll_listen {t : σ} (xs : List UInt8) (ec : Ec) {w : Wire σ} (hscl : w.bus.scl = false)
    (hslave : w.bus.slave = ⟨.listen false 0 0, true, t⟩) :
    (∃ ec' w', writeAll d e xs ec w = (.error ec', w') ∧ Late ec' w') ∨
      ∃ w', writeAll d e xs ec w =
          (if (d.puts xs t).1 then .ok (if xs = [] then ec else .eok) else .error .nack, w') ∧
        Down w (between (d.puts xs t)) w' := by
  induction xs generalizing ec t w with
  | nil => exact Or.inr ⟨w, rfl, hscl, hslave, rfl⟩
  | cons x xs ih =>
      rw [writeAll]
      rcases writeByte_listen (e := e) x hscl hslave with ⟨ec', w', hw, hlate⟩ | ⟨w', hw, h⟩
      · left
        rw [hw]
        cases ec' with
        | eok => exact absurd rfl hlate.1
        | _ => exact ⟨_, _, rfl, hlate⟩
      · have htaken : taken d false x t = d.put x t := rfl
        rw [hw, htaken]
        rw [htaken, Bool.false_and] at h
        unfold Device.puts
        unfold behind at h
        cases hr : (d.put x t).1 with
        | false =>
            right
            rw [hr] at h
            exact ⟨w', rfl, h⟩
        | true =>
            rw [hr] at h
            rcases ih .eok h.scl h.slave with ⟨ec', w'', hw', hlate⟩ | ⟨w'', hw', h'⟩
            · exact Or.inl ⟨ec', w'', hw', hlate⟩
            · refine Or.inr ⟨w'', hw'.trans ?_, h.trans h'⟩
              rw [if_pos rfl, ite_self, if_neg (List.cons_ne_nil x xs)]

/-! ## A byte from the device -/

/-- A pass of the loop, with the controller's side of the data line let go. -/
theorem readBits_pass (hscl : w.bus.scl = false) (hsda : w.bus.sda = true) (n b : Nat) :
    (∃ ec b' w', readBits d e (n + 1) b w = (ec, b', w') ∧ Late ec w') ∨
      ∃ w', readBits d e (n + 1) b w = readBits d e n (2 * b + w.bus.slave.sda.toNat) w' ∧
        Down w ((w.bus.slave.rise w.bus.slave.sda).fall d) w' ∧ w'.bus.sda = true := by
  rw [readBits]
  have hdata : w.bus.data = w.bus.slave.sda := by rw [Bus.data, hsda, Bool.true_and]
  rcases release_cases (e := e) (d := d) hscl with ⟨w', hw', hlate⟩ | ⟨w', hw', hup⟩
  · left
    rw [hw']
    exact ⟨_, _, _, rfl, Ec.noConfusion, hlate⟩
  · right
    have hshift : b <<< 1 ||| (rSda w').toNat = 2 * b + w.bus.slave.sda.toNat := by
      have hlt : w.bus.slave.sda.toNat < 2 ^ 1 := Bool.toNat_lt _
      rw [hup.rSda, hdata, Nat.shiftLeft_eq, Nat.mul_comm b, ← Nat.two_pow_add_eq_or_of_lt hlt]
    have hdown := hup.lower (d := d) (e := e)
    rw [hdata] at hdown
    rw [hw']
    dsimp only
    rw [hshift]
    exact ⟨_, rfl, hdown, hup.lower_sda.trans hsda⟩

/-- Some bits were read, and the others are still to come. -/
theorem readBits_talk {y : UInt8} {t : σ} (n : Nat) {w : Wire σ} (hscl : w.bus.scl = false) (hsda : w.bus.sda = true)
    (hslave : w.bus.slave = ⟨.talk n y, y.toNat.testBit n, t⟩) :
    (∃ ec b w', readBits d e (n + 1) (y.toNat / 2 ^ (n + 1)) w = (ec, b, w') ∧ Late ec w') ∨
      ∃ w', readBits d e (n + 1) (y.toNat / 2 ^ (n + 1)) w = (.eok, y.toNat, w') ∧
        Down w ⟨.heed none, true, t⟩ w' := by
  induction n generalizing w with
  | zero =>
      rcases readBits_pass (e := e) (d := d) hscl hsda 0 (y.toNat / 2 ^ (0 + 1)) with hlate | ⟨w', hw, h, -⟩
      · exact Or.inl hlate
      · rw [hw, hslave, shift_in, Nat.pow_zero, Nat.div_one]
        rw [hslave] at h
        exact Or.inr ⟨w', rfl, h⟩
  | succ n ih =>
      rcases readBits_pass (e := e) (d := d) hscl hsda (n + 1) (y.toNat / 2 ^ (n + 1 + 1)) with
        hlate | ⟨w', hw, h, hsda'⟩
      · exact Or.inl hlate
      · rw [hw, hslave, shift_in]
        rw [hslave] at h
        rcases ih h.scl hsda' h.slave with hlate | ⟨w'', hw', h'⟩
        · exact Or.inl hlate
        · exact Or.inr ⟨w'', hw', h.trans h'⟩

/-- **A byte that the slave sends is read**, and the slave is told whether to go on. -/
theorem readByte_send {t : σ} (ack : Bool) (hscl : w.bus.scl = false) (hslave : w.bus.slave = .send d t) :
    (∃ ec bs w', readByte d e ack w = (ec, bs, w') ∧ Late ec w') ∨
      ∃ w', readByte d e ack w = (.eok, [(d.get t).1], w') ∧
        Down w (if ack then .send d (d.get t).2 else ⟨.quiet, true, (d.get t).2⟩) w' := by
  have hbits := readBits_talk (e := e) (d := d) 7 (w := wSda d true w) (by rw [wSda_low hscl]; exact hscl)
    (by rw [wSda_low hscl]) (by rw [wSda_low hscl]; exact hslave)
  rw [Nat.div_eq_of_lt (d.get t).1.toNat_lt] at hbits
  unfold readByte
  rcases hbits with ⟨ec, b, w', hw, hlate⟩ | ⟨w₁, hw, h⟩
  · left
    rw [hw]
    cases ec with
    | eok => exact absurd rfl hlate.1
    | _ => exact ⟨_, _, _, rfl, hlate⟩
  · rw [hw]
    dsimp only
    rcases set_release_cases (d := d) (e := e) h.scl (!ack) with ⟨w', hw', hlate⟩ | ⟨w', hw', hup⟩
    · left
      rw [hw']
      exact ⟨_, _, _, rfl, Ec.noConfusion, hlate⟩
    · right
      have hdown := hup.lower (d := d) (e := e)
      rw [hw', UInt8.ofNat_toNat]
      refine ⟨_, rfl, hdown.scl, hdown.slave.trans ?_, hdown.late.trans h.late⟩
      dsimp only [Bus.data]
      rw [h.slave]
      cases ack <;> rfl

/-- All bytes but the last are acknowledged. -/
theorem readAll_send {t : σ} (n : Nat) (ec : Ec) {w : Wire σ} (hscl : w.bus.scl = false)
    (hslave : w.bus.slave = .send d t) :
    (∃ ec' bs w', readAll d e (n + 1) ec w = (.error ec', bs, w') ∧ Late ec' w') ∨
      ∃ w', readAll d e (n + 1) ec w = (.ok .eok, (d.gets (n + 1) t).1, w') ∧
        Down w ⟨.quiet, true, (d.gets (n + 1) t).2⟩ w' := by
  induction n generalizing ec t w with
  | zero =>
      rw [readAll]
      rcases readByte_send (e := e) (decide (0 < 0)) hscl hslave with ⟨ec', bs, w', hw, hlate⟩ | ⟨w', hw, h⟩
      · left
        rw [hw]
        cases ec' with
        | eok => exact absurd rfl hlate.1
        | _ => exact ⟨_, _, _, rfl, hlate⟩
      · right
        rw [hw]
        exact ⟨w', rfl, h⟩
  | succ n ih =>
      rw [readAll]
      rcases readByte_send (e := e) (decide (0 < n + 1)) hscl hslave with ⟨ec', bs, w', hw, hlate⟩ | ⟨w', hw, h⟩
      · left
        rw [hw]
        cases ec' with
        | eok => exact absurd rfl hlate.1
        | _ => exact ⟨_, _, _, rfl, hlate⟩
      · have hnext := h.slave
        rw [if_pos (decide_eq_true (Nat.succ_pos n))] at hnext
        rw [hw]
        dsimp only
        rcases ih .eok h.scl hnext with ⟨ec', bs, w'', hw', hlate⟩ | ⟨w'', hw', h'⟩
        · left
          rw [hw']
          exact ⟨_, _, _, rfl, hlate⟩
        · right
          rw [hw']
          exact ⟨w'', rfl, h.trans h'⟩

/-! ## The conditions -/

/-- The clock is up, and so is the data line: what comes next is a start condition. -/
theorem start_of_high {w' : Wire σ} (hwait : clockStrech e (wScl d e true (wSda d true w)) = (true, w'))
    (hscl : w'.bus.scl = true) (hheld : w'.bus.held = false) (hsda : w'.bus.sda = true)
    (hslave : w'.bus.slave.sda = true) :
    ∃ w'', start d e w = (.eok, w'') ∧
      Down w' ⟨.listen true 0 0, true, d.start w'.bus.slave.state⟩ w'' := by
  have hstart : wSda d false w' = { w' with bus := { w'.bus with sda := false, slave := w'.bus.slave.start d } } := by
    rw [wSda, Bus.setSda_start hscl hheld hsda hslave]
  have hdown := lower_down (d := d) (e := e) (w := wSda d false w') (by rw [hstart]; exact hscl)
    (by rw [hstart]; exact hheld)
  refine ⟨_, by rw [start, hwait], hdown.scl, hdown.slave.trans ?_, hdown.late⟩
  rw [hstart]
  rfl

/-- Both lines are up already. -/
theorem free_same (hscl : w.bus.scl = true) (hsda : w.bus.sda = true) (hheld : w.bus.held = false) :
    wScl d e true (wSda d true w) = w := by
  rcases w with ⟨⟨scl, sda, held, slave⟩, edges, late⟩
  obtain rfl : scl = true := hscl
  obtain rfl : sda = true := hsda
  obtain rfl : held = false := hheld
  cases hslave : slave.sda <;> simp [wScl, wSda, Bus.setSda, Bus.raise, Bus.clock, Bus.data, hslave]

/-- A start condition reaches the device from every bus between two bytes. -/
theorem start_follows {s : Session σ} (h : Follows w.bus s) :
    (∃ ec w', start d e w = (ec, w') ∧ Late ec w') ∨
      ∃ w', start d e w = (.eok, w') ∧ Down w ⟨.listen true 0 0, true, d.start s.state⟩ w' := by
  have hsda : w.bus.slave.sda = true := by rw [h.slave]
  have hstate : w.bus.slave.state = s.state := by rw [h.slave]
  by_cases hidle : s.phase = .idle
  · obtain ⟨hscl, hdata, hheld⟩ := h.free hidle
    have hwait : clockStrech e (wScl d e true (wSda d true w)) = (true, w) := by
      rw [free_same hscl hdata hheld, clockStrech, if_pos]
      rw [rScl, Bus.clock, hscl, hheld]
      rfl
    obtain ⟨w', hw', hdown⟩ := start_of_high hwait hscl hheld hdata hsda
    exact Or.inr ⟨w', hw', hdown.scl, hdown.slave.trans (by rw [hstate]), hdown.late⟩
  · have hscl := h.taken hidle
    rcases set_release_cases (d := d) (e := e) hscl true with ⟨w', hw', hlate⟩ | ⟨w', hw', hup⟩
    · left
      rw [start, hw']
      exact ⟨_, _, rfl, Ec.noConfusion, hlate⟩
    · right
      obtain ⟨w'', hw'', hdown⟩ := start_of_high hw' hup.scl hup.held hup.sda (by rw [hup.slave, (rise_sda ..).1]; exact hsda)
      refine ⟨w'', hw'', hdown.scl, hdown.slave.trans ?_, hdown.late.trans hup.late⟩
      rw [hup.slave, (rise_sda ..).2]
      exact congrArg (fun t => (⟨.listen true 0 0, true, d.start t⟩ : Slave σ)) hstate

/-- A stop condition reaches it from a bus with the clock low. -/
theorem stop_down (hscl : w.bus.scl = false) (hsda : w.bus.slave.sda = true) :
    (∃ ec w', stop d e w = (ec, w') ∧ Late ec w') ∨
      ∃ w', stop d e w = (.eok, w') ∧ Follows w'.bus ⟨.idle, d.stop w.bus.slave.state⟩ ∧ w'.late = w.late := by
  rcases set_release_cases (d := d) (e := e) hscl false with ⟨w', hw', hlate⟩ | ⟨w', hw', hup⟩
  · left
    rw [stop, hw']
    exact ⟨_, _, rfl, Ec.noConfusion, hlate⟩
  · right
    have hslave : w'.bus.slave.sda = true := by rw [hup.slave, (rise_sda ..).1]; exact hsda
    have hstop : wSda d true w' = { w' with bus := { w'.bus with sda := true, slave := w'.bus.slave.stop d } } := by
      rw [wSda, Bus.setSda_stop hup.scl hup.held hup.sda hslave]
    have hdata : rSda (wSda d true w') = true := by
      rw [hstop]
      rfl
    have heok : stop d e w = (.eok, wSda d true w') := by
      rw [stop, hw']
      dsimp only
      rw [hdata]
      rfl
    rw [heok, hstop]
    refine ⟨_, rfl, ⟨?_, fun _ => ⟨hup.scl, rfl, hup.held⟩, fun h => absurd rfl h⟩, hup.late⟩
    show Slave.stop d w'.bus.slave = _
    rw [Slave.stop, hup.slave, (rise_sda ..).2]
    rfl

/-! ## Transfers -/

theorem finish_follows (phase : Phase) {t : σ} (oper : Oper) (ec : Ec) (hphase : phase ≠ .idle)
    (hscl : w.bus.scl = false) (hslave : w.bus.slave = ⟨phase.mode, true, t⟩) :
    (∃ ec' w', finish d e oper ec w = (ec', w') ∧ Late ec' w') ∨
      ∃ w', finish d e oper ec w = (ec, w') ∧ Follows w'.bus (leave d oper phase t) ∧ w'.late = w.late := by
  unfold finish leave
  cases hstop : oper.stop with
  | false => exact Or.inr ⟨w, rfl, ⟨hslave, fun h => absurd h hphase, fun _ => hscl⟩, rfl⟩
  | true =>
      rw [if_pos rfl, if_pos rfl]
      rcases stop_down (e := e) (d := d) hscl (by rw [hslave]) with ⟨ec', w', hw, hlate⟩ | ⟨w', hw, h, hl⟩
      · left
        rw [hw]
        cases ec' with
        | eok => exact absurd rfl hlate.1
        | _ => exact ⟨_, _, rfl, Ec.noConfusion, hlate.2⟩
      · right
        rw [hw]
        rw [hslave] at h
        exact ⟨w', rfl, h, hl⟩

/-- What a transfer does that is exact: what it returns and what it reads, and what the bus is then. -/
def Exact (r : Ec × List UInt8 × Wire σ) (w : Wire σ) (x : Ec × List UInt8 × Session σ) : Prop :=
  ∃ w', r = (x.1, x.2.1, w') ∧ Follows w'.bus x.2.2 ∧ w'.late = w.late

theorem transferData_write {s : Session σ} {oper : Oper} {out : List UInt8} (size : Nat) {ec : Ec} (hwr : oper.wr = true)
    (hscl : w.bus.scl = false) (hslave : w.bus.slave = ⟨s.phase.mode, true, s.state⟩) (hphase : s.phase ≠ .idle)
    (hec : out = [] → ec = .eok ∧ s.phase = .listening) :
    (∃ ec' bs w', transferData d e oper out size ec w = (ec', bs, w') ∧ Late ec' w') ∨
      Exact (transferData d e oper out size ec w) w (exchangeData d oper out size s) := by
  unfold transferData exchangeData
  rw [if_pos hwr, if_pos hwr]
  cases hp : s.phase with
  | idle => exact absurd hp hphase
  | quiet =>
      rw [hp] at hslave
      cases out with
      | nil => exact absurd (hp.symm.trans (hec rfl).2) Phase.noConfusion
      | cons x xs =>
          rw [writeAll]
          rcases writeByte_quiet (e := e) x hscl hslave with ⟨ec', w', hw, hlate⟩ | ⟨w', hw, h⟩
          · left
            rw [hw]
            cases ec' with
            | eok => exact absurd rfl hlate.1
            | _ => exact ⟨_, _, _, rfl, hlate⟩
          · right
            rw [hw]
            refine ⟨w', rfl, ⟨h.slave.trans ?_, fun hi => absurd hi hphase, fun _ => h.scl⟩, h.late⟩
            dsimp only
            rw [hp]
            rfl
  | listening =>
      rw [hp] at hslave
      have heok : (if out = [] then ec else .eok) = .eok := by
        split
        · exact (hec ‹_›).1
        · rfl
      rcases writeAll_listen (e := e) out ec hscl hslave with ⟨ec', w', hw, hlate⟩ | ⟨w', hw, h⟩
      · left
        rw [hw]
        exact ⟨_, _, _, rfl, hlate⟩
      · rcases hputs : d.puts out s.state with ⟨_ | _, t⟩
        · right
          rw [hputs] at hw h
          rw [hw]
          exact ⟨w', rfl, ⟨h.slave, fun hi => absurd hi Phase.noConfusion, fun _ => h.scl⟩, h.late⟩
        · rw [hputs, if_pos rfl, heok] at hw
          rw [hputs] at h
          rw [hw]
          dsimp only
          rcases finish_follows (e := e) .listening oper .eok Phase.noConfusion h.scl h.slave with
            ⟨ec', w'', hw', hlate⟩ | ⟨w'', hw', h', hl⟩
          · left
            rw [hw']
            exact ⟨_, _, _, rfl, hlate⟩
          · right
            rw [hw']
            exact ⟨w'', rfl, h', hl.trans h.late⟩

theorem transferData_read {s : Session σ} {oper : Oper} (out : List UInt8) {size : Nat} (ec : Ec) (hwr : oper.wr = false)
    (hsize : 0 < size) (hscl : w.bus.scl = false) (hslave : w.bus.slave = .send d s.state) :
    (∃ ec' bs w', transferData d e oper out size ec w = (ec', bs, w') ∧ Late ec' w') ∨
      Exact (transferData d e oper out size ec w) w (exchangeData d oper out size s) := by
  obtain ⟨n, rfl⟩ := Nat.exists_eq_succ_of_ne_zero (Nat.pos_iff_ne_zero.1 hsize)
  unfold transferData exchangeData
  rw [if_neg (by simp [hwr]), if_neg (by simp [hwr])]
  rcases readAll_send (e := e) n ec hscl hslave with ⟨ec', bs, w', hw, hlate⟩ | ⟨w', hw, h⟩
  · left
    rw [hw]
    exact ⟨_, _, _, rfl, hlate⟩
  · rw [hw]
    dsimp only
    rcases finish_follows (e := e) .quiet oper .eok Phase.noConfusion h.scl h.slave with
      ⟨ec', w'', hw', hlate⟩ | ⟨w'', hw', h', hl⟩
    · left
      rw [hw']
      exact ⟨_, _, _, rfl, hlate⟩
    · right
      rw [hw']
      exact ⟨w'', rfl, h', hl.trans h.late⟩

theorem addrByte_reads (oper : Oper) (addr : Nat) : (addrByte oper addr).toNat.testBit 0 = !oper.wr := by
  unfold addrByte
  cases oper.wr <;> simp [Nat.shiftLeft_eq]

/-- Behind an address that nobody answered -/
theorem refused_follows {t : σ} (hscl : w.bus.scl = false) (hslave : w.bus.slave = ⟨.quiet, true, t⟩) :
    (stop d e (writeByte d e 0 w).2).2.late = true ∨
      Follows (stop d e (writeByte d e 0 w).2).2.bus ⟨.idle, d.stop t⟩ ∧
        (stop d e (writeByte d e 0 w).2).2.late = w.late := by
  rcases writeByte_quiet (e := e) (d := d) 0 hscl hslave with ⟨ec, w', hw, hlate⟩ | ⟨w', hw, h⟩
  · left
    rw [hw]
    exact stop_late hlate.2
  · rw [hw]
    rcases stop_down (e := e) (d := d) h.scl (by rw [h.slave]) with ⟨ec, w'', hw', hlate⟩ | ⟨w'', hw', h', hl⟩
    · left
      rw [hw']
      exact hlate.2
    · right
      rw [hw']
      rw [h.slave] at h'
      exact ⟨h', hl.trans h.late⟩

/-- **A transfer over the lines is a transfer of bytes**: the same status, the same bytes, and the same device behind it;
else the device held the clock for too long, and the caller is told that there was an error. -/
theorem transfer_cases {s : Session σ} {oper : Oper} {out : List UInt8} {size : Nat} (addr : Nat) (ec : Ec)
    (h : Follows w.bus s) (ha : Allowed s oper out size) :
    (∃ ec' bs w', transfer d e oper addr out size ec w = (ec', bs, w') ∧ Late ec' w') ∨
      Exact (transfer d e oper addr out size ec w) w (exchange d oper addr out size s) := by
  unfold transfer exchange
  cases haddr : oper.addr with
  | false =>
      obtain ⟨hwr, hout, hphase⟩ := ha.2 haddr
      exact transferData_write size hwr (h.taken hphase) h.slave hphase fun hnil => absurd hnil hout
  | true =>
      rw [if_pos rfl, if_pos rfl]
      rcases start_follows (e := e) (d := d) h with ⟨ec', w₁, hw, hlate⟩ | ⟨w₁, hw, h₁⟩
      · left
        rw [hw]
        cases ec' with
        | eok => exact absurd rfl hlate.1
        | _ => exact ⟨_, _, _, rfl, Ec.noConfusion, hlate.2⟩
      · rw [hw]
        dsimp only
        rcases writeByte_listen (e := e) (addrByte oper addr) h₁.scl h₁.slave with ⟨ec', w₂, hw', hlate⟩ | ⟨w₂, hw', h₂⟩
        · left
          rw [hw']
          cases ec' with
          | eok => exact absurd rfl hlate.1
          | _ => exact ⟨_, _, _, rfl, Ec.noConfusion, stop_late (writeByte_late 0 hlate.2)⟩
        · rw [Bool.true_and, addrByte_reads] at h₂
          have htaken : taken d true (addrByte oper addr) (d.start s.state) =
            d.address (addrByte oper addr) (d.start s.state) := rfl
          rw [htaken] at hw' h₂
          rcases hr : d.address (addrByte oper addr) (d.start s.state) with ⟨_ | _, t⟩
          · rw [hr] at hw' h₂
            rw [hw']
            rcases refused_follows (e := e) h₂.scl h₂.slave with hlate | ⟨h₃, hl⟩
            · exact Or.inl ⟨_, _, _, rfl, Ec.noConfusion, hlate⟩
            · exact Or.inr ⟨_, rfl, h₃, hl.trans (h₂.late.trans h₁.late)⟩
          · rw [hr] at hw' h₂
            rw [hw']
            dsimp only [if_true]
            have hdata : (∃ ec' bs w', transferData d e oper out size .eok w₂ = (ec', bs, w') ∧ Late ec' w') ∨
                Exact (transferData d e oper out size .eok w₂) w₂ (exchangeData d oper out size ⟨.listening, t⟩) := by
              cases hwr : oper.wr with
              | true =>
                  rw [hwr] at h₂
                  exact transferData_write size hwr h₂.scl h₂.slave Phase.noConfusion fun _ => ⟨rfl, rfl⟩
              | false =>
                  rw [hwr] at h₂
                  have hsize : 0 < size := (ha.1 haddr).resolve_left (by rw [hwr]; exact Bool.false_ne_true)
                  exact transferData_read out .eok hwr hsize h₂.scl h₂.slave
            rcases hdata with hlate | ⟨w₃, hw'', h₃, hl⟩
            · exact Or.inl hlate
            · exact Or.inr ⟨w₃, hw'', h₃, hl.trans (h₂.late.trans h₁.late)⟩

/-- Whatever the device does with the clock: a transfer that returns `EOK` is exact. -/
theorem transfer_exact {s : Session σ} {oper : Oper} {out : List UInt8} {size addr : Nat} {ec : Ec}
    (h : Follows w.bus s) (ha : Allowed s oper out size) (hok : (transfer d e oper addr out size ec w).1 = .eok) :
    Exact (transfer d e oper addr out size ec w) w (exchange d oper addr out size s) := by
  rcases transfer_cases (d := d) (e := e) addr ec h ha with ⟨ec', bs, w', hw, hlate⟩ | hexact
  · rw [hw] at hok
    exact absurd hok hlate.1
  · exact hexact

end

/-! ## Runs -/

/-- A call of `SwI2C_Transfer` -/
structure Call where
  oper : Oper
  addr : Nat
  out : List UInt8
  size : Nat
  ec : Ec

def Call.transfer (c : Call) (w : Wire σ) : Ec × List UInt8 × Wire σ :=
  SwI2c.transfer d e c.oper c.addr c.out c.size c.ec w

def Call.exchange (c : Call) (s : Session σ) : Ec × List UInt8 × Session σ :=
  SwI2c.exchange d c.oper c.addr c.out c.size s

/-- The lines, and beside them the bytes. -/
def step (s : Wire σ × Session σ) (c : Call) : Option (Wire σ × Session σ) :=
  some ((c.transfer d e s.1).2.2, (c.exchange d s.2).2.2)

/-- The controller can be asked for the transfer, and either it returns `EOK` or no wait was over. -/
def InTime (s : Wire σ × Session σ) (c : Call) : Prop :=
  Allowed s.2 c.oper c.out c.size ∧ ((c.transfer d e s.1).1 = .eok ∨ (c.transfer d e s.1).2.2.late = false)

instance (s : Wire σ × Session σ) (c : Call) : Decidable (InTime d e s c) := inferInstanceAs (Decidable (_ ∧ _))

/-- The transfer over the lines returns what the transfer of bytes does, and reads the same bytes. -/
structure Agree (s : Wire σ × Session σ) (c : Call) (s' : Wire σ × Session σ) : Prop where
  status : (c.transfer d e s.1).1 = (c.exchange d s.2).1
  bytes : (c.transfer d e s.1).2.1 = (c.exchange d s.2).2.1
  follows : Follows s'.1.bus s'.2

variable {d e}

/-- **The lines carry the bytes**, along every run of transfers. -/
theorem transfers_exact {w : Wire σ} {s : Session σ} {cs : List Call} (h : Follows w.bus s) (hlate : w.late = false)
    (hg : Meets (step d e) (InTime d e) (w, s) cs) : Along (step d e) (Agree d e) (w, s) cs := by
  refine along_of_meets (I := fun s => Follows s.1.bus s.2 ∧ s.1.late = false) ?_ ⟨h, hlate⟩ hg
  rintro ⟨w, s⟩ c s' ⟨h, hlate⟩ ⟨ha, htime⟩ hs
  obtain rfl := Option.some.inj hs
  rcases transfer_cases (d := d) (e := e) c.addr c.ec h ha with ⟨ec, bs, w', hw, hl⟩ | ⟨w', hw, h', hl⟩
  · have hw : c.transfer d e w = (ec, bs, w') := hw
    rw [hw] at htime
    rcases htime with htime | htime
    · exact absurd htime hl.1
    · exact absurd (htime.symm.trans hl.2) Bool.false_ne_true
  · have hw : c.transfer d e w = ((c.exchange d s).1, (c.exchange d s).2.1, w') := hw
    refine ⟨⟨?_, ?_⟩, ?_, ?_, ?_⟩ <;> rw [hw]
    · exact h'
    · exact hl.trans hlate
    · exact h'

/-- A device that gives back what it was given, from address 5. -/
def mailbox : Device (List UInt8) where
  start s := s
  address x s := (x.toNat / 2 = 5, s)
  put x s := (true, s ++ [x])
  get s := (s.headD 0xff, s.tail)
  stop s := s

/-- Both lines are up. -/
def free (s : List UInt8) : Wire (List UInt8) := ⟨⟨true, true, false, ⟨.quiet, true, s⟩⟩, 0, false⟩

theorem free_follows (s : List UInt8) : Follows (free s).bus ⟨.idle, s⟩ :=
  ⟨rfl, fun _ => ⟨rfl, rfl, rfl⟩, fun h => absurd rfl h⟩

/-- A device that holds the clock behind every third edge. -/
def slow : Env := ⟨fun i => i % 3 = 0, fun _ => true⟩

/-- Two bytes are written and read, a third is written in a transfer of its own; nobody answers at address 6. -/
def calls : List Call :=
  [⟨⟨true, true, false⟩, 5, [0x12, 0xe7], 0, .eok⟩, ⟨⟨false, true, true⟩, 5, [0x80], 0, .eok⟩,
    ⟨⟨true, true, true⟩, 6, [1], 0, .eok⟩, ⟨⟨true, false, true⟩, 5, [], 2, .eok⟩]

theorem transfers_exact_calls :
    ((free []).late = false ∧ Meets (step mailbox slow) (InTime mailbox slow) (free [], ⟨.idle, []⟩) calls) ∧
      Along (step mailbox slow) (Agree mailbox slow) (free [], ⟨.idle, []⟩) calls :=
  have hg : Meets (step mailbox slow) (InTime mailbox slow) (free [], ⟨.idle, []⟩) calls := by decide +kernel
  ⟨⟨rfl, hg⟩, transfers_exact (free_follows []) rfl hg⟩

/-- **A transfer cannot read no bytes**: the device has begun to send one, and keeps the data line down. There is no stop
condition, and in the next transfer nobody answers. -/
theorem not_exact_emptyRead :
    ∃ w, transfer mailbox slow ⟨true, false, true⟩ 5 [] 0 .eok (free [0x12]) = (.stop, [], w) ∧
      (exchange mailbox ⟨true, false, true⟩ 5 [] 0 ⟨.idle, [0x12]⟩).1 = .eok ∧
      (transfer mailbox slow ⟨true, true, true⟩ 5 [0x34] 0 .eok w).1 = .addr := by
  refine ⟨_, rfl, ?_, ?_⟩ <;> decide +kernel

end YieldStm32.SwI2c
