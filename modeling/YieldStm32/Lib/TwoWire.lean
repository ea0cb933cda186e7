import Mathlib.Algebra.Order.Ring.Nat
import Mathlib.Tactic.IntervalCases

/-!
# Two-wire buses

A controller and a device on a clock and a data line that are pulled up: a line is high where nobody pulls it down. The
device may hold the clock down.

* `Device` : what a device does with the bytes and the conditions on the bus;
* `Slave` : the part of it that follows the two lines: `rise` and `fall` are the edges of the clock, `start` and `stop`
  those of the data line while the clock is high;
* `Bus` : the two lines, `setSda`, `raise`, `lower` and `letGo` what may happen to them;
* `Session` : the same bus with bytes for what goes over it, `puts` and `gets`; `Follows` says how the two belong
  together.
-/

namespace TwoWire

structure Device (σ : Type*) where
  /-- A start condition -/
  start : σ → σ
  /-- The byte behind it; the device says whether it answers. -/
  address : UInt8 → σ → Bool × σ
  /-- A byte to the device, that it acknowledges or not. -/
  put : UInt8 → σ → Bool × σ
  /-- A byte from the device -/
  get : σ → UInt8 × σ
  /-- A stop condition -/
  stop : σ → σ

/-- What a slave does with the clock. -/
inductive Mode where
  -- nothing before the next start condition
  | quiet
  -- it takes a byte, of which it has some bits
  | listen (isAddress : Bool) (count value : Nat)
  -- it acknowledges a byte, behind which it sends or takes another
  | answer (reads : Bool)
  -- it sends a byte, and has some bits behind the one on the line
  | talk (left : Nat) (byte : UInt8)
  -- it has sent a byte, that may have been acknowledged
  | heed (isAcknowledged : Option Bool)
deriving DecidableEq, Repr

/-- A device on the bus; `sda` is whether it lets the data line go. -/
structure Slave (σ : Type*) where
  mode : Mode
  sda : Bool
  state : σ

variable {σ : Type*} (d : Device σ)

namespace Slave

def start (s : Slave σ) : Slave σ := ⟨.listen true 0 0, true, d.start s.state⟩

def stop (s : Slave σ) : Slave σ := ⟨.quiet, true, d.stop s.state⟩

/-- The whole byte was taken. -/
def take (isAddress : Bool) (byte : UInt8) (s : σ) : Slave σ :=
  let r := if isAddress then d.address byte s else d.put byte s
  if r.1 then ⟨.answer (isAddress && byte.toNat.testBit 0), false, r.2⟩ else ⟨.quiet, true, r.2⟩

/-- The next byte is sent. -/
def send (s : σ) : Slave σ := ⟨.talk 7 (d.get s).1, (d.get s).1.toNat.testBit 7, (d.get s).2⟩

/-- The clock goes up: the slave looks at the data line. -/
def rise (line : Bool) (s : Slave σ) : Slave σ :=
  match s.mode with
  | .listen isAddress count value => { s with mode := .listen isAddress (count + 1) (2 * value + line.toNat) }
  | .heed _ => { s with mode := .heed (some (!line)) }
  | _ => s

/-- The clock goes down: the slave may pull the data line down, or let it go. -/
def fall (s : Slave σ) : Slave σ :=
  match s.mode with
  | .listen isAddress count value => if count = 8 then take d isAddress (UInt8.ofNat value) s.state else s
  | .answer false => ⟨.listen false 0 0, true, s.state⟩
  | .answer true | .heed (some true) => send d s.state
  | .talk (left + 1) byte => ⟨.talk left byte, byte.toNat.testBit left, s.state⟩
  | .talk 0 _ => ⟨.heed none, true, s.state⟩
  | .heed (some false) => ⟨.quiet, true, s.state⟩
  | _ => s

end Slave

/-- The lines, as the controller drives them, and the slave, that may hold the clock down. -/
structure Bus (σ : Type*) where
  scl : Bool
  sda : Bool
  held : Bool
  slave : Slave σ

namespace Bus

/-- The level of the clock line. -/
def clock (b : Bus σ) : Bool := b.scl && !b.held

/-- The level of the data line. -/
def data (b : Bus σ) : Bool := b.sda && b.slave.sda

/-- The controller lets go of the data line, or pulls it down. -/
def setSda (x : Bool) (b : Bus σ) : Bus σ :=
  let b' := { b with sda := x }
  match b.clock, b.data, b'.data with
  | true, true, false => { b' with slave := b.slave.start d }
  | true, false, true => { b' with slave := b.slave.stop d }
  | _, _, _ => b'

/-- The controller lets go of the clock line. -/
def raise (b : Bus σ) : Bus σ :=
  { b with scl := true, slave := if b.scl ∨ b.held then b.slave else b.slave.rise b.data }

/-- It pulls the clock line down; the slave may do that too, from there on. -/
def lower (holds : Bool) (b : Bus σ) : Bus σ :=
  { b with scl := false, held := holds, slave := if b.clock then b.slave.fall d else b.slave }

/-- The slave lets go of the clock line. -/
def letGo (b : Bus σ) : Bus σ :=
  { b with held := false, slave := if b.scl ∧ b.held then b.slave.rise b.data else b.slave }

end Bus

/-! ## Bytes -/

/-- What the bus is between two bytes: free, or with a device on it that does not listen, or one that does. -/
inductive Phase where
  | idle
  | quiet
  | listening
deriving DecidableEq, Repr

structure Session (σ : Type*) where
  phase : Phase
  state : σ

namespace Device

/-- Bytes to a device, up to the first that it does not acknowledge. -/
def puts : List UInt8 → σ → Bool × σ
  | [], s => (true, s)
  | x :: xs, s => if (d.put x s).1 then puts xs (d.put x s).2 else (false, (d.put x s).2)

/-- Bytes from a device -/
def gets : Nat → σ → List UInt8 × σ
  | 0, s => ([], s)
  | n + 1, s => ((d.get s).1 :: (gets n (d.get s).2).1, (gets n (d.get s).2).2)

end Device

/-- The mode of a slave in each phase -/
def Phase.mode : Phase → Mode
  | .listening => .listen false 0 0
  | .idle | .quiet => .quiet

/-- The lines and the slave are as the session has them: both lines are high while the bus is free, else the clock is
low. -/
structure Follows (b : Bus σ) (s : Session σ) : Prop where
  slave : b.slave = ⟨s.phase.mode, true, s.state⟩
  free : s.phase = .idle → b.scl = true ∧ b.sda = true ∧ b.held = false
  taken : s.phase ≠ .idle → b.scl = false

/-! ## The lines -/

section

variable {d} {b : Bus σ}

theorem Bus.clock_of_low (h : b.scl = false) : b.clock = false := by rw [clock, h, Bool.false_and]

/-- While the clock is low the data line may change. -/
theorem Bus.setSda_of_low (h : b.scl = false) (x : Bool) : b.setSda d x = { b with sda := x } := by
  simp [setSda, clock_of_low h]

/-- The clock goes up once both have let it go. -/
theorem Bus.raise_of_low (h : b.scl = false) :
    (b.held = false → b.raise = { b with scl := true, slave := b.slave.rise b.data }) ∧
      (b.held = true → b.raise = { b with scl := true }) := by
  refine ⟨fun hh => ?_, fun hh => ?_⟩
  · simp [raise, h, hh]
  · simp [raise, hh]

theorem Bus.letGo_of_held (hs : b.scl = true) (hh : b.held = true) :
    b.letGo = { b with held := false, slave := b.slave.rise b.data } := by
  simp [letGo, hs, hh]

theorem Bus.lower_of_high (hs : b.scl = true) (hh : b.held = false) (holds : Bool) :
    b.lower d holds = { b with scl := false, held := holds, slave := b.slave.fall d } := by
  simp [lower, clock, hs, hh]

/-- The data line goes down while the clock is high. -/
theorem Bus.setSda_start (hs : b.scl = true) (hh : b.held = false) (ha : b.sda = true) (hl : b.slave.sda = true) :
    b.setSda d false = { b with sda := false, slave := b.slave.start d } := by
  simp [setSda, clock, data, hs, hh, ha, hl]

/-- The data line goes up while the clock is high. -/
theorem Bus.setSda_stop (hs : b.scl = true) (hh : b.held = false) (ha : b.sda = false) (hl : b.slave.sda = true) :
    b.setSda d true = { b with sda := true, slave := b.slave.stop d } := by
  simp [setSda, clock, data, hs, hh, ha, hl]

end

/-! ## Shift registers -/

/-- The last `n` bits of a byte are still to come: those before them make a number, and the next is the lowest of it. -/
theorem shift_in (x n : Nat) : 2 * (x / 2 ^ (n + 1)) + (x.testBit n).toNat = x / 2 ^ n := by
  rw [Nat.testBit_eq_decide_div_mod_eq, Nat.pow_succ, ← Nat.div_div_eq_div_mul]
  have hlt := Nat.mod_lt (x / 2 ^ n) (by decide : 0 < 2)
  by_cases hbit : x / 2 ^ n % 2 = 1
  · simp only [hbit, decide_true, Bool.toNat_true]
    omega
  · simp only [hbit, decide_false, Bool.toNat_false]
    omega

/-- The highest bit of a byte that was moved up is the next one. -/
theorem shift_out {n : Nat} (x : Nat) (hn : n < 8) :
    x.testBit n = decide (128 ≤ x * 2 ^ (7 - n) % 256) := by
  rw [Nat.testBit_eq_decide_div_mod_eq, decide_eq_decide]
  interval_cases n <;> omega

end TwoWire
