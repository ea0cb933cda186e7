import YieldStm32.Lib.SerialEeprom
import YieldStm32.Sys.Sem

/-!
# The EEPROM driver (`eeprom.c`)

* `Bus` : the I²C bus with the chip on it, the write protect signal and the semaphore;
* `swI2CTransfer` : `SwI2C_Transfer`, which may break off with an error;
* `Dev` : the device, and where the driver believes the chip's address counter is;
* `read`, `write` : the calls, `accepts` their range check.

`sent` is where the chip was, and how many bytes it was sent, for each transfer of data.
-/

namespace YieldStm32.Eeprom

open SerialEeprom Ring

/-- `EFATAL` -/
def efatal : Int := -1

/-- `swi2c_oper_t` -/
structure Oper where
  addr : Bool
  wr : Bool
  stop : Bool

structure Bus where
  chip : Chip
  wp : Bool
  sem : BitVec 8
  sent : List (Nat × Nat) := []
  -- the transfers so far
  count : Nat := 0

/-- What else takes part in a call. -/
structure Env where
  /-- The `i`-th transfer goes through, or breaks off after some bytes with an error. -/
  refuse : Nat → Option (Nat × Int)
  /-- The attempts that `EEPROM_PollBusy` has time for when it starts with the `i`-th transfer. -/
  attempts : Nat → Nat

/-- A bus that always answers. -/
def Env.Answers (env : Env) : Prop := ∀ i, env.refuse i = none

variable (g : Geometry) (env : Env)

/-- `SwI2C_Transfer` of the bytes `out`, or of `size` bytes that are read -/
def swI2CTransfer (oper : Oper) (out : List UInt8) (size : Nat) (b : Bus) : Except Int (List UInt8) × Bus :=
  let chip := if oper.addr then if oper.wr then b.chip.startWrite else b.chip.startRead else b.chip
  let sent := if chip.phase = .data then b.sent ++ [(chip.counter, out.length)] else b.sent
  match env.refuse b.count with
  | some (k, ec) =>
    if oper.wr then (.error ec, { b with chip := chip.puts g b.wp (out.take k), sent := sent, count := b.count + 1 })
    else (.error ec, { b with chip := (chip.gets g (min k size)).2, count := b.count + 1 })
  | none =>
    if oper.wr then
      let chip := chip.puts g b.wp out
      (.ok [], { b with chip := if oper.stop then chip.stop else chip, sent := sent, count := b.count + 1 })
    else
      let chip' := (chip.gets g size).2
      (.ok (chip.gets g size).1, { b with chip := if oper.stop then chip'.stop else chip', count := b.count + 1 })

/-- `EEPROM_PollBusy`, with the attempts that are left and the status of the last one -/
def pollBusy : Nat → Except Int Unit → Bus → Except Int Unit × Bus
  | 0, ec, b => (ec, b)
  | n + 1, _, b =>
    match swI2CTransfer g env ⟨true, true, true⟩ [] 0 b with
    | (.ok _, b) => (.ok (), b)
    | (.error ec, b) => pollBusy n (.error ec) b

/-- The bytes of `HTOBE16(offset)` -/
def addrWord (offset : BitVec 32) : List UInt8 :=
  [UInt8.ofNat (offset.toNat / 256 % 256), UInt8.ofNat (offset.toNat % 256)]

/-- `eeprom_dev_t` -/
structure Dev where
  bus : Bus
  memAddr : BitVec 32
  memAddrValid : Bool

/-- `Sem_Lock(&dev->swi2c->sem, 0)`, once it returns -/
def Bus.lock (task : Sem.TaskId) (b : Bus) : Bus := { b with sem := task.stored }

/-- `Sem_Release(&dev->swi2c->sem)` -/
def Bus.release (b : Bus) : Bus := { b with sem := 0 }

/-- `EEPROM_SetWriteProtect` -/
def Bus.setWriteProtect (enable : Bool) (b : Bus) : Bus := { b with wp := enable }

/-- The range check is passed. -/
def accepts (offset size : BitVec 32) : Prop := (offset + size).toNat < g.capacity

instance (offset size : BitVec 32) : Decidable (accepts g offset size) := inferInstanceAs (Decidable (_ < _))

/-- From the label `end` on, when there was an error. -/
def Dev.fail (d : Dev) (b : Bus) : Dev := { d with bus := b.release, memAddrValid := false }

/-- The transfers of `EEPROM_Read` -/
def readTransfers (writeAddr : Bool) (offset size : BitVec 32) (b : Bus) : Except Int (List UInt8) × Bus :=
  match pollBusy g env (env.attempts b.count) (.ok ()) b with
  | (.error ec, b) => (.error ec, b)
  | (.ok _, b) =>
    let addressed : Except Int (List UInt8) × Bus :=
      if writeAddr then swI2CTransfer g env ⟨true, true, true⟩ (addrWord offset) 2 b else (.ok [], b)
    match addressed with
    | (.error ec, b) => (.error ec, b)
    | (.ok _, b) => swI2CTransfer g env ⟨true, false, true⟩ [] size.toNat b

/-- `EEPROM_Read`, what it returns and what it puts at `ptr` -/
def read (offset size : BitVec 32) (d : Dev) : Int × List UInt8 × Dev :=
  -- sanitize parameters
  if ¬ accepts g offset size then (efatal, [], d)
  else
    match readTransfers g env (!d.memAddrValid || d.memAddr != offset) offset size d.bus with
    | (.error ec, b) => (ec, [], d.fail b)
    | (.ok bytes, b) => (size.toInt, bytes, { bus := b, memAddr := offset + size, memAddrValid := true })

/-- The size of the next transfer. -/
def tSize (offset : BitVec 32) (left : Nat) : Nat := min left (g.pageSize - offset.toNat % g.pageSize)

theorem tSize_pos (offset : BitVec 32) (left : Nat) (h : 0 < left) : 0 < tSize g offset left := by
  have := Nat.mod_lt offset.toNat g.pageSize_pos
  rw [tSize]
  omega

/-- The writing loop of `EEPROM_Write`; it returns the offset it comes to. -/
def writeLoop (task : Sem.TaskId) (p8 : Nat → UInt8) (size bWritten : Nat) (offset : BitVec 32) (b : Bus) :
    Except Int (BitVec 32) × Bus :=
  if bWritten < size then
    match pollBusy g env (env.attempts b.count) (.ok ()) (b.lock task) with
    | (.error ec, b) => (.error ec, b)
    | (.ok _, b) =>
      match swI2CTransfer g env ⟨true, true, false⟩ (addrWord offset) 2 b with
      | (.error ec, b) => (.error ec, b)
      | (.ok _, b) =>
        let n := tSize g offset (size - bWritten)
        match swI2CTransfer g env ⟨false, true, true⟩ (copyOut p8 bWritten n) n b with
        | (.error ec, b) => (.error ec, b)
        | (.ok _, b) => writeLoop task p8 size (bWritten + n) (offset + BitVec.ofNat 32 n) b.release
  else (.ok offset, b)
termination_by size - bWritten
decreasing_by
  have := tSize_pos g offset (size - bWritten) (by omega)
  omega

/-- `EEPROM_Write` of the bytes at `p8` -/
def write (task : Sem.TaskId) (offset size : BitVec 32) (p8 : Nat → UInt8) (d : Dev) : Int × Dev :=
  -- sanitize parameters
  if ¬ accepts g offset size then (efatal, d)
  else
    match writeLoop g env task p8 size.toNat 0 offset (d.bus.setWriteProtect false) with
    | (.error ec, b) => (ec, d.fail (b.setWriteProtect true))
    | (.ok offset, b) => (size.toInt, { bus := b.setWriteProtect true, memAddr := offset, memAddrValid := true })

/-! ## A bus that always answers -/

section Answers

variable {g} {env}

/-- A write of bytes to a chip that goes through. -/
theorem swI2CTransfer_write (h : env.Answers) {oper : Oper} (hwr : oper.wr = true) (out : List UInt8) (size : Nat) (b : Bus) :
    swI2CTransfer g env oper out size b =
      let chip := if oper.addr then b.chip.startWrite else b.chip
      (.ok [], { b with
        chip := if oper.stop then (chip.puts g b.wp out).stop else chip.puts g b.wp out
        sent := if chip.phase = .data then b.sent ++ [(chip.counter, out.length)] else b.sent
        count := b.count + 1 }) := by
  rw [swI2CTransfer]
  simp only [h b.count, hwr, if_true]

theorem swI2CTransfer_read (h : env.Answers) (size : Nat) (b : Bus) :
    swI2CTransfer g env ⟨true, false, true⟩ [] size b =
      (.ok (b.chip.startRead.gets g size).1,
        { b with chip := (b.chip.startRead.gets g size).2.stop, count := b.count + 1 }) := by
  rw [swI2CTransfer]
  simp only [h b.count]
  rfl

/-- A poll changes nothing but what the chip expects next. -/
theorem pollBusy_answers (h : env.Answers) (n : Nat) (b : Bus) :
    ∃ phase count, pollBusy g env n (.ok ()) b = (.ok (), { b with chip := { b.chip with phase := phase }, count := count }) := by
  cases n with
  | zero => exact ⟨b.chip.phase, b.count, rfl⟩
  | succ n =>
      refine ⟨.idle, b.count + 1, ?_⟩
      rw [pollBusy, swI2CTransfer_write h rfl]
      rfl

/-- The address that the chip takes the word for. -/
theorem puts_addrWord (isProtected : Bool) (c : Chip) {offset : BitVec 32} (h : offset.toNat < g.capacity) :
    c.startWrite.puts g isProtected (addrWord offset) = { c with phase := .data, counter := offset.toNat } := by
  have hle := g.le
  rw [addrWord, Chip.puts_address]
  simp only [UInt8.toNat_ofNat', Nat.mod_mod]
  rw [show offset.toNat / 256 % 256 * 256 + offset.toNat % 256 = offset.toNat by omega, Nat.mod_eq_of_lt h]

/-- The bytes that a read gets from a chip whose counter stands at `start` then. -/
theorem readTransfers_answers (h : env.Answers) (writeAddr : Bool) (offset size : BitVec 32) {b : Bus} {start : Nat}
    (hoffset : offset.toNat < g.capacity) (hstart : start = if writeAddr then offset.toNat else b.chip.counter) :
    ∃ count, readTransfers g env writeAddr offset size b =
      (.ok (({ b.chip with counter := start, phase := .idle } : Chip).gets g size.toNat).1,
        { b with
          chip := (({ b.chip with counter := start, phase := .idle } : Chip).gets g size.toNat).2.stop
          count := count }) := by
  obtain ⟨phase, count, hpoll⟩ := pollBusy_answers (g := g) h (env.attempts b.count) b
  rw [readTransfers, hpoll]
  cases writeAddr with
  | false =>
      obtain rfl : start = b.chip.counter := hstart
      refine ⟨count + 1, ?_⟩
      dsimp only
      rw [if_neg Bool.false_ne_true]
      dsimp only
      rw [swI2CTransfer_read h]
      rfl
  | true =>
      obtain rfl : start = offset.toNat := hstart
      refine ⟨count + 1 + 1, ?_⟩
      dsimp only
      rw [if_pos rfl, swI2CTransfer_write h rfl]
      dsimp only
      rw [swI2CTransfer_read h, if_pos rfl, if_pos rfl, puts_addrWord _ _ hoffset]
      rfl

end Answers

/-- `eeprom`, the chip on the board -/
def onBoard : Geometry where
  capacity := 16 * 1024
  pageSize := 64
  pageSize_pos := by decide
  dvd := by decide
  le := by decide

/-- A bus that always answers, and at once. -/
def answering : Env where
  refuse _ := none
  attempts _ := 1

theorem answers_answering : answering.Answers := fun _ => rfl

/-- A device at start, with an empty chip. -/
def blank : Dev where
  bus :=
    { chip := { mem := fun _ => 0xff, counter := 0, phase := .idle, stores := [] }
      wp := true
      sem := 0 }
  memAddr := 0
  memAddrValid := false

/-- The first task -/
def firstTask : Sem.TaskId := ⟨1, Nat.one_pos, Sem.one_lt_ids⟩

end YieldStm32.Eeprom
