import Mathlib.Algebra.Group.Nat.Defs
import YieldStm32.Lib.Ring

/-!
# Serial EEPROM chips

A memory that is addressed with two bytes, read byte after byte and written page by page, as data sheets have it.

* `Geometry` : the capacity and the page size;
* `Chip`, `put`, `get` : the chip, byte by byte; `stores` are the bytes it stored, with their addresses;
* `puts_address`, `puts_data` : what an address, and the bytes for one page, do to it;
* `gets_spec` : what is read.

The address counter goes through the whole memory when bytes are read, and stays in its page when they are written.
-/

namespace SerialEeprom

open Ring

/-- A memory made of pages, no more than two bytes can address. -/
structure Geometry where
  capacity : Nat
  pageSize : Nat
  pageSize_pos : 0 < pageSize
  dvd : pageSize ∣ capacity
  le : capacity ≤ 2 ^ 16

/-- What the next byte from the bus is taken for. -/
inductive Phase where
  | idle
  | addressHigh
  | addressLow (hi : UInt8)
  | data
deriving DecidableEq

structure Chip where
  mem : Nat → UInt8
  counter : Nat
  phase : Phase
  stores : List (UInt8 × Nat)

variable (g : Geometry)

/-- The counter `n` bytes of a page write behind `a`. -/
def Geometry.inPage (a n : Nat) : Nat := a / g.pageSize * g.pageSize + (a % g.pageSize + n) % g.pageSize

namespace Chip

/-- A start condition, and the chip's address for writing. -/
def startWrite (c : Chip) : Chip := { c with phase := .addressHigh }

/-- A start condition, and the chip's address for reading. -/
def startRead (c : Chip) : Chip := { c with phase := .idle }

/-- A stop condition -/
def stop (c : Chip) : Chip := { c with phase := .idle }

/-- A byte from the bus; a protected memory does not store it. -/
def put (isProtected : Bool) (c : Chip) (b : UInt8) : Chip :=
  match c.phase with
  | .idle => c
  | .addressHigh => { c with phase := .addressLow b }
  | .addressLow hi => { c with phase := .data, counter := (hi.toNat * 256 + b.toNat) % g.capacity }
  | .data =>
    if isProtected then { c with counter := g.inPage c.counter 1 }
    else
      { c with
        mem := Function.update c.mem c.counter b
        counter := g.inPage c.counter 1
        stores := c.stores ++ [(b, c.counter)] }

def puts (isProtected : Bool) (bs : List UInt8) (c : Chip) : Chip := bs.foldl (put g isProtected) c

/-- A byte to the bus. -/
def get (c : Chip) : UInt8 × Chip := (c.mem c.counter, { c with counter := (c.counter + 1) % g.capacity })

def gets : Nat → Chip → List UInt8 × Chip
  | 0, c => ([], c)
  | n + 1, c => ((get g c).1 :: (gets n (get g c).2).1, (gets n (get g c).2).2)

end Chip

variable {g}

/-! ## Page writes -/

theorem Geometry.inPage_lt {a n : Nat} (h : a % g.pageSize + n < g.pageSize) : g.inPage a n = a + n := by
  rw [inPage, Nat.mod_eq_of_lt h, ← Nat.add_assoc, Nat.mul_comm, Nat.div_add_mod]

/-- At the end of a page the counter is back at its beginning. -/
theorem Geometry.inPage_eq {a n : Nat} (h : a % g.pageSize + n = g.pageSize) : g.inPage a n = a + n - g.pageSize := by
  have := Nat.div_add_mod a g.pageSize
  rw [inPage, h, Nat.mod_self, Nat.mul_comm]
  omega

theorem Geometry.inPage_succ {a n : Nat} (h : a % g.pageSize + 1 < g.pageSize) :
    g.inPage (a + 1) n = g.inPage a (n + 1) ∧ (a + 1) % g.pageSize = a % g.pageSize + 1 := by
  have hsplit := Nat.div_add_mod a g.pageSize
  obtain ⟨hdiv, hmod⟩ := (Nat.div_mod_unique (a := a + 1) (c := a % g.pageSize + 1) (d := a / g.pageSize) g.pageSize_pos).2
    ⟨by omega, h⟩
  rw [inPage, inPage, hdiv, hmod, Nat.add_right_comm, Nat.add_assoc]
  exact ⟨rfl, rfl⟩

theorem Chip.puts_nil (isProtected : Bool) (c : Chip) : c.puts g isProtected [] = c := rfl

theorem Chip.puts_cons (isProtected : Bool) (b : UInt8) (bs : List UInt8) (c : Chip) :
    c.puts g isProtected (b :: bs) = (c.put g isProtected b).puts g isProtected bs := rfl

/-- Two bytes for the address. -/
theorem Chip.puts_address (isProtected : Bool) (hi lo : UInt8) (c : Chip) :
    c.startWrite.puts g isProtected [hi, lo] =
      { c with phase := .data, counter := (hi.toNat * 256 + lo.toNat) % g.capacity } := rfl

theorem Chip.put_data {c : Chip} (hc : c.phase = .data) (b : UInt8) :
    c.put g false b =
      { c with
        mem := Function.update c.mem c.counter b
        counter := g.inPage c.counter 1
        stores := c.stores ++ [(b, c.counter)] } := by
  simp [put, hc]

/-- Bytes that fit in the page are stored one behind the other. -/
theorem Chip.puts_data {c : Chip} (hc : c.phase = .data) {bs : List UInt8}
    (hfit : c.counter % g.pageSize + bs.length ≤ g.pageSize) :
    c.puts g false bs =
      { c with
        mem := copyIn c.mem c.counter bs
        counter := if bs = [] then c.counter else g.inPage c.counter bs.length
        stores := c.stores ++ bs.zipIdx c.counter } := by
  induction bs generalizing c with
  | nil => simp [puts_nil, copyIn_nil]
  | cons b bs ih =>
      rw [List.length_cons] at hfit
      by_cases hbs : bs = []
      · subst hbs
        rw [puts_cons, puts_nil, put_data hc, ← copyIn_update, copyIn_nil]
        simp
      · have hpos := List.length_pos_iff.2 hbs
        have hlt : c.counter % g.pageSize + 1 < g.pageSize := by omega
        obtain ⟨hpage, hmod⟩ := Geometry.inPage_succ (n := bs.length) hlt
        have hrest := @ih (c.put g false b) (by rw [put_data hc]; exact hc) (by
          rw [put_data hc]
          dsimp only
          rw [Geometry.inPage_lt hlt, hmod]
          omega)
        rw [puts_cons, hrest, put_data hc]
        simp only [if_neg hbs, reduceCtorEq, if_false, Geometry.inPage_lt hlt, hpage, copyIn_update, List.length_cons,
          List.zipIdx_cons, List.append_assoc, List.singleton_append]

/-- Each byte is stored somewhere. -/
theorem Chip.length_stores {c : Chip} (hc : c.phase = .data) (bs : List UInt8) :
    (c.puts g false bs).stores.length = c.stores.length + bs.length := by
  induction bs generalizing c with
  | nil => rfl
  | cons b bs ih =>
      have hrest := @ih (c.put g false b) (by rw [put_data hc]; exact hc)
      rw [puts_cons, hrest, put_data hc]
      simp only [List.length_append, List.length_cons, List.length_nil]
      omega

/-! ## Reads -/

/-- A read that does not go over the end of the memory. -/
theorem Chip.gets_spec {c : Chip} {n : Nat} (h : c.counter + n < g.capacity) :
    c.gets g n = (copyOut c.mem c.counter n, { c with counter := c.counter + n }) := by
  induction n generalizing c with
  | zero => rfl
  | succ n ih =>
      have hnext : (get g c).2 = { c with counter := c.counter + 1 } := by
        rw [get, Nat.mod_eq_of_lt (by omega)]
      have hbyte : copyOut c.mem c.counter 1 = [c.mem c.counter] := rfl
      rw [gets, hnext, ih (by show c.counter + 1 + n < g.capacity; omega), Nat.add_comm n 1, copyOut_add, hbyte,
        ← Nat.add_assoc]
      rfl

end SerialEeprom
