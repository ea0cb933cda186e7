import Mathlib.Algebra.Group.Nat.Defs
import YieldStm32.Lib.Ring

/-!
# Numbers in memory, low byte first

* `byte x i` : byte `i` of a number; `bytes n x` : its first `n` bytes;
* `value m n` : the number in the first `n` cells of a memory;
* `overlay x bs` : a variable after the bytes `bs` were copied to it, from its start.
-/

namespace Little

/-- Byte `i` of a number. -/
def byte (x i : Nat) : UInt8 := UInt8.ofNat (x / 256 ^ i)

/-- The first `n` bytes of a number. -/
def bytes (n x : Nat) : List UInt8 := (List.range n).map (byte x)

/-- The number in the first `n` cells. -/
def value (m : Nat → UInt8) : Nat → Nat
  | 0 => 0
  | n + 1 => value m n + (m n).toNat * 256 ^ n

theorem value_zero (m : Nat → UInt8) : value m 0 = 0 := rfl

theorem value_succ (m : Nat → UInt8) (n : Nat) : value m (n + 1) = value m n + (m n).toNat * 256 ^ n := rfl

/-- A variable after the bytes `bs` were copied to it. -/
def overlay {w : Nat} (x : BitVec w) (bs : List UInt8) : BitVec w :=
  BitVec.ofNat w (value (Ring.copyIn (byte x.toNat) 0 bs) (w / 8))

@[simp] theorem length_bytes (n x : Nat) : (bytes n x).length = n := by
  simp [bytes]

theorem value_congr {m m' : Nat → UInt8} {n : Nat} (h : ∀ i < n, m i = m' i) : value m n = value m' n := by
  induction n with
  | zero => rfl
  | succ n ih => rw [value_succ, value_succ, ih fun i hi => h i (Nat.lt_succ_of_lt hi), h n (Nat.lt_succ_self n)]

/-- The bytes of a number give the number back. -/
theorem value_byte (x n : Nat) : value (byte x) n = x % 256 ^ n := by
  induction n with
  | zero => rw [Nat.pow_zero, Nat.mod_one, value_zero]
  | succ n ih =>
      have hbyte : (byte x n).toNat = x / 256 ^ n % 256 := UInt8.toNat_ofNat'
      rw [value_succ, ih, hbyte, Nat.pow_succ, Nat.mod_mul, Nat.mul_comm (x / 256 ^ n % 256)]

theorem copyIn_bytes (m : Nat → UInt8) {n i : Nat} (x : Nat) (hi : i < n) :
    Ring.copyIn m 0 (bytes n x) i = byte x i := by
  unfold Ring.copyIn
  rw [dif_pos ⟨Nat.zero_le i, by simpa using hi⟩]
  simp [bytes]

/-- A number copied into memory is read back. -/
theorem value_copyIn (m : Nat → UInt8) (n x : Nat) : value (Ring.copyIn m 0 (bytes n x)) n = x % 256 ^ n := by
  rw [value_congr fun i hi => copyIn_bytes m x hi, value_byte]

/-- Nothing copied to a variable. -/
theorem overlay_nil {n : Nat} (x : BitVec (8 * n)) : overlay x [] = x := by
  have hlt : x.toNat < 256 ^ n := by
    have h := x.isLt
    rwa [Nat.pow_mul] at h
  have hsize : 8 * n / 8 = n := Nat.mul_div_cancel_left n (by decide)
  have hcopy : Ring.copyIn (byte x.toNat) 0 [] = byte x.toNat := by
    funext i
    exact dif_neg fun h => absurd h.2 (Nat.not_lt_zero _)
  unfold overlay
  rw [hsize, hcopy, value_byte, Nat.mod_eq_of_lt hlt, BitVec.ofNat_toNat, BitVec.setWidth_eq]

/-- A number copied over a variable of its size. -/
theorem overlay_bytes {n : Nat} (x y : BitVec (8 * n)) : overlay x (bytes n y.toNat) = y := by
  have hlt : y.toNat < 256 ^ n := by
    have h := y.isLt
    rwa [Nat.pow_mul] at h
  have hsize : 8 * n / 8 = n := Nat.mul_div_cancel_left n (by decide)
  unfold overlay
  rw [hsize, value_copyIn, Nat.mod_eq_of_lt hlt, BitVec.ofNat_toNat, BitVec.setWidth_eq]

end Little
