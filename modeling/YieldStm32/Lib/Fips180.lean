import Mathlib.Algebra.Group.Nat.Defs
import Mathlib.Data.Nat.Find
import YieldStm32.Lib.Blockwise

/-!
# The secure hash standard

SHA-1, SHA-224 and SHA-256 of messages in whole bytes, by their definitions.

* `pad` : a message with the bit that ends it, zeros and its length; `zeros_spec` : there are as few zeros as possible;
* `hash` : a compression function over the blocks of a padded message;
* `Sha1.digest`, `Sha2.digest256`, `Sha2.digest224` : the message digests;
* `floorRoot` : the roots that the constants of SHA-2 are taken from.
-/

namespace Fips180

abbrev Word := BitVec 32

/-- The words of a block. -/
abbrev Block := Fin 16 → Word

/-! ## Messages -/

/-- The first byte is the highest. -/
def wordBytes (x : Word) : List UInt8 :=
  [.ofBitVec (x.extractLsb' 24 8), .ofBitVec (x.extractLsb' 16 8), .ofBitVec (x.extractLsb' 8 8), .ofBitVec (x.extractLsb' 0 8)]

/-- The length of a message in bits, as two words. -/
def lengthBytes (l : BitVec 64) : List UInt8 := wordBytes (l.extractLsb' 32 32) ++ wordBytes (l.extractLsb' 0 32)

/-- The zero bytes behind a message of `l` bytes and the byte that ends it. -/
def zeros (l : Nat) : Nat := (119 - l % 64) % 64

theorem zeros_spec (l : Nat) : (l + 1 + zeros l) % 64 = 56 ∧ ∀ k, (l + 1 + k) % 64 = 56 → zeros l ≤ k := by
  unfold zeros
  refine ⟨by omega, fun k hk => by omega⟩

def pad (msg : List UInt8) : List UInt8 :=
  msg ++ 0x80 :: (List.replicate (zeros msg.length) 0 ++ lengthBytes (BitVec.ofNat 64 (8 * msg.length)))

/-- The words of a block of 64 bytes. -/
def block (bytes : List UInt8) : Block := fun t =>
  let byte (i : Nat) : BitVec 8 := (bytes.getD (4 * t + i) 0).toBitVec
  (byte 0 ++ byte 1 : BitVec 16) ++ (byte 2 ++ byte 3 : BitVec 16)

/-- The hash value of a message. -/
def hash {η : Type} (compress : η → Block → η) (iv : η) (msg : List UInt8) : η :=
  Blockwise.foldBlocks 64 (fun h bytes => compress h (block bytes)) iv (pad msg)

/-! ## Functions -/

def ch (x y z : Word) : Word := (x &&& y) ^^^ (~~~ x &&& z)

def parity (x y z : Word) : Word := x ^^^ y ^^^ z

def maj (x y z : Word) : Word := (x &&& y) ^^^ (x &&& z) ^^^ (y &&& z)

/-! ## SHA-1 -/

namespace Sha1

def f (t : Nat) (x y z : Word) : Word :=
  if t < 20 then ch x y z else if t < 40 then parity x y z else if t < 60 then maj x y z else parity x y z

def k (t : Nat) : Word :=
  if t < 20 then 0x5a827999 else if t < 40 then 0x6ed9eba1 else if t < 60 then 0x8f1bbcdc else 0xca62c1d6

/-- The message schedule. -/
def schedule (m : Block) (t : Nat) : Word :=
  if h : t < 16 then m ⟨t, h⟩
  else (schedule m (t - 3) ^^^ schedule m (t - 8) ^^^ schedule m (t - 14) ^^^ schedule m (t - 16)).rotateLeft 1

structure Vars where
  a : Word
  b : Word
  c : Word
  d : Word
  e : Word

def step (m : Block) (v : Vars) (t : Nat) : Vars where
  a := v.a.rotateLeft 5 + f t v.b v.c v.d + v.e + k t + schedule m t
  b := v.a
  c := v.b.rotateLeft 30
  d := v.c
  e := v.d

def steps (m : Block) (v : Vars) : Vars := (List.range 80).foldl (step m) v

def compress (h : Vector Word 5) (m : Block) : Vector Word 5 :=
  let v := steps m ⟨h.get 0, h.get 1, h.get 2, h.get 3, h.get 4⟩
  #v[v.a + h.get 0, v.b + h.get 1, v.c + h.get 2, v.d + h.get 3, v.e + h.get 4]

def iv : Vector Word 5 := #v[0x67452301, 0xefcdab89, 0x98badcfe, 0x10325476, 0xc3d2e1f0]

/-- The message digest. -/
def digest (msg : List UInt8) : List UInt8 := (hash compress iv msg).toList.flatMap wordBytes

end Sha1

/-! ## SHA-224 and SHA-256 -/

namespace Sha2

def bigSigma0 (x : Word) : Word := x.rotateRight 2 ^^^ x.rotateRight 13 ^^^ x.rotateRight 22

def bigSigma1 (x : Word) : Word := x.rotateRight 6 ^^^ x.rotateRight 11 ^^^ x.rotateRight 25

def smallSigma0 (x : Word) : Word := x.rotateRight 7 ^^^ x.rotateRight 18 ^^^ x >>> 3

def smallSigma1 (x : Word) : Word := x.rotateRight 17 ^^^ x.rotateRight 19 ^^^ x >>> 10

/-- The integer part of a root. -/
def floorRoot (n a : Nat) : Nat := Nat.findGreatest (fun r => r ^ n ≤ a) a

theorem floorRoot_eq {n a r : Nat} (hn : n ≠ 0) (hle : r ^ n ≤ a) (hlt : a < (r + 1) ^ n) : floorRoot n a = r := by
  unfold floorRoot
  rw [Nat.findGreatest_eq_iff]
  refine ⟨Nat.le_trans (Nat.le_self_pow hn r) hle, fun _ => hle, fun k hk _ hpow => ?_⟩
  exact Nat.not_le.2 hlt (Nat.le_trans (Nat.pow_le_pow_left hk n) hpow)

/-- The first 64 primes. -/
def primes : List Nat :=
  [2, 3, 5, 7, 11, 13, 17, 19, 23, 29, 31, 37, 41, 43, 47, 53, 59, 61, 67, 71, 73, 79, 83, 89, 97, 101, 103, 107, 109, 113, 127,
    131, 137, 139, 149, 151, 157, 163, 167, 173, 179, 181, 191, 193, 197, 199, 211, 223, 227, 229, 233, 239, 241, 251, 257, 263,
    269, 271, 277, 281, 283, 293, 307, 311]

/-- Bits `s - 31` to `s` behind the point, of the root of a number. -/
def rootBits (n s p : Nat) : Word := BitVec.ofNat 32 (floorRoot n (p * 2 ^ (n * s)))

/-- The bits, from the root with `i` in front of them. -/
theorem rootBits_eq {n s p i : Nat} {w : Word} (hn : n ≠ 0) (hle : (i * 2 ^ 32 + w.toNat) ^ n ≤ p * 2 ^ (n * s))
    (hlt : p * 2 ^ (n * s) < (i * 2 ^ 32 + w.toNat + 1) ^ n) : rootBits n s p = w := by
  have hw : (i * 2 ^ 32 + w.toNat) % 2 ^ 32 = w.toNat := by
    rw [Nat.add_comm, Nat.add_mul_mod_self_right, Nat.mod_eq_of_lt w.isLt]
  rw [rootBits, floorRoot_eq hn hle hlt]
  refine BitVec.eq_of_toNat_eq ?_
  rw [BitVec.toNat_ofNat, hw]

/-- The first 32 bits of the fractional parts of the cube roots of the primes. -/
def k (t : Nat) : Word := rootBits 3 32 (primes.getD t 0)

/-- The message schedule. -/
def schedule (m : Block) (t : Nat) : Word :=
  if h : t < 16 then m ⟨t, h⟩
  else smallSigma1 (schedule m (t - 2)) + schedule m (t - 7) + smallSigma0 (schedule m (t - 15)) + schedule m (t - 16)

structure Vars where
  a : Word
  b : Word
  c : Word
  d : Word
  e : Word
  f : Word
  g : Word
  h : Word

def step (m : Block) (v : Vars) (t : Nat) : Vars :=
  let t1 := v.h + bigSigma1 v.e + ch v.e v.f v.g + k t + schedule m t
  let t2 := bigSigma0 v.a + maj v.a v.b v.c
  ⟨t1 + t2, v.a, v.b, v.c, v.d + t1, v.e, v.f, v.g⟩

def steps (m : Block) (v : Vars) : Vars := (List.range 64).foldl (step m) v

def compress (h : Vector Word 8) (m : Block) : Vector Word 8 :=
  let v := steps m ⟨h.get 0, h.get 1, h.get 2, h.get 3, h.get 4, h.get 5, h.get 6, h.get 7⟩
  #v[v.a + h.get 0, v.b + h.get 1, v.c + h.get 2, v.d + h.get 3, v.e + h.get 4, v.f + h.get 5, v.g + h.get 6, v.h + h.get 7]

/-- The first 32 bits of the fractional parts of the square roots of the first eight primes. -/
def iv256 : Vector Word 8 := .ofFn fun i => rootBits 2 32 (primes.getD i 0)

/-- The second 32 bits of those of the next eight. -/
def iv224 : Vector Word 8 := .ofFn fun i => rootBits 2 64 (primes.getD (8 + i) 0)

/-- The message digests. -/
def digest256 (msg : List UInt8) : List UInt8 := (hash compress iv256 msg).toList.flatMap wordBytes

def digest224 (msg : List UInt8) : List UInt8 := ((hash compress iv224 msg).toList.flatMap wordBytes).take 28

end Sha2

end Fips180
