import YieldStm32.Lib.Fips180
import YieldStm32.Lib.Ring

/-!
# Hash functions fed in chunks (`util/src/sha1.c`, `util/src/sha2.c`)

`SHA1_Digest` and `SHA2_Digest` are the same function but for the number of words of a state and the function that takes a
block in. The machine is little-endian, the functions are big-endian.

* `DigestState` : `sha1_state_t` and `sha2_state_t`; `DigestState.bytes` : its memory from the hash words on;
* `digest` : the two functions;
* `getHashVal`, `getHashStr` : what the functions of these names do once they know how long the value is.
-/

namespace YieldStm32.Digest

open Fips180 (Word Block)

inductive Err where
  | eok
  | eargval
deriving DecidableEq

/-- `(x << bits) | (x >> (32 - bits))` -/
def lrot32 (x : Word) (bits : Nat) : Word := x <<< bits ||| x >>> (32 - bits)

/-- `(x >> bits) | (x << (32 - bits))` -/
def rrot32 (x : Word) (bits : Nat) : Word := x >>> bits ||| x <<< (32 - bits)

/-- `HTOBE32`, `BETOH32` -/
def htobe32 (x : Word) : Word :=
  (x &&& 0x000000ff) <<< 24 ||| (x &&& 0x0000ff00) <<< 8 ||| (x &&& 0x00ff0000) >>> 8 ||| (x &&& 0xff000000) >>> 24

/-- The bytes of a word in memory. -/
def leBytes (x : Word) : List UInt8 :=
  [.ofBitVec (x.extractLsb' 0 8), .ofBitVec (x.extractLsb' 8 8), .ofBitVec (x.extractLsb' 16 8), .ofBitVec (x.extractLsb' 24 8)]

/-- `w.u32[i]` -/
def u32 (w : Nat → UInt8) (i : Nat) : Word :=
  ((w (4 * i + 3)).toBitVec ++ (w (4 * i + 2)).toBitVec : BitVec 16) ++
    ((w (4 * i + 1)).toBitVec ++ (w (4 * i)).toBitVec : BitVec 16)

/-- `w.u32[i] = x` -/
def setU32 (w : Nat → UInt8) (i : Nat) (x : Word) : Nat → UInt8 := Ring.copyIn w (4 * i) (leBytes x)

/-- `s->w.u32[i] = HTOBE32(s->w.u32[i])`, for all of them -/
def swapWords (w : Nat → UInt8) : Nat → UInt8 :=
  (List.range 16).foldl (fun w i => setU32 w i (htobe32 (u32 w i))) w

/-- The words of a message that are computed from the ones before, up to `n`. -/
def schedule (n : Nat) (next : (Nat → Word) → Nat → Word) (input : Block) : Nat → Word :=
  (List.range' 16 (n - 16)).foldl (fun out i => fun j => if j = i then next out i else out j)
    fun j => if h : j < 16 then input ⟨j, h⟩ else 0

/-- `sha1_state_t`, and `sha2_state_t` but for its type. -/
structure DigestState (n : Nat) where
  h : Vector Word n
  totalLen : BitVec 32
  wLen : Nat
  w : Nat → UInt8
  finalized : Int

namespace DigestState

variable {n : Nat}

/-- The memory of a state, from `h` on. -/
def bytes (s : DigestState n) : List UInt8 :=
  s.h.toList.flatMap leBytes ++ leBytes s.totalLen ++ leBytes (BitVec.ofNat 32 s.wLen) ++ Ring.copyOut s.w 0 64 ++
    leBytes (BitVec.ofInt 32 s.finalized)

/-- `memcpy(s->w.u8 + s->w_len, p, b_copy)`, with `s->w_len += b_copy` -/
def fill (s : DigestState n) (p : List UInt8) : DigestState n :=
  { s with w := Ring.copyIn s.w s.wLen p, wLen := s.wLen + p.length }

/-- `memset(s->w.u8 + s->w_len, 0, b_left)`, and the trailing bit -/
def clear (s : DigestState n) (bLeft : Nat) (trailing : Bool) : DigestState n :=
  let w := Ring.copyIn s.w s.wLen (List.replicate bLeft 0)
  { s with w := if trailing then w else Ring.copyIn w s.wLen [0x80] }

/-- The number of bits, in the last two words. -/
def putLength (s : DigestState n) : DigestState n :=
  let totalBits : BitVec 64 := s.totalLen.zeroExtend 64 * 8
  { s with
    w := setU32 (setU32 s.w 14 (htobe32 ((totalBits >>> 32).truncate 32))) 15 (htobe32 (totalBits.truncate 32)) }

/-- The buffer is taken in. -/
def process (compress : Vector Word n → Block → Vector Word n) (s : DigestState n) : DigestState n :=
  let w := swapWords s.w
  { s with w, h := compress s.h fun t => u32 w t, wLen := 0 }

end DigestState

variable {n : Nat} (compress : Vector Word n → Block → Vector Word n)

/-- The loop, where `p` is the data that remain: whether it went on to its end, or has returned before. -/
def digestLoop (final : Int) (s : DigestState n) (p : List UInt8) (trailing : Bool) : Bool × DigestState n :=
  let bCopy := min (64 - s.wLen) p.length
  let bLeft := 64 - s.wLen - bCopy
  let full := if bCopy ≠ 0 then s.fill (p.take bCopy) else s
  if bLeft ≠ 0 ∧ final = 0 then (false, full)
  else
    let padded := if bLeft ≠ 0 then full.clear bLeft trailing else full
    if 8 < bLeft then (true, padded.putLength.process compress)
    else digestLoop final (padded.process compress) (p.drop bCopy) (trailing || decide (bLeft ≠ 0))
termination_by 2 * p.length + s.wLen
decreasing_by
  have hlen : (DigestState.process compress padded).wLen = 0 := rfl
  rw [hlen, List.length_drop]
  omega

/-- `SHA1_Digest`, `SHA2_Digest` -/
def digest (s : DigestState n) (final : Int) (p : List UInt8) : Err × DigestState n :=
  if s.finalized ≠ 0 then (.eargval, s)
  else
    let s := { s with totalLen := s.totalLen + BitVec.ofNat 32 p.length, finalized := final }
    match digestLoop compress final s p false with
    | (false, s) => (.eok, s)
    | (true, s) => (.eok, { s with h := s.h.map htobe32 })

/-- A state with these hash words, and zeros. -/
def initState (iv : Vector Word n) : DigestState n := ⟨iv, 0, 0, fun _ => 0, 0⟩

/-- `SHA1_GetHashVal`, `SHA2_GetHashVal` : what is returned, and what is written to the output. -/
def getHashVal (s : DigestState n) (byteCnt size : Nat) : Except Err Nat × List UInt8 :=
  if s.finalized = 0 then (.error .eargval, [])
  else (.ok (min size byteCnt), s.bytes.take (min size byteCnt))

/-- `digits[]` -/
def digitChars : List UInt8 := [48, 49, 50, 51, 52, 53, 54, 55, 56, 57, 97, 98, 99, 100, 101, 102]

/-- `SHA1_GetHashStr`, `SHA2_GetHashStr` -/
def getHashStr (s : DigestState n) (charCnt size : Nat) : Except Err Nat × List UInt8 :=
  if s.finalized = 0 then (.error .eargval, [])
  else if size = 0 then (.ok 0, [])
  else
    let size := if charCnt + 1 < size then charCnt + 1 else size
    let str := (List.range (size - 1)).map fun i =>
      let b := (s.bytes.getD (i / 2) 0).toNat
      digitChars.getD (if i % 2 ≠ 0 then b &&& 0xf else b >>> 4) 0
    (.ok size, str ++ [0])

end YieldStm32.Digest
