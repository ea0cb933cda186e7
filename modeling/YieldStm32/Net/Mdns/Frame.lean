import Mathlib.Logic.Function.Basic
import YieldStm32.Lib.Loop

/-!
# Names in mDNS frames (`net/mdns/src/frame.c`)

A frame is its size and the memory from its start on, so that bytes behind its end have values too. Pointers are offsets
from the start of the frame, and from the start of the destination.

* `decodeName` : at most so many passes of the loop of `MDNSFrame_DecodeName`, and what it returns if they end it;
* `encodeName` : the same of `MDNSFrame_EncodeName`;
* `log` : the accesses to the frame and to the destination, as they are made.
-/

namespace YieldStm32.Mdns

/-- A byte of the frame is read, or one of the destination is written. -/
inductive Access where
  | read (i : Nat)
  | write (i : Nat)
deriving DecidableEq

abbrev efatal : Int := -1

abbrev eargval : Int := -3

/-- `'.'` -/
abbrev dot : UInt8 := 46

/-! ## Decoding -/

/-- The variables of `MDNSFrame_DecodeName`, and its destination. -/
structure Decoder where
  s : Nat
  d : Nat
  dst : Nat → UInt8
  consumed : Nat
  /-- `pointer_was_used` -/
  jumped : Bool
  log : List Access

namespace Decoder

/-- A byte of the frame is looked at. -/
def peek (c : Decoder) (i : Nat) : Decoder := { c with log := c.log ++ [.read i] }

/-- `dst[i] = v` -/
def write (c : Decoder) (i : Nat) (v : UInt8) : Decoder :=
  { c with dst := Function.update c.dst i v, log := c.log ++ [.write i] }

/-- `*d++ = v` -/
def put (c : Decoder) (v : UInt8) : Decoder := { c.write c.d v with d := c.d + 1 }

/-- `if (!pointer_was_used) bconsumed += n` -/
def consume (c : Decoder) (n : Nat) : Decoder :=
  { c with consumed := if c.jumped then c.consumed else c.consumed + n }

/-- `for (...; i > 0 && i--;) *d++ = *s++` -/
def copy (m : Nat → UInt8) : Nat → Decoder → Decoder
  | 0, c => c
  | n + 1, c => copy m n ({ c.peek c.s with s := c.s + 1 }.put (m c.s))

/-- `d - ds ? (d[-1] = 0) : (*d++ = 0)` -/
def terminate (c : Decoder) : Decoder := if c.d ≠ 0 then c.write (c.d - 1) 0 else c.put 0

/-- A label, where `left` bytes of the frame are left. -/
def label (m : Nat → UInt8) (dstSize left : Nat) (c : Decoder) : Option Int × Decoder :=
  let size := (m c.s).toNat
  let c := { c with s := c.s + 1 }
  if left - 1 < size ∨ dstSize - c.d < size + 1 then (some eargval, c)
  else
    let c := c.consume (size + 1)
    if size = 0 then (some c.consumed, c.terminate)
    else (none, (copy m size c).put dot)

/-- `((s[0] & 0x3f) << 8) | s[1]` -/
def target (m : Nat → UInt8) (s : Nat) : Nat := ((m s).toNat &&& 0x3f) <<< 8 ||| (m (s + 1)).toNat

/-- A pointer. -/
def pointer (m : Nat → UInt8) (c : Decoder) : Decoder :=
  { (c.peek (c.s + 1)).consume 2 with jumped := true, s := target m c.s }

/-- A pass of the loop. -/
def pass (m : Nat → UInt8) (frameSize dstSize : Nat) (c : Decoder) : Option Int × Decoder :=
  let left := frameSize - c.s
  let b := (m c.s).toNat
  -- `*s` is evaluated behind `bleft >= 1` only
  let c := if 1 ≤ left then c.peek c.s else c
  if 1 ≤ left ∧ b < 0x40 then c.label m dstSize left
  else if 2 ≤ left ∧ 0xc0 ≤ b then (none, c.pointer m)
  else (some efatal, c)

/-- The variables before the loop. -/
def start (offset : Nat) (dst : Nat → UInt8) : Decoder := ⟨offset, 0, dst, 0, false, []⟩

end Decoder

/-- `MDNSFrame_DecodeName`, up to `k` passes of its loop. -/
def decodeName (m : Nat → UInt8) (frameSize offset dstSize : Nat) (dst : Nat → UInt8) (k : Nat) : Option Int × Decoder :=
  Loop.passes (Decoder.pass m frameSize dstSize) k (.start offset dst)

/-! ## Encoding -/

/-- The variables of `MDNSFrame_EncodeName`, and its destination. `s` is the name from the pointer on, without its
terminator. -/
structure Encoder where
  s : List UInt8
  d : Nat
  dst : Nat → UInt8
  dstSize : Nat
  log : List Nat

namespace Encoder

/-- `*s` -/
def char (e : Encoder) : UInt8 := e.s.headD 0

/-- `dst[i] = v` -/
def write (e : Encoder) (i : Nat) (v : UInt8) : Encoder :=
  { e with dst := Function.update e.dst i v, log := e.log ++ [i] }

/-- `for (...; *s && *s != '.' && (dst_size - 1); dst_size--) *dl++ = *s++`: the last `dl`, and what the loop leaves. -/
def copy : List UInt8 → Nat → Encoder → Nat × Encoder
  | [], dl, e => (dl, e)
  | c :: s, dl, e =>
      if c ≠ 0 ∧ c ≠ dot ∧ e.dstSize - 1 ≠ 0 then
        copy s (dl + 1) { e.write dl c with s := s, dstSize := e.dstSize - 1 }
      else (dl, e)

/-- A pass of the loop, or what follows it. -/
def pass (e : Encoder) : Option Int × Encoder :=
  if e.char = 0 then
    if e.dstSize = 0 then (some efatal, e) else (some (e.d + 1), e.write e.d 0)
  else if e.dstSize < 1 then (some efatal, e)
  else
    let (dl, e) := copy e.s (e.d + 1) e
    if (e.char ≠ 0 ∧ e.char ≠ dot) ∨ 0x40 < dl - e.d ∨ (e.char ≠ 0 ∧ dl - e.d = 1) then (some efatal, e)
    else
      let e := { e.write e.d (UInt8.ofNat (dl - e.d - 1)) with d := dl }
      (none, if e.char ≠ 0 then { e with s := e.s.tail } else e)

/-- The variables before the loop. -/
def start (name : List UInt8) (dst : Nat → UInt8) (dstSize : Nat) : Encoder := ⟨name, 0, dst, dstSize, []⟩

end Encoder

/-- `MDNSFrame_EncodeName`, up to `k` passes of its loop. -/
def encodeName (name : List UInt8) (dst : Nat → UInt8) (dstSize k : Nat) : Option Int × Encoder :=
  Loop.passes Encoder.pass k (.start name dst dstSize)

end YieldStm32.Mdns
