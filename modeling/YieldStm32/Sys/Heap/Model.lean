import Mathlib.Data.Nat.ModEq
import YieldStm32.Lib.WordMem

/-!
# The heap allocator (`sys/src/heap.c`)

The heap is the word memory itself: a block is its header in memory, a link is an address, and every address and size
is computed modulo `2 ^ 32` as the C code computes it. A read or a write through a null link has no result (`none`);
neither has a walk along the list that does not end.
-/

namespace YieldStm32.Heap

/-- `SYS_HEAP_SIZE` (`config.h`). -/
def SYS_HEAP_SIZE : Nat := 36 * 1024

/-- `sizeof(block_t)`: `used`, `size`, `prev`, `next`, four bytes each. -/
def blockHdr : Nat := 16

/-- The word that marks a used block and the end of the heap. -/
def DEADC0DE : Nat := 0xdeadc0de

/-- 32-bit arithmetic of `size_t` and `uintptr_t`. -/
def u32 (x : Nat) : Nat := x % 2 ^ 32

/-- Where the linker puts `heap[SYS_HEAP_SIZE]`. -/
structure Layout where
  heap : Nat
  aligned : heap % 8 = 0
  nonnull : 0 < heap
  fits : heap + SYS_HEAP_SIZE < 2 ^ 32

/-! ## Header fields -/

def offUsed : Nat := 0
def offSize : Nat := 4
def offPrev : Nat := 8
def offNext : Nat := 12

/-- `b->field` -/
def load (m : WordMem) (b off : Nat) : Option Nat :=
  if b = 0 then none else some (m (u32 (b + off)))

/-- `b->field = v` -/
def store (m : WordMem) (b off v : Nat) : Option WordMem :=
  if b = 0 then none else some (m.set (u32 (b + off)) v)

/-! ## `Heap_Init` -/

/-- One free block over the whole array, and the signature in its last four bytes. -/
def init (L : Layout) (m : WordMem) : WordMem :=
  let b := L.heap
  let m := m.set (u32 (b + offSize)) SYS_HEAP_SIZE
  let m := m.set (u32 (b + offPrev)) 0
  let m := m.set (u32 (b + offNext)) 0
  let m := m.set (u32 (b + offUsed)) 0
  m.set (u32 (L.heap + SYS_HEAP_SIZE - 4)) DEADC0DE

/-! ## `Heap_Malloc` -/

/-- `size = ((size + 7) & ~0x7) + sizeof(block_t)` -/
def total (size : Nat) : Nat := u32 ((u32 (size + 7) &&& 0xfffffff8) + blockHdr)

/-- `!best_fit || (b->size >= size && b->size < best_fit->size)` -/
def better (m : WordMem) (size bsize best : Nat) : Option Bool :=
  if best = 0 then some true
  else (load m best offSize).map fun bestSize => decide (size ≤ bsize ∧ bsize < bestSize)

/-- The loop over the list: `b` is the block visited, `best` the best fit so far (null before the first free block). -/
def search (m : WordMem) (size : Nat) : (fuel b best : Nat) → Option Nat
  | 0, _, _ => none
  | fuel + 1, b, best =>
    if b = 0 then some best
    else do
      let used ← load m b offUsed
      let bsize ← load m b offSize
      let next ← load m b offNext
      if used ≠ 0 then search m size fuel next best
      else if (← better m size bsize best) then
        if bsize = size then some b else search m size fuel next b
      else search m size fuel next best

/-- More blocks than the heap can hold. -/
def searchFuel : Nat := SYS_HEAP_SIZE / blockHdr + 1

/-- The split of `best` into a block of `size` bytes and a new free block behind it. -/
def split (m : WordMem) (best size : Nat) : Option WordMem := do
  let newBlock := u32 (best + size)
  let m ← store m newBlock offPrev best
  let m ← store m newBlock offNext (← load m best offNext)
  let m ← store m newBlock offSize (u32 ((← load m best offSize) + 2 ^ 32 - size))
  let m ← store m newBlock offUsed 0
  let m ← store m best offNext newBlock
  store m best offSize size

/-- The split is made where the rest can hold a header and something more. -/
def splitIfWorth (m : WordMem) (best size : Nat) : Option WordMem := do
  if u32 (size + 2 * blockHdr) ≤ (← load m best offSize) then split m best size else some m

/-- `Heap_Malloc`: the pointer returned (null if nothing was found) and the memory after the call. -/
def malloc (L : Layout) (m : WordMem) (size : Nat) : Option (Nat × WordMem) := do
  let size := total size
  let best ← search m size searchFuel L.heap 0
  if best = 0 then some (0, m)
  else do
    let m ← splitIfWorth m best size
    let m ← store m best offUsed DEADC0DE
    some (u32 (best + blockHdr), m)

/-! ## `Heap_Free` -/

/-- `x->size += y->size, x->next = y->next, y->next->prev = x` -/
def join (m : WordMem) (x y : Nat) : Option WordMem := do
  let m ← store m x offSize (u32 ((← load m x offSize) + (← load m y offSize)))
  let m ← store m x offNext (← load m y offNext)
  store m (← load m y offNext) offPrev x

/-- The block is there and not in use. -/
def isFree (m : WordMem) (b : Nat) : Option Bool :=
  if b = 0 then some false else (load m b offUsed).map fun u => decide (u = 0)

/-- Join `b` with the next segment if it's free. -/
def joinNext (m : WordMem) (b : Nat) : Option WordMem := do
  let nb ← load m b offNext
  if (← isFree m nb) then join m b nb else some m

/-- Join `b` with the previous segment if it's free. -/
def joinPrev (m : WordMem) (b : Nat) : Option WordMem := do
  let pb ← load m b offPrev
  if (← isFree m pb) then join m pb b else some m

/-- `Heap_Free` -/
def free (m : WordMem) (ptr : Nat) : Option WordMem :=
  if ptr = 0 then some m
  else do
    let b := u32 (ptr + 2 ^ 32 - blockHdr)
    let m ← store m b offUsed 0
    let m ← joinNext m b
    joinPrev m b

end YieldStm32.Heap
