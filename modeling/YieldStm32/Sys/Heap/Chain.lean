import YieldStm32.Sys.Heap.Model

/-!
# The block list in memory

* `Seg m e p a bs` : the headers of the consecutive blocks `bs` lie in `m` from `a` on, linked both ways; the first
  one's `prev` is `p`, the last one's `next` is `e`. `seg_append` cuts it, `Seg.congr` moves it to another memory;
* `Intact L m bs` : the list from the heap's first byte on is `bs` and tiles the heap;
* `blocks L m` : the list as a walk along `next` finds it (`Intact.blocks_eq`);
* `join_seg`, `split_seg`, `mark_seg` : what the three edits of the allocator do to the list.
-/

namespace YieldStm32.Heap

open WordMem Tiling

/-- A block as a walk along the list sees it. -/
structure Block where
  used : Bool
  size : Nat
deriving DecidableEq, Repr

/-- The word `used` holds. -/
def usedWord (u : Bool) : Nat := if u then DEADC0DE else 0

/-- The header of block `b` at `a`. -/
structure Hdr (m : WordMem) (a : Nat) (b : Block) (p n : Nat) : Prop where
  used : m (a + offUsed) = usedWord b.used
  size : m (a + offSize) = b.size
  prev : m (a + offPrev) = p
  next : m (a + offNext) = n

/-- The address `x` of what follows, `e` if nothing does. -/
def link (bs : List Block) (x e : Nat) : Nat := if bs = [] then e else x

/-- Consecutive, doubly linked blocks from `a` on. -/
def Seg (m : WordMem) (e : Nat) : (p a : Nat) → List Block → Prop
  | _, _, [] => True
  | p, a, b :: bs => Hdr m a b p (link bs (a + b.size) e) ∧ Seg m e a (a + b.size) bs

/-- The address of the last block, `p` if there is none. -/
def lastAddr : (p a : Nat) → List Block → Nat
  | p, _, [] => p
  | _, a, b :: bs => lastAddr a (a + b.size) bs

/-- Every block holds at least its header and keeps the next one aligned. -/
def Sized (bs : List Block) : Prop := ∀ b ∈ bs, blockHdr ≤ b.size ∧ b.size % 8 = 0

/-- **The block list tiles the heap**: it starts at the heap's first byte, each `next` is the block's address plus its
size (null for the last one), each `prev` points back (null for the first one), and the sizes add up to the heap's. -/
structure Intact (L : Layout) (m : WordMem) (bs : List Block) : Prop where
  seg : Seg m 0 0 L.heap bs
  sum : span Block.size bs = SYS_HEAP_SIZE
  sized : Sized bs

/-! ## Links -/

@[simp] theorem link_nil (x e : Nat) : link [] x e = e := rfl

@[simp] theorem link_cons (b : Block) (bs : List Block) (x e : Nat) : link (b :: bs) x e = x := rfl

@[simp] theorem lastAddr_append (p a : Nat) (xs : List Block) (b : Block) :
    lastAddr p a (xs ++ [b]) = a + span Block.size xs := by
  induction xs generalizing p a with
  | nil => simp [lastAddr]
  | cons x xs ih => rw [List.cons_append, lastAddr, ih, span_cons, Nat.add_assoc]

theorem Sized.cons {b : Block} {bs : List Block} (h : Sized (b :: bs)) : Sized bs :=
  fun c hc => h c (List.mem_cons_of_mem _ hc)

theorem sized_append {xs ys : List Block} : Sized (xs ++ ys) ↔ Sized xs ∧ Sized ys := by
  simp only [Sized, List.mem_append]
  constructor
  · intro h
    exact ⟨fun b hb => h b (Or.inl hb), fun b hb => h b (Or.inr hb)⟩
  · rintro ⟨h1, h2⟩ b (hb | hb)
    · exact h1 b hb
    · exact h2 b hb

theorem sized_cons {b : Block} {bs : List Block} :
    Sized (b :: bs) ↔ (blockHdr ≤ b.size ∧ b.size % 8 = 0) ∧ Sized bs := by
  simp [Sized]

theorem Sized.span_mod {bs : List Block} (h : Sized bs) : span Block.size bs % 8 = 0 := by
  induction bs with
  | nil => rfl
  | cons b bs ih =>
      obtain ⟨⟨-, hb⟩, hbs⟩ := sized_cons.1 h
      have := ih hbs
      rw [span_cons]
      omega

/-- A block needs at least a header, so a list has at most a sixteenth of its length in blocks. -/
theorem Sized.length_le {bs : List Block} (h : Sized bs) : blockHdr * bs.length ≤ span Block.size bs := by
  induction bs with
  | nil => simp
  | cons b bs ih =>
      obtain ⟨⟨hb, -⟩, hbs⟩ := sized_cons.1 h
      have := ih hbs
      rw [span_cons, List.length_cons, Nat.mul_succ]
      omega

/-! ## Segments -/

theorem seg_append (m : WordMem) (e p a : Nat) (xs ys : List Block) :
    Seg m e p a (xs ++ ys) ↔ Seg m (link ys (a + span Block.size xs) e) p a xs ∧
      Seg m e (lastAddr p a xs) (a + span Block.size xs) ys := by
  induction xs generalizing p a with
  | nil => simp [Seg, lastAddr]
  | cons x xs ih =>
      have hl : link (xs ++ ys) (a + x.size) e =
          link xs (a + x.size) (link ys (a + span Block.size (x :: xs)) e) := by
        cases xs with
        | nil => simp
        | cons y xs => rfl
      rw [List.cons_append, Seg, ih, Seg, lastAddr, hl, span_cons, ← Nat.add_assoc, and_assoc]

/-- The header words of `a` are those of its first sixteen bytes. -/
theorem Hdr.congr {m m' : WordMem} {a p n : Nat} {b : Block} (h : Hdr m a b p n)
    (hm : Agree m m' fun x => a ≤ x ∧ x < a + blockHdr) : Hdr m' a b p n where
  used := (hm _ (by simp [offUsed, blockHdr])).trans h.used
  size := (hm _ (by simp [offSize, blockHdr])).trans h.size
  prev := (hm _ (by simp [offPrev, blockHdr])).trans h.prev
  next := (hm _ (by simp [offNext, blockHdr])).trans h.next

/-- A segment depends on the words of its own range only. -/
theorem Seg.congr {m m' : WordMem} {e p a : Nat} {bs : List Block} (h : Seg m e p a bs) (hs : Sized bs)
    (hm : Agree m m' fun x => a ≤ x ∧ x < a + span Block.size bs) : Seg m' e p a bs := by
  induction bs generalizing p a with
  | nil => trivial
  | cons b bs ih =>
      obtain ⟨⟨hb, -⟩, hbs⟩ := sized_cons.1 hs
      rw [span_cons] at hm
      refine ⟨h.1.congr (hm.mono fun x hx => ?_), ih h.2 hbs (hm.mono fun x hx => ?_)⟩ <;> omega

/-- A segment opened at one of its blocks. -/
theorem seg_focus (m : WordMem) (e p a : Nat) (xs ys : List Block) (b : Block) :
    Seg m e p a (xs ++ b :: ys) ↔ Seg m (a + span Block.size xs) p a xs ∧
      Hdr m (a + span Block.size xs) b (lastAddr p a xs) (link ys (a + span Block.size xs + b.size) e) ∧
      Seg m e (a + span Block.size xs) (a + span Block.size xs + b.size) ys := by
  rw [seg_append, link_cons, Seg]

/-! ## Header accesses -/

/-- The layout of a header, for `omega`. -/
theorem offs : offUsed = 0 ∧ offSize = 4 ∧ offPrev = 8 ∧ offNext = 12 ∧ blockHdr = 16 := ⟨rfl, rfl, rfl, rfl, rfl⟩

theorem u32_of_lt {x : Nat} (h : x < 2 ^ 32) : u32 x = x := Nat.mod_eq_of_lt h

theorem load_eq (m : WordMem) {b off : Nat} (hb : 0 < b) (h : b + off < 2 ^ 32) :
    load m b off = some (m (b + off)) := by
  rw [load, if_neg (Nat.ne_of_gt hb), u32_of_lt h]

theorem store_eq (m : WordMem) {b off : Nat} (v : Nat) (hb : 0 < b) (h : b + off < 2 ^ 32) :
    store m b off v = some (m.set (b + off) v) := by
  rw [store, if_neg (Nat.ne_of_gt hb), u32_of_lt h]

/-! ## The edits -/

/-- Writing `used` of a block changes that block only. -/
theorem mark_seg {m : WordMem} {e p a : Nat} {xs ys : List Block} {b : Block}
    (h : Seg m e p a (xs ++ b :: ys)) (hs : Sized (xs ++ b :: ys)) (u : Bool) :
    Seg (m.set (a + span Block.size xs + offUsed) (usedWord u)) e p a (xs ++ ⟨u, b.size⟩ :: ys) := by
  have ho := offs
  obtain ⟨hxs, hb, hys⟩ := (seg_focus ..).1 h
  obtain ⟨sxs, sb⟩ := sized_append.1 hs
  obtain ⟨⟨sb, -⟩, sys⟩ := sized_cons.1 sb
  refine (seg_focus ..).2 ⟨hxs.congr sxs ((Agree.refl _ _).set (by omega)), ⟨set_self .., ?_, ?_, ?_⟩,
    hys.congr sys ((Agree.refl _ _).set (by omega))⟩
  · rw [set_ne _ _ (by omega), hb.size]
  · rw [set_ne _ _ (by omega), hb.prev]
  · rw [set_ne _ _ (by omega), hb.next]

/-- Joining a block with its successor `c`, when another block `d` follows. -/
theorem join_seg {m : WordMem} {e p a : Nat} {xs ys : List Block} {b c d : Block} (ha : 0 < a)
    (h : Seg m e p a (xs ++ b :: c :: d :: ys)) (hs : Sized (xs ++ b :: c :: d :: ys))
    (hfit : a + span Block.size (xs ++ b :: c :: d :: ys) < 2 ^ 32) :
    ∃ m', join m (a + span Block.size xs) (a + span Block.size xs + b.size) = some m' ∧
      Seg m' e p a (xs ++ ⟨b.used, b.size + c.size⟩ :: d :: ys) ∧
        Agree m m' fun w => a + span Block.size (xs ++ b :: c :: d :: ys) ≤ w + 4 := by
  have ho := offs
  obtain ⟨hxs, hb, hc, hd, hys⟩ := (seg_focus ..).1 h
  obtain ⟨sxs, sb⟩ := sized_append.1 hs
  obtain ⟨⟨sb, -⟩, sc⟩ := sized_cons.1 sb
  obtain ⟨⟨sc, -⟩, sd⟩ := sized_cons.1 sc
  obtain ⟨⟨sd, -⟩, sys⟩ := sized_cons.1 sd
  simp only [span_append, span_cons] at hfit
  simp only [link_cons] at hb hc
  generalize hx : a + span Block.size xs = x at *
  -- the three stores of `join`, with the addresses they go to
  refine ⟨((m.set (x + offSize) (b.size + c.size)).set (x + offNext) (x + b.size + c.size)).set
    (x + b.size + c.size + offPrev) x, ?_, (seg_focus ..).2 ?_, ?_⟩
  · rw [join, load_eq m (by omega) (by omega), load_eq m (by omega) (by omega), hb.size, hc.size]
    simp only [Option.bind_eq_bind, Option.bind_some]
    rw [u32_of_lt (by omega), store_eq m _ (by omega) (by omega), Option.bind_some,
      load_eq _ (by omega) (by omega), Option.bind_some, set_ne _ _ (by omega), hc.next,
      store_eq _ _ (by omega) (by omega), Option.bind_some, load_eq _ (by omega) (by omega), Option.bind_some,
      set_ne _ _ (by omega), set_ne _ _ (by omega), hc.next, store_eq _ _ (by omega) (by omega)]
  · simp only [hx, link_cons, ← Nat.add_assoc]
    refine ⟨hxs.congr sxs ?_, ⟨?_, ?_, ?_, ?_⟩, ⟨?_, ?_, ?_, ?_⟩, hys.congr sys ?_⟩
    · exact (((Agree.refl _ _).set (by omega)).set (by omega)).set (by omega)
    · rw [set_ne _ _ (by omega), set_ne _ _ (by omega), set_ne _ _ (by omega), hb.used]
    · rw [set_ne _ _ (by omega), set_ne _ _ (by omega), set_self]
    · rw [set_ne _ _ (by omega), set_ne _ _ (by omega), set_ne _ _ (by omega), hb.prev]
    · rw [set_ne _ _ (by omega), set_self]
    · rw [set_ne _ _ (by omega), set_ne _ _ (by omega), set_ne _ _ (by omega), hd.used]
    · rw [set_ne _ _ (by omega), set_ne _ _ (by omega), set_ne _ _ (by omega), hd.size]
    · rw [set_self]
    · rw [set_ne _ _ (by omega), set_ne _ _ (by omega), set_ne _ _ (by omega), hd.next]
    · exact (((Agree.refl _ _).set (by omega)).set (by omega)).set (by omega)
  · simp only [span_append, span_cons]
    exact (((Agree.refl _ _).set (by omega)).set (by omega)).set (by omega)

/-- The stores of `split`: four for the new header, then two for the block that is split. -/
theorem split_eq {m : WordMem} {x t n k : Nat} (hsize : m (x + offSize) = k) (hnext : m (x + offNext) = n) (hx : 0 < x)
    (ht : blockHdr ≤ t) (htk : t + 2 * blockHdr ≤ k) (hfit : x + k < 2 ^ 32) :
    split m x t = some ((((((m.set (x + t + offPrev) x).set (x + t + offNext) n).set (x + t + offSize) (k - t)).set
      (x + t + offUsed) 0).set (x + offNext) (x + t)).set (x + offSize) t) := by
  have ho := offs
  have hr : k + 2 ^ 32 - t = 2 ^ 32 + (k - t) := by omega
  rw [split, u32_of_lt (show x + t < 2 ^ 32 by omega), store_eq m _ (by omega) (by omega)]
  simp only [Option.bind_eq_bind, Option.bind_some]
  rw [load_eq _ (by omega) (by omega), Option.bind_some, set_ne _ _ (by omega), hnext,
    store_eq _ _ (by omega) (by omega), Option.bind_some, load_eq _ (by omega) (by omega), Option.bind_some,
    set_ne _ _ (by omega), set_ne _ _ (by omega), hsize, hr, u32, Nat.add_mod_left, Nat.mod_eq_of_lt (by omega),
    store_eq _ _ (by omega) (by omega), Option.bind_some, store_eq _ _ (by omega) (by omega), Option.bind_some,
    store_eq _ _ (by omega) (by omega), Option.bind_some, store_eq _ _ (by omega) (by omega)]

/-- Splitting the last block into `t` bytes and the rest. -/
theorem split_seg {m : WordMem} {p a t : Nat} {xs : List Block} {b : Block} (ha : 0 < a)
    (h : Seg m 0 p a (xs ++ [b])) (hs : Sized xs) (ht : blockHdr ≤ t) (htb : t + 2 * blockHdr ≤ b.size)
    (hfit : a + span Block.size (xs ++ [b]) < 2 ^ 32) :
    ∃ m', split m (a + span Block.size xs) t = some m' ∧
      Seg m' 0 p a (xs ++ [⟨b.used, t⟩, ⟨false, b.size - t⟩]) ∧
        Agree m m' fun w => a + span Block.size (xs ++ [b]) ≤ w + 4 := by
  have ho := offs
  obtain ⟨hxs, hb, -⟩ := (seg_focus ..).1 h
  simp only [span_append, span_cons, span_nil] at hfit
  rw [link_nil] at hb
  generalize hx : a + span Block.size xs = x at *
  refine ⟨_, split_eq hb.size hb.next (by omega) ht htb (by omega), (seg_focus ..).2 ?_, ?_⟩
  · simp only [hx, link_cons]
    refine ⟨hxs.congr hs ?_, ⟨?_, ?_, ?_, ?_⟩, ⟨?_, ?_, ?_, ?_⟩, trivial⟩
    · exact ((((((Agree.refl _ _).set (by omega)).set (by omega)).set (by omega)).set (by omega)).set
        (by omega)).set (by omega)
    · rw [set_ne _ _ (by omega), set_ne _ _ (by omega), set_ne _ _ (by omega), set_ne _ _ (by omega),
        set_ne _ _ (by omega), set_ne _ _ (by omega), hb.used]
    · rw [set_self]
    · rw [set_ne _ _ (by omega), set_ne _ _ (by omega), set_ne _ _ (by omega), set_ne _ _ (by omega),
        set_ne _ _ (by omega), set_ne _ _ (by omega), hb.prev]
    · rw [set_ne _ _ (by omega), set_self]
    · rw [set_ne _ _ (by omega), set_ne _ _ (by omega), set_self]
      rfl
    · rw [set_ne _ _ (by omega), set_ne _ _ (by omega), set_ne _ _ (by omega), set_self]
    · rw [set_ne _ _ (by omega), set_ne _ _ (by omega), set_ne _ _ (by omega), set_ne _ _ (by omega),
        set_ne _ _ (by omega), set_self]
    · rw [set_ne _ _ (by omega), set_ne _ _ (by omega), set_ne _ _ (by omega), set_ne _ _ (by omega), set_self,
        link_nil]
  · simp only [span_append, span_cons, span_nil]
    exact ((((((Agree.refl _ _).set (by omega)).set (by omega)).set (by omega)).set (by omega)).set
      (by omega)).set (by omega)

/-! ## Walking the list -/

/-- The blocks a walk along `next` visits from `a` on. -/
def walk (m : WordMem) : (fuel a : Nat) → List Block
  | 0, _ => []
  | fuel + 1, a =>
    if a = 0 then []
    else ⟨decide (m (u32 (a + offUsed)) ≠ 0), m (u32 (a + offSize))⟩ :: walk m fuel (m (u32 (a + offNext)))

/-- The block list of the heap. -/
def blocks (L : Layout) (m : WordMem) : List Block := walk m searchFuel L.heap

theorem usedWord_ne_zero (u : Bool) : decide (usedWord u ≠ 0) = u := by cases u <;> rfl

/-- A walk through a segment, and on from its end. -/
theorem walk_seg {m : WordMem} {e p a : Nat} {bs : List Block} (h : Seg m e p a bs) (hs : Sized bs) (ha : 0 < a)
    (hfit : a + span Block.size bs < 2 ^ 32) (fuel : Nat) :
    walk m (bs.length + fuel) (link bs a e) = bs ++ walk m fuel e := by
  have ho := offs
  induction bs generalizing p a with
  | nil => rw [List.length_nil, Nat.zero_add, link_nil, List.nil_append]
  | cons b bs ih =>
      obtain ⟨⟨sb, -⟩, sbs⟩ := sized_cons.1 hs
      rw [span_cons] at hfit
      rw [link_cons, List.length_cons, Nat.add_right_comm, walk, if_neg (by omega), u32_of_lt (by omega),
        u32_of_lt (by omega), u32_of_lt (by omega), h.1.used, h.1.size, h.1.next, usedWord_ne_zero,
        ih h.2 sbs (by omega) (by omega), List.cons_append]

theorem walk_eq {m : WordMem} {p a fuel : Nat} {bs : List Block} (h : Seg m 0 p a bs) (hs : Sized bs) (ha : 0 < a)
    (hfit : a + span Block.size bs < 2 ^ 32) (hf : bs.length < fuel) : walk m fuel (link bs a 0) = bs := by
  obtain ⟨k, rfl⟩ := Nat.exists_eq_add_of_lt hf
  rw [Nat.add_assoc, walk_seg h hs ha hfit, walk, if_pos rfl, List.append_nil]

/-- A list that tiles the heap is short enough for the walk, and is not empty. -/
theorem Intact.length_lt {L : Layout} {m : WordMem} {bs : List Block} (h : Intact L m bs) :
    bs.length < searchFuel := by
  have hl := h.sized.length_le
  rw [h.sum] at hl
  simp only [searchFuel, SYS_HEAP_SIZE, blockHdr] at hl ⊢
  omega

theorem Intact.ne_nil {L : Layout} {m : WordMem} {bs : List Block} (h : Intact L m bs) : bs ≠ [] := by
  rintro rfl
  exact absurd h.sum (by decide)

theorem Intact.fits {L : Layout} {m : WordMem} {bs : List Block} (h : Intact L m bs) :
    L.heap + span Block.size bs < 2 ^ 32 := by
  rw [h.sum]
  exact L.fits

theorem Intact.blocks_eq {L : Layout} {m : WordMem} {bs : List Block} (h : Intact L m bs) : blocks L m = bs := by
  have hw := walk_eq h.seg h.sized L.nonnull h.fits h.length_lt
  rwa [link, if_neg h.ne_nil] at hw

/-- `Heap_Init` leaves one free block. -/
theorem init_intact (L : Layout) (m : WordMem) : Intact L (init L m) [⟨false, SYS_HEAP_SIZE⟩] := by
  have ho := offs
  have hL := L.fits
  have hS : SYS_HEAP_SIZE = 36864 := rfl
  refine ⟨⟨⟨?_, ?_, ?_, ?_⟩, trivial⟩, rfl, List.forall_mem_singleton.2 (by decide)⟩
  all_goals
    simp only [init]
    rw [u32_of_lt (by omega), u32_of_lt (by omega), u32_of_lt (by omega), u32_of_lt (by omega), u32_of_lt (by omega),
      set_ne _ _ (by omega)]
  · rw [set_self]
    rfl
  · rw [set_ne _ _ (by omega), set_ne _ _ (by omega), set_ne _ _ (by omega), set_self]
  · rw [set_ne _ _ (by omega), set_ne _ _ (by omega), set_self]
  · rw [set_ne _ _ (by omega), set_self]
    rfl

end YieldStm32.Heap
