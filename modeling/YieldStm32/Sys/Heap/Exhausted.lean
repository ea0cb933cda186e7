import YieldStm32.Sys.Heap.Run

/-!
# A heap without free blocks

* `malloc_null` : `Heap_Malloc` returns null exactly if no block of the list is free, whatever size is asked for;
* `free_of_malloc_null` : where the call after it returns null, an allocation is undone word by word by `Heap_Free`.
-/

namespace YieldStm32.Heap

open WordMem Tiling

/-- `Heap_Malloc`: the pointer returned, and the state after the call. -/
def State.malloc (L : Layout) (s : State) (size : BitVec 32) : Option (Nat × State) := do
  let (p, m) ← Heap.malloc L s.mem size.toNat
  some (p, ⟨m, if p = 0 then s.live else (p, size.toNat) :: s.live⟩)

/-- `Heap_Free` of any pointer. -/
def State.free (s : State) (ptr : Nat) : Option State := do
  let m ← Heap.free s.mem ptr
  some ⟨m, if ptr = 0 then s.live else s.live.eraseP fun l => l.1 = ptr⟩

/-- A block header lies in the heap. -/
def InHeap (L : Layout) (b : Nat) : Prop := L.heap ≤ b ∧ b + blockHdr ≤ L.heap + SYS_HEAP_SIZE

theorem InHeap.ne_zero {L : Layout} {b : Nat} (h : InHeap L b) : b ≠ 0 := by
  have hL := L.nonnull
  have hb := h.1
  omega

/-- The list from `b` on ends, and its blocks lie in the heap. -/
def ListedFrom (L : Layout) (m : WordMem) : (fuel b : Nat) → Prop
  | 0, _ => False
  | fuel + 1, b => b = 0 ∨ InHeap L b ∧ ListedFrom L m fuel (m (u32 (b + offNext)))

/-- The list of the heap ends, and its blocks lie in the heap. -/
def Listed (L : Layout) (m : WordMem) : Prop := ListedFrom L m searchFuel L.heap

instance (L : Layout) (b : Nat) : Decidable (InHeap L b) := inferInstanceAs (Decidable (_ ∧ _))

instance decidableListedFrom (L : Layout) (m : WordMem) : ∀ fuel b, Decidable (ListedFrom L m fuel b)
  | 0, _ => isFalse id
  | fuel + 1, b =>
    have := decidableListedFrom L m fuel (m (u32 (b + offNext)))
    inferInstanceAs (Decidable (b = 0 ∨ InHeap L b ∧ ListedFrom L m fuel _))

instance (L : Layout) (m : WordMem) : Decidable (Listed L m) := decidableListedFrom ..

/-- A block that is not in use. -/
def AnyFree (bs : List Block) : Prop := ∃ b ∈ bs, b.used = false

instance (bs : List Block) : Decidable (AnyFree bs) := inferInstanceAs (Decidable (∃ b ∈ bs, _))

theorem listedFrom_seg {L : Layout} {m : WordMem} {e p a fuel : Nat} {bs : List Block} (h : Seg m e p a bs)
    (hs : Sized bs) (ha : L.heap ≤ a) (hfit : a + span Block.size bs ≤ L.heap + SYS_HEAP_SIZE)
    (hl : ListedFrom L m fuel e) : ListedFrom L m (bs.length + fuel) (link bs a e) := by
  have ho := offs
  have hL := L.fits
  induction bs generalizing p a with
  | nil =>
      rw [List.length_nil, Nat.zero_add]
      exact hl
  | cons b bs ih =>
      obtain ⟨⟨sb, -⟩, sbs⟩ := sized_cons.1 hs
      rw [span_cons] at hfit
      rw [link_cons, List.length_cons, Nat.add_right_comm]
      refine .inr ⟨⟨ha, by omega⟩, ?_⟩
      rw [u32_of_lt (by omega), h.1.next]
      exact ih h.2 sbs (by omega) (by omega)

theorem Intact.listed {L : Layout} {m : WordMem} {bs : List Block} (h : Intact L m bs) : Listed L m := by
  obtain ⟨k, hk⟩ := Nat.exists_eq_add_of_lt h.length_lt
  have hl := @listedFrom_seg L m 0 0 L.heap (k + 1) bs h.seg h.sized (Nat.le_refl _) (Nat.le_of_eq (by rw [h.sum]))
    (.inl rfl)
  rwa [← Nat.add_assoc, ← hk, link, if_neg h.ne_nil] at hl

/-- From a block on, the loop of `Heap_Malloc` ends with a block. -/
theorem search_inHeap {L : Layout} {m : WordMem} {t fuel b best r : Nat} (hl : ListedFrom L m fuel b)
    (hbest : InHeap L best) (h : search m t fuel b best = some r) : InHeap L r := by
  induction fuel generalizing b best with
  | zero => exact hl.elim
  | succ fuel ih =>
      rw [search] at h
      rcases hl with rfl | ⟨hb, hl⟩
      · obtain rfl := Option.some.inj ((if_pos rfl).symm.trans h)
        exact hbest
      · simp only [load, if_neg hb.ne_zero, Option.bind_eq_bind, Option.bind_some] at h
        split at h
        · exact ih hl hbest h
        · obtain ⟨c, -, h⟩ := Option.bind_eq_some_iff.1 h
          split at h
          · split at h
            · obtain rfl := Option.some.inj h
              exact hb
            · exact ih hl hb h
          · exact ih hl hbest h

/-- Without a block so far, it ends with null exactly if no block is free. -/
theorem search_null {L : Layout} {m : WordMem} {t fuel b : Nat} (hl : ListedFrom L m fuel b) :
    (search m t fuel b 0 = some 0 ∧ ¬ AnyFree (walk m fuel b)) ∨
      (AnyFree (walk m fuel b) ∧ ∀ r, search m t fuel b 0 = some r → InHeap L r) := by
  induction fuel generalizing b with
  | zero => exact hl.elim
  | succ fuel ih =>
      rcases hl with rfl | ⟨hb, hl⟩
      · exact .inl ⟨rfl, fun ⟨_, hc, _⟩ => absurd hc List.not_mem_nil⟩
      · rw [search, walk, if_neg hb.ne_zero, if_neg hb.ne_zero]
        simp only [load, if_neg hb.ne_zero, Option.bind_eq_bind, Option.bind_some, AnyFree, List.exists_mem_cons_iff]
        by_cases hu : m (u32 (b + offUsed)) = 0
        · right
          refine ⟨.inl (decide_eq_false (not_not_intro hu)), fun r hr => ?_⟩
          rw [if_neg (not_not_intro hu), better, if_pos rfl, Option.bind_some, if_pos rfl] at hr
          split at hr
          · obtain rfl := Option.some.inj hr
            exact hb
          · exact search_inHeap hl hb hr
        · rw [if_pos hu, decide_eq_true hu]
          simpa [AnyFree] using ih hl

/-- `Heap_Malloc` returns null exactly if no block is free, and then leaves the memory as it is. -/
theorem malloc_null {L : Layout} {m : WordMem} (hl : Listed L m) (size : Nat) :
    (malloc L m size = some (0, m) ∧ ¬ AnyFree (blocks L m)) ∨
      (AnyFree (blocks L m) ∧ ∀ m', malloc L m size ≠ some (0, m')) := by
  have ho := offs
  have hL := L.fits
  rcases @search_null L m (total size) searchFuel L.heap hl with ⟨hs, hfree⟩ | ⟨hfree, hs⟩
  · left
    rw [malloc, hs]
    exact ⟨rfl, hfree⟩
  · refine .inr ⟨hfree, fun m' hm => ?_⟩
    obtain ⟨best, hbest, hm⟩ := Option.bind_eq_some_iff.1 hm
    have hin := hs best hbest
    rw [if_neg hin.ne_zero] at hm
    obtain ⟨m₁, -, hm⟩ := Option.bind_eq_some_iff.1 hm
    obtain ⟨m₂, -, hm⟩ := Option.bind_eq_some_iff.1 hm
    have hptr := congrArg Prod.fst (Option.some.inj hm)
    rw [u32_of_lt (by have := hin.2; omega)] at hptr
    have := hin.ne_zero
    simp only at hptr
    omega

theorem anyFree_append_cons {xs ys : List Block} {b : Block} (hb : b.used = false) : AnyFree (xs ++ b :: ys) :=
  ⟨b, by simp, hb⟩

/-- A block that was split and marked leaves a free one behind it. -/
theorem anyFree_of_split {L : Layout} {m m' : WordMem} {xs ys : List Block} {b : Block} {t : Nat}
    (h : Intact L m (xs ++ b :: ys)) (ht : blockHdr ≤ t) (htb : t + 2 * blockHdr ≤ b.size)
    (hm : split m (L.heap + span Block.size xs) t = some m') :
    Listed L (m'.set (L.heap + span Block.size xs + offUsed) DEADC0DE) ∧
      AnyFree (blocks L (m'.set (L.heap + span Block.size xs + offUsed) DEADC0DE)) := by
  have ho := offs
  have hL := L.fits
  have hL0 := L.nonnull
  have hsum := h.sum
  have hsz := h.sized
  rw [span_append, span_cons] at hsum
  rw [sized_append, sized_cons] at hsz
  obtain ⟨sxs, ⟨sb, -⟩, sys⟩ := hsz
  obtain ⟨hxs, hb, hys⟩ := (seg_focus ..).1 h.seg
  have hlink : link xs L.heap (L.heap + span Block.size xs) = L.heap := by cases xs <;> rfl
  -- the walk has passes left for both parts and for what follows them
  obtain ⟨k, hk⟩ : ∃ k, searchFuel = xs.length + (ys.length + (k + 1) + 1 + 1) := by
    have hlx : 16 * xs.length ≤ span Block.size xs := sxs.length_le
    have hly : 16 * ys.length ≤ span Block.size ys := sys.length_le
    have hS : SYS_HEAP_SIZE = 36864 := rfl
    have hF : searchFuel = 2305 := rfl
    exact ⟨searchFuel - xs.length - ys.length - 3, by omega⟩
  generalize hx : L.heap + span Block.size xs = x at *
  obtain rfl := Option.some.inj ((split_eq hb.size hb.next (by omega) ht htb (by omega)).symm.trans hm)
  generalize hm₁ : WordMem.set _ (x + offUsed) DEADC0DE = m₁
  have hagree : Agree m m₁ fun w => w < x ∨ x + b.size ≤ w := by
    rw [← hm₁]
    exact (((((((Agree.refl _ _).set (by omega)).set (by omega)).set (by omega)).set (by omega)).set (by omega)).set
      (by omega)).set (by omega)
  have hxs' : Seg m₁ x 0 L.heap xs := hxs.congr sxs (hagree.mono fun w hw => by omega)
  have hys' : Seg m₁ 0 x (x + b.size) ys := hys.congr sys (hagree.mono fun w hw => by omega)
  have hnext : m₁ (x + offNext) = x + t := by
    rw [← hm₁, set_ne _ _ (by omega), set_ne _ _ (by omega), set_self]
  have hused' : m₁ (x + t + offUsed) = 0 := by
    rw [← hm₁, set_ne _ _ (by omega), set_ne _ _ (by omega), set_ne _ _ (by omega), set_self]
  have hnext' : m₁ (x + t + offNext) = link ys (x + b.size) 0 := by
    rw [← hm₁, set_ne _ _ (by omega), set_ne _ _ (by omega), set_ne _ _ (by omega), set_ne _ _ (by omega),
      set_ne _ _ (by omega), set_self]
  have hrest : ListedFrom L m₁ (ys.length + (k + 1)) (link ys (x + b.size) 0) :=
    listedFrom_seg hys' sys (by omega) (by omega) (.inl rfl)
  have htail : ListedFrom L m₁ (ys.length + (k + 1) + 1 + 1) x := by
    refine .inr ⟨⟨by omega, by omega⟩, ?_⟩
    rw [u32_of_lt (by omega), hnext]
    refine .inr ⟨⟨by omega, by omega⟩, ?_⟩
    rwa [u32_of_lt (by omega), hnext']
  constructor
  · have hl := listedFrom_seg hxs' sxs (Nat.le_refl _) (by omega) htail
    rwa [hlink, ← hk] at hl
  · have hw := walk_seg hxs' sxs hL0 (by omega) (ys.length + (k + 1) + 1 + 1)
    rw [hlink, ← hk] at hw
    rw [blocks, hw, walk, if_neg (by omega), u32_of_lt (show x + offNext < _ by omega), hnext, walk,
      if_neg (by omega), u32_of_lt (show x + t + offUsed < _ by omega), hused', List.append_cons]
    exact anyFree_append_cons rfl

/-- **An allocation after which nothing is free is undone by `Heap_Free`**: it took the only free block as a whole. -/
theorem free_of_malloc_null {L : Layout} {m m₁ m₂ : WordMem} {bs : List Block} {size size' p : Nat}
    (h : Intact L m bs) (ht : blockHdr ≤ total size) (htw : total size + 2 * blockHdr < 2 ^ 32)
    (hm : malloc L m size = some (p, m₁)) (hp : p ≠ 0) (hnull : malloc L m₁ size' = some (0, m₂)) :
    m₂ = m₁ ∧ free m₁ p = some m := by
  have ho := offs
  have hL := L.nonnull
  rcases malloc_eq h size with ⟨-, h0⟩ | ⟨xs, b, ys, rfl, hpick, heq⟩
  · rw [h0] at hm
    exact absurd (congrArg Prod.fst (Option.some.inj hm)).symm hp
  obtain ⟨hu, -⟩ := (picks_append ..).1 hpick
  have hfit := h.fits
  rw [span_append, span_cons] at hfit
  have hsz := (h.sized b (by simp)).1
  obtain ⟨-, hb, -⟩ := (seg_focus ..).1 h.seg
  rw [heq, splitIfWorth, load_eq m (by omega) (by omega), hb.size, u32_of_lt htw] at hm
  simp only [Option.bind_eq_bind, Option.bind_some] at hm
  split at hm
  · rename_i hworth
    obtain ⟨m', hsplit, hm⟩ := Option.bind_eq_some_iff.1 hm
    rw [store_eq _ _ (by omega) (by omega), Option.bind_some] at hm
    obtain ⟨-, rfl⟩ := Prod.mk.inj (Option.some.inj hm)
    obtain ⟨hl, hfree⟩ := anyFree_of_split h ht hworth hsplit
    rcases malloc_null hl size' with ⟨-, hno⟩ | ⟨-, hno⟩
    · exact absurd hfree hno
    · exact absurd hnull (hno m₂)
  · rw [Option.bind_some, store_eq _ _ (by omega) (by omega), Option.bind_some, u32_of_lt (by omega)] at hm
    obtain ⟨rfl, rfl⟩ := Prod.mk.inj (Option.some.inj hm)
    have h1 := h.mark true
    change Intact L (m.set _ DEADC0DE) _ at h1
    rcases malloc_null h1.listed size' with ⟨h0, hno⟩ | ⟨-, hno⟩
    swap
    · exact absurd hnull (hno m₂)
    rw [h0] at hnull
    obtain ⟨-, rfl⟩ := Prod.mk.inj (Option.some.inj hnull)
    refine ⟨rfl, ?_⟩
    rw [h1.blocks_eq] at hno
    have hall : ∀ c ∈ xs ++ ⟨true, b.size⟩ :: ys, c.used = true := fun c hc =>
      Bool.not_eq_false _ ▸ fun hc' => hno ⟨c, hc, hc'⟩
    have hback : (m.set (L.heap + span Block.size xs + offUsed) DEADC0DE).set (L.heap + span Block.size xs + offUsed) 0 = m := by
      have hr := set_restore m (L.heap + span Block.size xs + offUsed) DEADC0DE
      rwa [hb.used, hu] at hr
    obtain ⟨u, n⟩ := b
    obtain rfl : u = false := hu
    rw [free, if_neg (by omega), block_of_pointer (by omega)]
    simp only [Option.bind_eq_bind]
    rw [store_eq _ _ (by omega) (by omega), Option.bind_some, hback, joinNext_used h fun c hc => hall c ?_, Option.bind_some, joinPrev_used h fun c hc => hall c ?_]
    · exact List.mem_append_left _ (List.mem_of_getLast? hc)
    · exact List.mem_append_right _ (List.mem_cons_of_mem _ (List.mem_of_mem_head? hc))

end YieldStm32.Heap
