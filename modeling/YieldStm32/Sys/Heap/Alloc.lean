import YieldStm32.Sys.Heap.Chain

/-!
# `Heap_Malloc` and `Heap_Free` on the block list

* `Picks bs t i` : block `i` is the one the search of `Heap_Malloc` settles on for a total of `t` bytes
  (`search_picks`);
* `malloc_none`, `malloc_mark`, `malloc_split` : the three outcomes of `Heap_Malloc`;
* `free_spec` : `Heap_Free` of a used block, joins included.
-/

namespace YieldStm32.Heap

open WordMem Tiling

/-! ## The search -/

/-- Block `i` is free, and either it is the first free block and too small, or the first free block is large enough and
`i` is the earliest among the smallest free blocks that are. -/
def Picks (bs : List Block) (t i : Nat) : Prop :=
  ∃ b ∈ bs[i]?, b.used = false ∧
    ((b.size < t ∧ ∀ c ∈ bs.take i, c.used = true) ∨
      (t ≤ b.size ∧ (∀ f ∈ bs.find? (fun c => !c.used), t ≤ f.size) ∧
        (∀ c ∈ bs.take i, c.used = false → t ≤ c.size → b.size < c.size) ∧
        ∀ c ∈ bs.drop (i + 1), c.used = false → t ≤ c.size → b.size ≤ c.size))

instance (bs : List Block) (t i : Nat) : Decidable (Picks bs t i) :=
  inferInstanceAs (Decidable (∃ b ∈ bs[i]?, _))

/-- The loop on the list of blocks: address and size of the best fit. -/
def bestFit (t : Nat) : Option (Nat × Nat) → Nat → List Block → Option (Nat × Nat)
  | best, _, [] => best
  | best, a, b :: bs =>
    if b.used then bestFit t best (a + b.size) bs
    else if ∀ x ∈ best, t ≤ b.size ∧ b.size < x.2 then
      if b.size = t then some (a, b.size) else bestFit t (some (a, b.size)) (a + b.size) bs
    else bestFit t best (a + b.size) bs

/-- The address the loop keeps for its best fit. -/
def bestAddr : Option (Nat × Nat) → Nat
  | none => 0
  | some x => x.1

/-- The best fit is the header of a block in memory. -/
def BestOk (m : WordMem) (best : Option (Nat × Nat)) : Prop :=
  ∀ x ∈ best, 0 < x.1 ∧ x.1 + blockHdr < 2 ^ 32 ∧ m (x.1 + offSize) = x.2

theorem better_eq {m : WordMem} {best : Option (Nat × Nat)} (t n : Nat) (h : BestOk m best) :
    better m t n (bestAddr best) = some (decide (∀ x ∈ best, t ≤ n ∧ n < x.2)) := by
  have ho := offs
  cases best with
  | none => simp [better, bestAddr]
  | some x =>
      obtain ⟨h0, h1, h2⟩ := h x rfl
      have ha : bestAddr (some x) = x.1 := rfl
      rw [better, ha, if_neg (Nat.ne_of_gt h0), load_eq m h0 (by omega), h2]
      simp

theorem search_eq {m : WordMem} {p a t fuel : Nat} {bs : List Block} {best : Option (Nat × Nat)}
    (h : Seg m 0 p a bs) (hs : Sized bs) (ha : 0 < a) (hfit : a + span Block.size bs < 2 ^ 32)
    (hbest : BestOk m best) (hf : bs.length < fuel) :
    search m t fuel (link bs a 0) (bestAddr best) = some (bestAddr (bestFit t best a bs)) := by
  have ho := offs
  induction bs generalizing p a best fuel with
  | nil =>
      obtain ⟨fuel, rfl⟩ := Nat.exists_eq_add_of_lt hf
      rfl
  | cons b bs ih =>
      obtain ⟨fuel, rfl⟩ := Nat.exists_eq_add_of_lt hf
      obtain ⟨⟨sb, -⟩, sbs⟩ := sized_cons.1 hs
      rw [span_cons] at hfit
      have ih' : ∀ best, BestOk m best → search m t (bs.length + 1 + fuel) (link bs (a + b.size) 0) (bestAddr best) =
          some (bestAddr (bestFit t best (a + b.size) bs)) :=
        fun best hb => ih h.2 sbs (by omega) (by omega) hb (by omega)
      have hok : BestOk m (some (a, b.size)) := by
        rintro x ⟨⟩
        exact ⟨ha, by simp only; omega, h.1.size⟩
      rw [link_cons, List.length_cons, search, if_neg (by omega), load_eq m ha (by omega), load_eq m ha (by omega),
        load_eq m ha (by omega), h.1.used, h.1.size, h.1.next]
      simp only [Option.bind_eq_bind, Option.bind_some]
      cases hu : b.used with
      | true => simpa [usedWord, DEADC0DE, bestFit, hu] using ih' best hbest
      | false =>
          rw [if_neg (by simp [usedWord]), better_eq t b.size hbest, Option.bind_some]
          by_cases hc : ∀ x ∈ best, t ≤ b.size ∧ b.size < x.2
          · rw [if_pos (decide_eq_true hc), bestFit, hu, if_neg Bool.false_ne_true, if_pos hc]
            split
            · rfl
            · exact ih' _ hok
          · rw [if_neg (fun h => hc (of_decide_eq_true h)), bestFit, hu, if_neg Bool.false_ne_true, if_neg hc]
            exact ih' best hbest

/-- What the loop does from a best fit of size `n` on: it keeps it, or moves to the earliest of the smallest free blocks
that hold `t` bytes and are smaller than `n`. -/
theorem bestFit_some {t x n x' n' a : Nat} {bs : List Block} (h : bestFit t (some (x, n)) a bs = some (x', n'))
    (hn : n ≠ t) :
    (x' = x ∧ n' = n ∧ ∀ c ∈ bs, c.used = false → t ≤ c.size → n ≤ c.size) ∨
      ∃ xs b ys, bs = xs ++ b :: ys ∧ b.used = false ∧ x' = a + span Block.size xs ∧ n' = b.size ∧ t ≤ b.size ∧
        b.size < n ∧ (∀ c ∈ xs, c.used = false → t ≤ c.size → b.size < c.size) ∧
        ∀ c ∈ ys, c.used = false → t ≤ c.size → b.size ≤ c.size := by
  induction bs generalizing x n a with
  | nil =>
      simp only [bestFit, Option.some.injEq, Prod.mk.injEq] at h
      exact Or.inl ⟨h.1.symm, h.2.symm, by simp⟩
  | cons b bs ih =>
      rw [bestFit] at h
      split at h
      · rename_i hu
        rcases ih h hn with ⟨hx, hn', hall⟩ | ⟨xs, c, ys, rfl, hc, hx, hn', ht, hlt, hxs, hys⟩
        · exact Or.inl ⟨hx, hn', List.forall_mem_cons.2 ⟨fun h' => by simp [hu] at h', hall⟩⟩
        · refine Or.inr ⟨b :: xs, c, ys, rfl, hc, by rw [hx, span_cons, Nat.add_assoc], hn', ht, hlt, ?_, hys⟩
          exact List.forall_mem_cons.2 ⟨fun h' => by simp [hu] at h', hxs⟩
      · rename_i hu
        rw [Bool.not_eq_true] at hu
        split at h
        · rename_i hbet
          obtain ⟨ht, hlt⟩ := hbet _ rfl
          split at h
          · rename_i heq
            simp only [Option.some.injEq, Prod.mk.injEq] at h
            refine Or.inr ⟨[], b, bs, rfl, hu, by simp [h.1], h.2.symm, ht, hlt, by simp, fun c _ _ hc => heq ▸ hc⟩
          · rename_i hne
            rcases ih h hne with ⟨hx, hn', hall⟩ | ⟨xs, c, ys, rfl, hc, hx, hn', ht', hlt', hxs, hys⟩
            · exact Or.inr ⟨[], b, bs, rfl, hu, by simp [hx], hn', ht, hlt, by simp, hall⟩
            · refine Or.inr ⟨b :: xs, c, ys, rfl, hc, by rw [hx, span_cons, Nat.add_assoc], hn', ht', by omega, ?_, hys⟩
              exact List.forall_mem_cons.2 ⟨fun _ _ => hlt', hxs⟩
        · rename_i hbet
          have hb : t ≤ b.size → n ≤ b.size := by
            intro ht
            by_contra hlt
            exact hbet (by rintro x ⟨⟩; exact ⟨ht, by simpa using hlt⟩)
          rcases ih h hn with ⟨hx, hn', hall⟩ | ⟨xs, c, ys, rfl, hc, hx, hn', ht, hlt, hxs, hys⟩
          · exact Or.inl ⟨hx, hn', List.forall_mem_cons.2 ⟨fun _ => hb, hall⟩⟩
          · refine Or.inr ⟨b :: xs, c, ys, rfl, hc, by rw [hx, span_cons, Nat.add_assoc], hn', ht, hlt, ?_, hys⟩
            exact List.forall_mem_cons.2 ⟨fun _ h' => by have := hb h'; omega, hxs⟩

/-- The loop finds nothing where nothing is free. -/
theorem used_of_bestFit_none {t a : Nat} {best : Option (Nat × Nat)} {bs : List Block} (h : bestFit t best a bs = none) :
    best = none ∧ ∀ b ∈ bs, b.used = true := by
  induction bs generalizing best a with
  | nil => exact ⟨h, fun b hb => by cases hb⟩
  | cons b bs ih =>
      rw [bestFit] at h
      split at h
      · rename_i hu
        obtain ⟨hbest, hall⟩ := ih h
        exact ⟨hbest, List.forall_mem_cons.2 ⟨hu, hall⟩⟩
      · rename_i hu
        split at h
        · split at h
          · cases h
          · cases (ih h).1
        · rename_i hbetter
          have hbest := (ih h).1
          subst hbest
          exact absurd (fun x hx => by cases hx) hbetter

theorem picks_append (xs ys : List Block) (b : Block) (t : Nat) :
    Picks (xs ++ b :: ys) t xs.length ↔ b.used = false ∧
      ((b.size < t ∧ ∀ c ∈ xs, c.used = true) ∨
        (t ≤ b.size ∧ (∀ f ∈ (xs ++ b :: ys).find? (fun c => !c.used), t ≤ f.size) ∧
          (∀ c ∈ xs, c.used = false → t ≤ c.size → b.size < c.size) ∧
          ∀ c ∈ ys, c.used = false → t ≤ c.size → b.size ≤ c.size)) := by
  simp [Picks]

/-- The loop ends on the block `Picks` describes. -/
theorem bestFit_picks {t x n a : Nat} {bs : List Block} (h : bestFit t none a bs = some (x, n)) :
    ∃ xs b ys, bs = xs ++ b :: ys ∧ x = a + span Block.size xs ∧ n = b.size ∧ Picks bs t xs.length := by
  induction bs generalizing a with
  | nil => simp [bestFit] at h
  | cons b bs ih =>
      rw [bestFit] at h
      cases hu : b.used with
      | true =>
          rw [if_pos hu] at h
          obtain ⟨xs, c, ys, rfl, hx, hn, hp⟩ := ih h
          refine ⟨b :: xs, c, ys, rfl, by rw [hx, span_cons, Nat.add_assoc], hn, ?_⟩
          obtain ⟨hc, ⟨hlt, hall⟩ | ⟨ht, hf, hxs, hys⟩⟩ := (picks_append ..).1 hp
          · exact (picks_append (b :: xs) ys c t).2 ⟨hc, Or.inl ⟨hlt, List.forall_mem_cons.2 ⟨hu, hall⟩⟩⟩
          · refine (picks_append (b :: xs) ys c t).2 ⟨hc, Or.inr ⟨ht, fun f hf' => hf f ?_, ?_, hys⟩⟩
            · simpa [hu] using hf'
            · exact List.forall_mem_cons.2 ⟨fun h' => by simp [hu] at h', hxs⟩
      | false =>
          -- the first free block is taken whatever its size
          have hfind : ∀ c cs, (b :: cs).find? (fun c => !c.used) = some c → c = b := by
            intro c cs hc
            simpa [hu, eq_comm] using hc
          rw [if_neg (by simp [hu]), if_pos (by simp)] at h
          split at h
          · rename_i heq
            simp only [Option.some.injEq, Prod.mk.injEq] at h
            refine ⟨[], b, bs, rfl, by simp [h.1], h.2.symm,
              (picks_append [] bs b t).2 ⟨hu, Or.inr ⟨by omega, ?_, by simp, ?_⟩⟩⟩
            · intro f hf
              rw [hfind f _ hf]
              omega
            · exact fun c _ _ hc => heq ▸ hc
          · rename_i hne
            rcases bestFit_some h hne with ⟨hx, hn, hall⟩ | ⟨xs, c, ys, rfl, hc, hx, hn, ht, hlt, hxs, hys⟩
            · refine ⟨[], b, bs, rfl, by simp [hx], hn, (picks_append [] bs b t).2 ⟨hu, ?_⟩⟩
              by_cases hbt : b.size < t
              · exact Or.inl ⟨hbt, by simp⟩
              · refine Or.inr ⟨by omega, fun f hf => ?_, by simp, hall⟩
                rw [hfind f _ hf]
                omega
            · refine ⟨b :: xs, c, ys, rfl, by rw [hx, span_cons, Nat.add_assoc], hn,
                (picks_append (b :: xs) ys c t).2 ⟨hc, Or.inr ⟨ht, ?_, ?_, hys⟩⟩⟩
              · intro f hf
                rw [hfind f _ hf]
                omega
              · exact List.forall_mem_cons.2 ⟨fun _ _ => hlt, hxs⟩

/-! ## The size asked for -/

theorem and_mask (x : Nat) : x &&& 0xfffffff8 = x % 2 ^ 32 / 8 * 8 := by
  apply Nat.eq_of_testBit_eq
  intro i
  rw [Nat.testBit_and, show (0xfffffff8 : Nat) = (2 ^ 29 - 1) * 2 ^ 3 from rfl, Nat.testBit_mul_two_pow,
    Nat.testBit_two_pow_sub_one, show (8 : Nat) = 2 ^ 3 from rfl, Nat.testBit_mul_two_pow, Nat.testBit_div_two_pow,
    Nat.testBit_mod_two_pow]
  by_cases h : 3 ≤ i
  · rw [show i - 3 + 3 = i by omega]
    by_cases h2 : i < 32
    · simp [h, h2]; omega
    · simp [h2]; omega
  · simp [h]

theorem total_mod (size : Nat) : total size % 8 = 0 := by
  simp only [total, u32, and_mask, blockHdr]
  omega

/-- Without wrap-around the total is the size rounded up, and a header. -/
theorem total_ge {size : Nat} (h : size + 7 + blockHdr < 2 ^ 32) : size + blockHdr ≤ total size := by
  simp only [total, u32, and_mask, blockHdr] at h ⊢
  omega

/-! ## `Heap_Malloc` -/

/-- The split branch is taken on the last block of the list only, and without wrap-around of the size. -/
def MallocMeets (bs : List Block) (size : Nat) : Prop :=
  ∀ i < bs.length, Picks bs (total size) i → ∀ b ∈ bs[i]?, u32 (total size + 2 * blockHdr) ≤ b.size →
    blockHdr ≤ total size ∧ total size + 2 * blockHdr < 2 ^ 32 ∧ i + 1 = bs.length

instance (bs : List Block) (size : Nat) : Decidable (MallocMeets bs size) :=
  inferInstanceAs (Decidable (∀ i < bs.length, _ → ∀ b ∈ bs[i]?, _))

/-- `Heap_Malloc` after its search. -/
theorem malloc_eq {L : Layout} {m : WordMem} {bs : List Block} (h : Intact L m bs) (size : Nat) :
    ((∀ b ∈ bs, b.used = true) ∧ malloc L m size = some (0, m)) ∨
      ∃ xs b ys, bs = xs ++ b :: ys ∧ Picks bs (total size) xs.length ∧
        malloc L m size = (splitIfWorth m (L.heap + span Block.size xs) (total size)).bind fun m =>
          (store m (L.heap + span Block.size xs) offUsed DEADC0DE).bind fun m =>
            some (u32 (L.heap + span Block.size xs + blockHdr), m) := by
  have hs := @search_eq m 0 L.heap (total size) searchFuel bs none h.seg h.sized L.nonnull h.fits
    (fun x hx => by cases hx) h.length_lt
  rw [link, if_neg h.ne_nil, show bestAddr none = 0 from rfl] at hs
  rw [malloc, hs]
  cases hb : bestFit (total size) none L.heap bs with
  | none => exact Or.inl ⟨(used_of_bestFit_none hb).2, rfl⟩
  | some x =>
      obtain ⟨xs, b, ys, rfl, hx, -, hp⟩ := bestFit_picks hb
      refine Or.inr ⟨xs, b, ys, rfl, hp, ?_⟩
      have hne : bestAddr (some x) ≠ 0 := by
        have := L.nonnull
        change x.1 ≠ 0
        omega
      simp only [Option.bind_eq_bind, Option.bind_some, if_neg hne]
      rw [← hx]
      rfl

/-- The last word of the heap, and what is behind the heap. -/
def Tail (L : Layout) (w : Nat) : Prop := L.heap + SYS_HEAP_SIZE ≤ w + 4

theorem Intact.mark_tail {L : Layout} {m : WordMem} {xs ys : List Block} {b : Block}
    (h : Intact L m (xs ++ b :: ys)) (v : Nat) :
    Agree m (m.set (L.heap + span Block.size xs + offUsed) v) (Tail L) := by
  have ho := offs
  have hsum := h.sum
  have hb := (h.sized b (by simp)).1
  rw [span_append, span_cons] at hsum
  exact (Agree.refl _ _).set (by unfold Tail; omega)

/-- A block marked used. -/
theorem Intact.mark {L : Layout} {m : WordMem} {xs ys : List Block} {b : Block} (h : Intact L m (xs ++ b :: ys))
    (u : Bool) : Intact L (m.set (L.heap + span Block.size xs + offUsed) (usedWord u)) (xs ++ ⟨u, b.size⟩ :: ys) where
  seg := mark_seg h.seg h.sized u
  sum := by simpa using h.sum
  sized := by
    have hs := h.sized
    rw [sized_append, sized_cons] at hs ⊢
    exact hs

/-- `Heap_Malloc` on a list that tiles the heap: it finds nothing, or marks the block its search picks, or splits the
last one. -/
theorem malloc_spec {L : Layout} {m : WordMem} {bs : List Block} {size : Nat} (h : Intact L m bs)
    (hm : MallocMeets bs size) :
    malloc L m size = some (0, m) ∨ ∃ xs b ys n zs m', bs = xs ++ b :: ys ∧ Picks bs (total size) xs.length ∧
      malloc L m size = some (L.heap + span Block.size xs + blockHdr, m') ∧ Intact L m' (xs ++ ⟨true, n⟩ :: zs) ∧
      Agree m m' (Tail L) ∧ (n = b.size ∧ zs = ys ∧ b.size < u32 (total size + 2 * blockHdr) ∨
        n = total size ∧ ys = [] ∧ zs = [⟨false, b.size - total size⟩]) := by
  have ho := offs
  have hL := L.nonnull
  rcases malloc_eq h size with ⟨-, h0⟩ | ⟨xs, b, ys, rfl, hp, heq⟩
  · exact Or.inl h0
  · right
    have hfit := h.fits
    have hsz := h.sized
    rw [sized_append, sized_cons] at hsz
    obtain ⟨sxs, ⟨sb, sb8⟩, sys⟩ := hsz
    rw [span_append, span_cons] at hfit
    obtain ⟨-, hb, -⟩ := (seg_focus ..).1 h.seg
    have hmem : (xs ++ b :: ys)[xs.length]? = some b := by simp
    rw [heq, splitIfWorth, load_eq m (by omega) (by omega), hb.size, u32_of_lt (show _ + blockHdr < _ by omega)]
    simp only [Option.bind_eq_bind, Option.bind_some]
    split
    · rename_i hw
      obtain ⟨ht, htw, hlast⟩ := hm _ (by simp) hp b hmem hw
      obtain rfl : ys = [] := by simpa using hlast
      rw [u32_of_lt htw] at hw
      obtain ⟨m₁, hs, hseg, htail⟩ := split_seg hL h.seg sxs ht hw h.fits
      rw [h.sum] at htail
      have hint : Intact L m₁ (xs ++ [⟨b.used, total size⟩, ⟨false, b.size - total size⟩]) := by
        have ht8 := total_mod size
        refine ⟨hseg, ?_, ?_⟩
        · have := h.sum
          simp only [span_append, span_cons, span_nil] at this ⊢
          omega
        · rw [sized_append, sized_cons, sized_cons]
          exact ⟨sxs, ⟨ht, ht8⟩, ⟨by simp only; omega, by simp only; omega⟩, sys⟩
      refine ⟨xs, b, [], total size, _, m₁.set _ DEADC0DE, rfl, hp, ?_, hint.mark true,
        Agree.trans htail (hint.mark_tail _), Or.inr ⟨rfl, rfl, rfl⟩⟩
      rw [hs, Option.bind_some, store_eq _ _ (by omega) (by omega), Option.bind_some]
    · rename_i hw
      refine ⟨xs, b, ys, b.size, ys, m.set _ DEADC0DE, rfl, hp, ?_, h.mark true, h.mark_tail _,
        Or.inl ⟨rfl, rfl, Nat.lt_of_not_le hw⟩⟩
      rw [Option.bind_some, store_eq _ _ (by omega) (by omega), Option.bind_some]

/-! ## `Heap_Free` -/

/-- The used blocks with their addresses. -/
def usedPlaces (a : Nat) (bs : List Block) : List (Nat × Block) := (place Block.size a bs).filter fun x => x.2.used

@[simp] theorem usedPlaces_nil (a : Nat) : usedPlaces a [] = [] := rfl

theorem usedPlaces_append (a : Nat) (xs ys : List Block) :
    usedPlaces a (xs ++ ys) = usedPlaces a xs ++ usedPlaces (a + span Block.size xs) ys := by
  rw [usedPlaces, place_append, List.filter_append]
  rfl

theorem usedPlaces_free (a n : Nat) (bs : List Block) : usedPlaces a (⟨false, n⟩ :: bs) = usedPlaces (a + n) bs := rfl

theorem usedPlaces_used (a n : Nat) (bs : List Block) :
    usedPlaces a (⟨true, n⟩ :: bs) = (a, ⟨true, n⟩) :: usedPlaces (a + n) bs := rfl

/-- A join of two blocks when a third one follows. -/
theorem Intact.join {L : Layout} {m : WordMem} {xs ys : List Block} {b c d : Block}
    (h : Intact L m (xs ++ b :: c :: d :: ys)) :
    ∃ m', Heap.join m (L.heap + span Block.size xs) (L.heap + span Block.size xs + b.size) = some m' ∧
      Intact L m' (xs ++ ⟨b.used, b.size + c.size⟩ :: d :: ys) ∧ Agree m m' (Tail L) := by
  obtain ⟨m', hj, hseg, htail⟩ := join_seg L.nonnull h.seg h.sized h.fits
  rw [h.sum] at htail
  refine ⟨m', hj, ⟨hseg, ?_, ?_⟩, htail⟩
  · have := h.sum
    simp only [span_append, span_cons] at this ⊢
    omega
  · have hs := h.sized
    simp only [sized_append, sized_cons] at hs ⊢
    obtain ⟨sxs, ⟨sb, sb8⟩, ⟨sc, sc8⟩, sd⟩ := hs
    exact ⟨sxs, ⟨by omega, by omega⟩, sd⟩

theorem Hdr.isFree {m : WordMem} {a p n : Nat} {b : Block} (h : Hdr m a b p n) (ha : 0 < a) (hfit : a < 2 ^ 32) :
    Heap.isFree m a = some !b.used := by
  have ho := offs
  rw [Heap.isFree, if_neg (Nat.ne_of_gt ha), load_eq m ha (by omega), h.used]
  cases b.used <;> rfl

/-- A free block of `n` bytes with the blocks behind it, joined with the first of them if that is free. -/
def mergeNext (n : Nat) : List Block → Nat × List Block
  | ⟨false, k⟩ :: ys => (n + k, ys)
  | ys => (n, ys)

/-- A free block of `n` bytes between other blocks, joined with the last one before it if that is free. -/
def mergePrev (xs : List Block) (n : Nat) (ys : List Block) : List Block :=
  match xs.getLast? with
  | some ⟨false, k⟩ => xs.dropLast ++ ⟨false, k + n⟩ :: ys
  | _ => xs ++ ⟨false, n⟩ :: ys

/-- The list behind `Heap_Free` of a block of `n` bytes. -/
def freed (xs : List Block) (n : Nat) (ys : List Block) : List Block :=
  mergePrev xs (mergeNext n ys).1 (mergeNext n ys).2

@[simp] theorem mergeNext_nil (n : Nat) : mergeNext n [] = (n, []) := rfl

@[simp] theorem mergeNext_used (n k : Nat) (ys : List Block) : mergeNext n (⟨true, k⟩ :: ys) = (n, ⟨true, k⟩ :: ys) := rfl

@[simp] theorem mergeNext_free (n k : Nat) (ys : List Block) : mergeNext n (⟨false, k⟩ :: ys) = (n + k, ys) := rfl

@[simp] theorem mergePrev_nil (n : Nat) (ys : List Block) : mergePrev [] n ys = ⟨false, n⟩ :: ys := rfl

@[simp] theorem mergePrev_used (xs : List Block) (k n : Nat) (ys : List Block) :
    mergePrev (xs ++ [⟨true, k⟩]) n ys = xs ++ [⟨true, k⟩] ++ ⟨false, n⟩ :: ys := by
  simp [mergePrev]

@[simp] theorem mergePrev_free (xs : List Block) (k n : Nat) (ys : List Block) :
    mergePrev (xs ++ [⟨false, k⟩]) n ys = xs ++ ⟨false, k + n⟩ :: ys := by
  simp [mergePrev]

theorem usedPlaces_mergeNext (a n : Nat) (ys : List Block) :
    usedPlaces (a + (mergeNext n ys).1) (mergeNext n ys).2 = usedPlaces (a + n) ys := by
  rcases ys with _ | ⟨⟨_ | _, k⟩, ys⟩
  · rfl
  · rw [mergeNext_free, usedPlaces_free, Nat.add_assoc]
  · rfl

theorem usedPlaces_mergePrev (a n : Nat) (xs ys : List Block) :
    usedPlaces a (mergePrev xs n ys) = usedPlaces a (xs ++ ⟨false, n⟩ :: ys) := by
  rcases List.eq_nil_or_concat xs with rfl | ⟨xs, ⟨_ | _, k⟩, rfl⟩
  · rfl
  · rw [List.concat_eq_append, mergePrev_free]
    simp only [usedPlaces_append, usedPlaces_free, span_append, span_cons, span_nil, usedPlaces_nil, List.append_nil,
      Nat.add_assoc, Nat.add_zero]
  · rw [List.concat_eq_append, mergePrev_used]

/-- The used blocks but the one freed. -/
theorem usedPlaces_freed (a n : Nat) (xs ys : List Block) :
    usedPlaces a (freed xs n ys) = usedPlaces a xs ++ usedPlaces (a + span Block.size xs + n) ys := by
  rw [freed, usedPlaces_mergePrev, usedPlaces_append, usedPlaces_free, usedPlaces_mergeNext]

/-- Nothing is joined with a used block behind. -/
theorem joinNext_used {L : Layout} {m : WordMem} {xs ys : List Block} {n : Nat}
    (h : Intact L m (xs ++ ⟨false, n⟩ :: ys)) (hnext : ∀ c ∈ ys.head?, c.used = true) :
    joinNext m (L.heap + span Block.size xs) = some m := by
  have ho := offs
  have hL := L.nonnull
  have hfit := h.fits
  simp only [span_append, span_cons] at hfit
  obtain ⟨-, hb, hys⟩ := (seg_focus ..).1 h.seg
  dsimp only at hb hys
  have hsz : blockHdr ≤ n := (h.sized ⟨false, n⟩ (by simp)).1
  rw [joinNext, load_eq m (by omega) (by omega), hb.next]
  simp only [Option.bind_eq_bind, Option.bind_some]
  match ys, hys, hnext with
  | [], _, _ => rfl
  | c :: ys, hys, hnext =>
      have hcsz := (h.sized c (by simp)).1
      rw [link_cons, hys.1.isFree (by omega) (by simp only [span_cons] at hfit; omega), hnext c rfl]
      rfl

/-- Nothing is joined with a used block before. -/
theorem joinPrev_used {L : Layout} {m : WordMem} {xs ys : List Block} {n : Nat}
    (h : Intact L m (xs ++ ⟨false, n⟩ :: ys)) (hprev : ∀ c ∈ xs.getLast?, c.used = true) :
    joinPrev m (L.heap + span Block.size xs) = some m := by
  have ho := offs
  have hL := L.nonnull
  have hfit := h.fits
  simp only [span_append, span_cons] at hfit
  obtain ⟨-, hb, -⟩ := (seg_focus ..).1 h.seg
  have hsz : blockHdr ≤ n := (h.sized ⟨false, n⟩ (by simp)).1
  rw [joinPrev, load_eq m (by omega) (by omega), hb.prev]
  simp only [Option.bind_eq_bind, Option.bind_some]
  rcases List.eq_nil_or_concat xs with rfl | ⟨xs, p, rfl⟩
  · rfl
  · rw [List.concat_eq_append] at *
    have h' : Intact L m (xs ++ p :: ⟨false, n⟩ :: ys) := by simpa using h
    obtain ⟨-, hp, -⟩ := (seg_focus ..).1 h'.seg
    simp only [span_append, span_cons, span_nil] at hfit
    rw [lastAddr_append, hp.isFree (by omega) (by omega), hprev p (by simp)]
    rfl

/-- The join with the next block. -/
theorem joinNext_spec {L : Layout} {m : WordMem} {xs ys : List Block} {n : Nat}
    (h : Intact L m (xs ++ ⟨false, n⟩ :: ys)) (hnext : ∀ c ∈ ys.head?, c.used = false → 1 < ys.length) :
    ∃ m', joinNext m (L.heap + span Block.size xs) = some m' ∧
      Intact L m' (xs ++ ⟨false, (mergeNext n ys).1⟩ :: (mergeNext n ys).2) ∧ Agree m m' (Tail L) := by
  have ho := offs
  have hL := L.nonnull
  have hfit := h.fits
  simp only [span_append, span_cons] at hfit
  obtain ⟨-, hb, hys⟩ := (seg_focus ..).1 h.seg
  dsimp only at hb hys
  have hsz := h.sized
  simp only [sized_append, sized_cons] at hsz
  rw [joinNext, load_eq m (by omega) (by omega), hb.next]
  simp only [Option.bind_eq_bind, Option.bind_some]
  match ys, hys, hnext with
  | [], _, _ => exact ⟨m, rfl, h, Agree.refl _ _⟩
  | ⟨u, k⟩ :: ys, hys, hnext =>
      rw [link_cons, hys.1.isFree (by omega) (by simp only [span_cons] at hfit; omega), Option.bind_some]
      cases u with
      | true => exact ⟨m, rfl, h, Agree.refl _ _⟩
      | false =>
          have hlen := hnext _ rfl rfl
          match ys, hlen with
          | d :: ys, _ => exact h.join

/-- The join with the previous block. -/
theorem joinPrev_spec {L : Layout} {m : WordMem} {xs ys : List Block} {n : Nat}
    (h : Intact L m (xs ++ ⟨false, n⟩ :: ys)) (hprev : ∀ c ∈ xs.getLast?, c.used = false → ys ≠ []) :
    ∃ m', joinPrev m (L.heap + span Block.size xs) = some m' ∧ Intact L m' (mergePrev xs n ys) ∧
      Agree m m' (Tail L) := by
  have ho := offs
  have hL := L.nonnull
  have hfit := h.fits
  simp only [span_append, span_cons] at hfit
  obtain ⟨-, hb, -⟩ := (seg_focus ..).1 h.seg
  have hsz := h.sized
  simp only [sized_append, sized_cons] at hsz
  rw [joinPrev, load_eq m (by omega) (by omega), hb.prev]
  simp only [Option.bind_eq_bind, Option.bind_some]
  rcases List.eq_nil_or_concat xs with rfl | ⟨xs, p, rfl⟩
  · exact ⟨m, rfl, h, Agree.refl _ _⟩
  · rw [List.concat_eq_append] at *
    have h' : Intact L m (xs ++ p :: ⟨false, n⟩ :: ys) := by simpa using h
    obtain ⟨-, hp, -⟩ := (seg_focus ..).1 h'.seg
    simp only [span_append, span_cons, span_nil] at hfit
    rw [lastAddr_append, hp.isFree (by omega) (by omega), Option.bind_some]
    obtain ⟨u, k⟩ := p
    cases u with
    | true => exact ⟨m, rfl, by rwa [mergePrev_used], Agree.refl _ _⟩
    | false =>
        have hne := hprev ⟨false, k⟩ (by simp) rfl
        match ys, hne with
        | d :: ys, _ =>
            obtain ⟨m', hj, hint, htail⟩ := h'.join
            refine ⟨m', ?_, by rwa [mergePrev_free], htail⟩
            simpa [← Nat.add_assoc] using hj

/-- `Heap_Free` joins with nothing that is, or would become, the last block of the list. -/
def FreeMeets (L : Layout) (bs : List Block) (ptr : Nat) : Prop :=
  ∀ i < bs.length, L.heap + span Block.size (bs.take i) + blockHdr = ptr →
    (∀ c ∈ bs[i + 1]?, c.used = false → i + 2 < bs.length) ∧
    ∀ c ∈ (bs.take i).getLast?, c.used = false → i + 1 < bs.length

instance (L : Layout) (bs : List Block) (ptr : Nat) : Decidable (FreeMeets L bs ptr) :=
  inferInstanceAs (Decidable (∀ i < bs.length, _ → (∀ c ∈ bs[i + 1]?, _) ∧ ∀ c ∈ (bs.take i).getLast?, _))

/-- What a join at a block meets. -/
theorem FreeMeets.sides {L : Layout} {xs ys : List Block} {b : Block}
    (h : FreeMeets L (xs ++ b :: ys) (L.heap + span Block.size xs + blockHdr)) :
    (∀ c ∈ ys.head?, c.used = false → 1 < ys.length) ∧ ∀ c ∈ xs.getLast?, c.used = false → ys ≠ [] := by
  obtain ⟨hnext, hprev⟩ := h xs.length (by simp) (by simp)
  refine ⟨fun c hc hu => ?_, fun c hc hu => ?_⟩
  · have hlen := hnext c (by simpa [List.getElem?_append_right, List.head?_eq_getElem?] using hc) hu
    simp at hlen
    omega
  · have hlen := hprev c (by simpa using hc) hu
    rintro rfl
    simp at hlen

theorem mergeNext_ne_nil {n : Nat} {ys : List Block} (hnext : ∀ c ∈ ys.head?, c.used = false → 1 < ys.length)
    (hne : ys ≠ []) : (mergeNext n ys).2 ≠ [] := by
  match ys, hnext with
  | [], _ => exact absurd rfl hne
  | ⟨true, k⟩ :: ys, _ => exact List.cons_ne_nil _ _
  | ⟨false, k⟩ :: ys, hnext =>
      have hlen := hnext _ rfl rfl
      rintro hnil
      obtain rfl : ys = [] := hnil
      exact absurd hlen (by simp)

/-- `(uintptr_t)ptr - sizeof(block_t)` -/
theorem block_of_pointer {a : Nat} (h : a < 2 ^ 32) : u32 (a + blockHdr + 2 ^ 32 - blockHdr) = a := by
  rw [Nat.add_right_comm, Nat.add_sub_cancel, u32, Nat.add_mod_right, Nat.mod_eq_of_lt h]

/-- `Heap_Free` of a used block: the list stays intact, and the block is joined with its free neighbours. -/
theorem free_spec {L : Layout} {m : WordMem} {xs ys : List Block} {n : Nat}
    (h : Intact L m (xs ++ ⟨true, n⟩ :: ys))
    (hf : FreeMeets L (xs ++ ⟨true, n⟩ :: ys) (L.heap + span Block.size xs + blockHdr)) :
    ∃ m', free m (L.heap + span Block.size xs + blockHdr) = some m' ∧ Intact L m' (freed xs n ys) ∧
      Agree m m' (Tail L) := by
  have ho := offs
  have hL := L.nonnull
  have hfit := h.fits
  have hsz := h.sized
  simp only [span_append, span_cons] at hfit
  simp only [sized_append, sized_cons] at hsz
  obtain ⟨hnext, hprev⟩ := hf.sides
  have hb := block_of_pointer (show L.heap + span Block.size xs < 2 ^ 32 by omega)
  have h1 : Intact L (m.set (L.heap + span Block.size xs + offUsed) 0) (xs ++ ⟨false, n⟩ :: ys) := h.mark false
  obtain ⟨m₂, hj, h2, htail2⟩ := joinNext_spec h1 hnext
  obtain ⟨m₃, hp, h3, htail3⟩ := joinPrev_spec h2 fun c hc hu => mergeNext_ne_nil hnext (hprev c hc hu)
  refine ⟨m₃, ?_, h3, Agree.trans (Agree.trans (h.mark_tail 0) htail2) htail3⟩
  rw [free, if_neg (by omega)]
  simp only [hb, Option.bind_eq_bind]
  rw [store_eq _ _ (by omega) (by omega), Option.bind_some, hj, Option.bind_some, hp]

end YieldStm32.Heap
