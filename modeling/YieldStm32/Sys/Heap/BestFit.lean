import YieldStm32.Sys.Heap.Run

/-!
# Best fit

* `BestFits` : `Heap_Malloc` finds a block if and only if one is large enough, and then a smallest one;
* `bestFits_iff` : it does where the first free block is large enough.
-/

namespace YieldStm32.Heap

open WordMem Tiling Transition

/-- The size rounded up to a multiple of eight, and a header. -/
def rounded (size : Nat) : Nat := (size + 7) / 8 * 8 + blockHdr

theorem total_eq {size : Nat} (h : rounded size < 2 ^ 32) : total size = rounded size := by
  simp only [rounded, total, u32, and_mask, blockHdr] at h ⊢
  omega

/-- The block is free and holds `t` bytes. -/
def Holds (t : Nat) (b : Block) : Prop := b.used = false ∧ t ≤ b.size

/-- **Best fit**: null is returned if and only if no free block is large enough; else the memory of a free block that is
a smallest one among those, which is then in use. -/
structure BestFits (L : Layout) (m : WordMem) (bs : List Block) (size : Nat) : Prop where
  null_iff : (∃ m', malloc L m size = some (0, m')) ↔ ∀ b ∈ bs, ¬ Holds (rounded size) b
  smallest : (∃ b ∈ bs, Holds (rounded size) b) → ∃ xs b ys m', bs = xs ++ b :: ys ∧ Holds (rounded size) b ∧
    (∀ c ∈ bs, Holds (rounded size) c → b.size ≤ c.size) ∧
      malloc L m size = some (L.heap + span Block.size xs + blockHdr, m') ∧
        m' (L.heap + span Block.size xs + offUsed) = DEADC0DE

/-! ## What is allocated -/

theorem split_isSome {m : WordMem} {best size : Nat} (hb : best ≠ 0) (hnew : u32 (best + size) ≠ 0) :
    ∃ m', split m best size = some m' := by
  simp [split, load, store, hb, hnew]

/-- A block that is large enough is handed out. -/
theorem malloc_holds {L : Layout} {m : WordMem} {xs ys : List Block} {b : Block} {t : Nat}
    (h : Intact L m (xs ++ b :: ys)) (ht : t ≤ b.size) :
    ∃ m', ((splitIfWorth m (L.heap + span Block.size xs) t).bind fun m =>
        (store m (L.heap + span Block.size xs) offUsed DEADC0DE).bind fun m =>
          some (u32 (L.heap + span Block.size xs + blockHdr), m)) =
      some (L.heap + span Block.size xs + blockHdr, m') ∧
        m' (L.heap + span Block.size xs + offUsed) = DEADC0DE := by
  have ho := offs
  have hL := L.nonnull
  have hfit := h.fits
  have hsz := h.sized
  rw [span_append, span_cons] at hfit
  rw [sized_append, sized_cons] at hsz
  obtain ⟨m₁, hm₁⟩ : ∃ m₁, splitIfWorth m (L.heap + span Block.size xs) t = some m₁ := by
    rw [splitIfWorth, load_eq m (by omega) (by omega)]
    simp only [Option.bind_eq_bind, Option.bind_some]
    split
    · apply split_isSome (by omega)
      rw [u32_of_lt (by omega)]
      omega
    · exact ⟨m, rfl⟩
  refine ⟨m₁.set (L.heap + span Block.size xs + offUsed) DEADC0DE, ?_, set_self ..⟩
  rw [hm₁, Option.bind_some, store_eq _ _ (by omega) (by omega), Option.bind_some, u32_of_lt (by omega)]

/-- Two blocks of a list that start at one address are one. -/
theorem block_eq_of_span {xs ys xs' ys' : List Block} {b b' : Block} (heq : xs ++ b :: ys = xs' ++ b' :: ys')
    (hs : Sized (xs ++ b :: ys)) (hspan : span Block.size xs = span Block.size xs') : b = b' := by
  have hmem : (span Block.size xs, b) ∈ place Block.size 0 (xs ++ b :: ys) := by
    rw [place_append]
    simp [place]
  have hmem' : (span Block.size xs, b') ∈ place Block.size 0 (xs ++ b :: ys) := by
    rw [heq, place_append, hspan]
    simp [place]
  have hb := (hs b (by simp)).1
  have hb' := (hs b' (by rw [heq]; simp)).1
  have ho := offs
  rcases mem_place_or hmem hmem' with ⟨-, h⟩ | h | h
  · exact h
  · omega
  · omega

/-- The first free block of the list, if there is one, is large enough. -/
def FirstHolds (bs : List Block) (t : Nat) : Prop := ∀ f ∈ bs.find? (fun c => !c.used), t ≤ f.size

instance (bs : List Block) (t : Nat) : Decidable (FirstHolds bs t) := inferInstanceAs (Decidable (∀ f ∈ List.find? .., _))

/-- The search settles on a block that is too small where the first free one is. -/
theorem picks_small {xs ys : List Block} {b : Block} {t : Nat} (hp : Picks (xs ++ b :: ys) t xs.length)
    (hf : ¬ FirstHolds (xs ++ b :: ys) t) : b.size < t := by
  obtain ⟨-, ⟨hlt, -⟩ | ⟨-, hfirst, -⟩⟩ := (picks_append ..).1 hp
  · exact hlt
  · exact absurd hfirst hf

/-- Else it settles on a smallest one. -/
theorem picks_smallest {xs ys : List Block} {b : Block} {t : Nat} (hp : Picks (xs ++ b :: ys) t xs.length)
    (hf : FirstHolds (xs ++ b :: ys) t) :
    Holds t b ∧ ∀ c ∈ xs ++ b :: ys, Holds t c → b.size ≤ c.size := by
  obtain ⟨hu, ⟨hlt, hxs⟩ | ⟨ht, -, hxs, hys⟩⟩ := (picks_append ..).1 hp
  · have hnone : xs.find? (fun c => !c.used) = none := List.find?_eq_none.2 fun c hc => by simp [hxs c hc]
    have hle := hf b (by simp [List.find?_append, hnone, hu])
    omega
  · refine ⟨⟨hu, ht⟩, fun c hc hholds => ?_⟩
    rcases List.mem_append.1 hc with hc | hc
    · exact Nat.le_of_lt (hxs c hc hholds.1 hholds.2)
    · rcases List.mem_cons.1 hc with rfl | hc
      · exact Nat.le_refl _
      · exact hys c hc hholds.1 hholds.2

/-- Whatever the block is, its memory is what is returned. -/
theorem malloc_pointer {L : Layout} {m m' : WordMem} {xs ys : List Block} {b : Block} {size p : Nat}
    (h : Intact L m (xs ++ b :: ys))
    (heq : malloc L m size = (splitIfWorth m (L.heap + span Block.size xs) (total size)).bind fun m =>
      (store m (L.heap + span Block.size xs) offUsed DEADC0DE).bind fun m =>
        some (u32 (L.heap + span Block.size xs + blockHdr), m))
    (hm : malloc L m size = some (p, m')) : p = L.heap + span Block.size xs + blockHdr := by
  have ho := offs
  have hfit := h.fits
  rw [span_append, span_cons] at hfit
  have hsz := (h.sized b (by simp)).1
  rw [heq] at hm
  obtain ⟨m₁, -, hm⟩ := Option.bind_eq_some_iff.1 hm
  obtain ⟨m₂, -, hm⟩ := Option.bind_eq_some_iff.1 hm
  cases hm
  exact u32_of_lt (by omega)

theorem not_holds_of_used {bs : List Block} (h : ∀ b ∈ bs, b.used = true) (t : Nat) : ∀ b ∈ bs, ¬ Holds t b :=
  fun b hb hholds => absurd (h b hb) (by simp [hholds.1])

theorem BestFits.firstHolds {L : Layout} {m : WordMem} {bs : List Block} {size : Nat} (hbest : BestFits L m bs size)
    (h : Intact L m bs) (hsize : rounded size < 2 ^ 32) : FirstHolds bs (rounded size) := by
  have hL := L.nonnull
  rcases malloc_eq h size with ⟨hused, -⟩ | ⟨xs, b, ys, rfl, hp, heq⟩
  · intro f hf
    exact absurd (hused f (List.mem_of_find?_eq_some hf)) (by simpa using List.find?_some hf)
  · by_contra hfirst
    have hsmall := picks_small (total_eq hsize ▸ hp) hfirst
    by_cases hfree : ∃ c ∈ xs ++ b :: ys, Holds (rounded size) c
    · obtain ⟨xs', b', ys', m', hbs, hholds, -, hm, -⟩ := hbest.smallest hfree
      have hspan := malloc_pointer h heq hm
      have hb := block_eq_of_span hbs h.sized (by omega)
      have hle := hholds.2
      rw [← hb] at hle
      omega
    · obtain ⟨m', hm⟩ := hbest.null_iff.2 fun c hc hholds => hfree ⟨c, hc, hholds⟩
      have hzero := malloc_pointer h heq hm
      omega

theorem FirstHolds.bestFits {L : Layout} {m : WordMem} {bs : List Block} {size : Nat}
    (hfirst : FirstHolds bs (rounded size)) (h : Intact L m bs) (hsize : rounded size < 2 ^ 32) :
    BestFits L m bs size := by
  have hL := L.nonnull
  rcases malloc_eq h size with ⟨hused, hnull⟩ | ⟨xs, b, ys, rfl, hp, heq⟩
  · have hno := not_holds_of_used hused (rounded size)
    exact ⟨iff_of_true ⟨m, hnull⟩ hno, fun ⟨b, hb, hholds⟩ => absurd hholds (hno b hb)⟩
  · obtain ⟨hholds, hmin⟩ := picks_smallest (total_eq hsize ▸ hp) hfirst
    obtain ⟨m', hm, hmark⟩ := malloc_holds h hholds.2
    rw [← total_eq hsize] at hm
    refine ⟨iff_of_false ?_ fun hall => hall b (by simp) hholds,
      fun _ => ⟨xs, b, ys, m', rfl, hholds, hmin, heq.trans hm, hmark⟩⟩
    rintro ⟨m'', hnull⟩
    have hzero := malloc_pointer h heq hnull
    omega

/-- **`Heap_Malloc` is best fit** on an intact list exactly where the first free block of the list, if there is one, is
large enough: that block is taken for a candidate whatever its size. -/
theorem bestFits_iff {L : Layout} {m : WordMem} {bs : List Block} {size : Nat} (h : Intact L m bs)
    (hsize : rounded size < 2 ^ 32) : BestFits L m bs size ↔ FirstHolds bs (rounded size) :=
  ⟨fun hbest => hbest.firstHolds h hsize, fun hfirst => hfirst.bestFits h hsize⟩

theorem bestFits_iff_fresh : BestFits sram (init sram fun _ => 0) [⟨false, SYS_HEAP_SIZE⟩] 8 ↔
    FirstHolds [⟨false, SYS_HEAP_SIZE⟩] (rounded 8) :=
  bestFits_iff (init_intact sram fun _ => 0) (by decide)

/-- Three allocations, of which the second one is freed: its 24 bytes are handed out to a request for 32. -/
theorem not_bestFits_hole : ∃ s bs, run (step sram) (start sram fun _ => 0) [.malloc 8, .malloc 8, .malloc 8, .free 1] =
    some s ∧ Intact sram s.mem bs ∧ ¬ BestFits sram s.mem bs 16 := by
  have hmeets : Meets (step sram) (StepMeets sram) (start sram fun _ => 0) [.malloc 8, .malloc 8, .malloc 8, .free 1] := by
    decide
  obtain ⟨s, hs, bs, hint, -⟩ := run_of_meets (fun _ _ => inv_step) (inv_start _ sram fun _ => 0) hmeets
  have hfirst : ∀ s ∈ run (step sram) (start sram fun _ => 0) [.malloc 8, .malloc 8, .malloc 8, .free 1],
      ¬ FirstHolds (blocks sram s.mem) (rounded 16) := by decide
  refine ⟨s, bs, hs, hint, fun hbest => hfirst s hs ?_⟩
  rw [hint.blocks_eq]
  exact hbest.firstHolds hint (by decide)

end YieldStm32.Heap
