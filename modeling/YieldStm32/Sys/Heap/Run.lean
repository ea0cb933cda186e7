import Mathlib.Data.List.InsertIdx
import Mathlib.Data.List.Nodup
import YieldStm32.Lib.Run
import YieldStm32.Sys.Heap.Alloc

/-!
# Runs of the allocator

A run is any sequence of `Heap_Malloc` calls, of any 32-bit size, and of `Heap_Free` calls on null or on a pointer that
`Heap_Malloc` returned and that was not freed since. `State.live` keeps these pointers with the size asked for.

* `blockList_of_run` : where every split is made on the last block and no join reaches it, the list tiles the heap;
* `malloc_usable` : where, in addition, the first free block can hold each request, the memory returned is usable.

The two conditions are not met by every run: `Heap_Free` writes through the null `next` of the last block when it joins
with it (`free_last_faults`), and `Heap_Malloc` takes the first free block whatever its size (`malloc_too_small`).
-/

namespace YieldStm32.Heap

open WordMem Tiling Transition

/-- The memory, and the pointers in the hands of the clients with the sizes they asked for. -/
structure State where
  mem : WordMem
  live : List (Nat × Nat)

/-- A call: `Heap_Malloc(size)`, or `Heap_Free` of the `i`-th live pointer (null if there is none). -/
inductive Op where
  | malloc (size : BitVec 32)
  | free (i : Nat)

/-- The pointer passed to `Heap_Free`. -/
def State.ptr (s : State) (i : Nat) : Nat := (s.live[i]?.map Prod.fst).getD 0

def step (L : Layout) (s : State) : Op → Option State
  | .malloc size => do
    let (p, m) ← malloc L s.mem size.toNat
    some ⟨m, if p = 0 then s.live else (p, size.toNat) :: s.live⟩
  | .free i => do
    let m ← free s.mem (s.ptr i)
    some ⟨m, s.live.eraseIdx i⟩

/-- After `Heap_Init`, on any memory. -/
def start (L : Layout) (m : WordMem) : State := ⟨init L m, []⟩

/-! ## The invariant -/

/-- Each live pointer is the memory of a used block of its own; `R` relates the size asked for to the block's. -/
structure Live (R : Nat → Nat → Prop) (a : Nat) (bs : List Block) (live : List (Nat × Nat)) : Prop where
  nodup : (live.map Prod.fst).Nodup
  used : ∀ l ∈ live, ∃ x n, (x, ⟨true, n⟩) ∈ usedPlaces a bs ∧ l.1 = x + blockHdr ∧ R l.2 n

/-- The block list is intact and holds the live allocations. -/
def Inv (R : Nat → Nat → Prop) (L : Layout) (s : State) : Prop :=
  ∃ bs, Intact L s.mem bs ∧ Live R L.heap bs s.live

theorem inv_start (R : Nat → Nat → Prop) (L : Layout) (m : WordMem) : Inv R L (start L m) :=
  ⟨_, init_intact L m, List.nodup_nil, by simp [start]⟩

/-- A used block does not start where a free one does. -/
theorem usedPlaces_ne {a x n : Nat} {xs ys : List Block} {b : Block} (hs : Sized (xs ++ b :: ys))
    (hb : b.used = false) (h : (x, ⟨true, n⟩) ∈ usedPlaces a (xs ++ b :: ys)) : x ≠ a + span Block.size xs := by
  have ho := offs
  obtain ⟨b, k⟩ := b
  obtain rfl : b = false := hb
  rw [usedPlaces_append, usedPlaces_free, List.mem_append] at h
  simp only [sized_append, sized_cons] at hs
  obtain ⟨sxs, ⟨sk, -⟩, -⟩ := hs
  rcases h with h | h
  · have hp := (List.mem_filter.1 h).1
    obtain ⟨us, vs, rfl, -⟩ := mem_place_split hp
    have hb := mem_place_bounds hp
    have := (sxs ⟨true, n⟩ (by simp)).1
    dsimp only at hb this
    omega
  · have hb := mem_place_bounds (List.mem_filter.1 h).1
    omega

/-- `Heap_Malloc` keeps the invariant: the block it hands out was not live. -/
theorem inv_malloc {R : Nat → Nat → Prop} {L : Layout} {s : State} {size : BitVec 32} (h : Inv R L s)
    (hm : MallocMeets (blocks L s.mem) size.toNat)
    (hR : ∀ xs b ys n, blocks L s.mem = xs ++ b :: ys → Picks (blocks L s.mem) (total size.toNat) xs.length →
      n = b.size ∨ n = total size.toNat → R size.toNat n) :
    ∃ s', step L s (.malloc size) = some s' ∧ Inv R L s' := by
  have ho := offs
  have hL := L.nonnull
  obtain ⟨bs, hint, hlive⟩ := h
  rw [hint.blocks_eq] at hm hR
  rcases malloc_spec hint hm with h0 | ⟨xs, b, ys, n, zs, m', rfl, hp, heq, hint', -, hzs⟩
  · exact ⟨s, by simp [step, h0], bs, hint, hlive⟩
  · have hu : b.used = false := ((picks_append ..).1 hp).1
    refine ⟨⟨m', (L.heap + span Block.size xs + blockHdr, size.toNat) :: s.live⟩, ?_, _, hint', ?_, ?_⟩
    · simp only [step, heq, Option.bind_eq_bind, Option.bind_some]
      rw [if_neg (by omega)]
    · refine List.nodup_cons.2 ⟨fun hmem => ?_, hlive.nodup⟩
      obtain ⟨l, hl, hl1⟩ := List.mem_map.1 hmem
      obtain ⟨x, k, hx, hlx, -⟩ := hlive.used l hl
      exact usedPlaces_ne hint.sized hu hx (by omega)
    · have hnew : usedPlaces L.heap (xs ++ ⟨true, n⟩ :: zs) = usedPlaces L.heap xs ++
          (L.heap + span Block.size xs, ⟨true, n⟩) :: usedPlaces (L.heap + span Block.size xs + n) zs := by
        rw [usedPlaces_append, usedPlaces_used]
      have hold : ∀ e ∈ usedPlaces L.heap (xs ++ b :: ys), e ∈ usedPlaces L.heap (xs ++ ⟨true, n⟩ :: zs) := by
        obtain ⟨u, k⟩ := b
        obtain rfl : u = false := hu
        intro e he
        rw [hnew]
        rw [usedPlaces_append, usedPlaces_free, List.mem_append] at he
        rcases he with he | he
        · exact List.mem_append_left _ he
        · rcases hzs with ⟨rfl, rfl, -⟩ | ⟨-, rfl, -⟩
          · exact List.mem_append_right _ (List.mem_cons_of_mem _ he)
          · simp at he
      refine List.forall_mem_cons.2 ⟨⟨_, n, ?_, rfl, ?_⟩, fun l hl => ?_⟩
      · rw [hnew]
        simp
      · exact hR xs b ys n rfl hp (hzs.imp And.left And.left)
      · obtain ⟨x, k, hx, hlx, hr⟩ := hlive.used l hl
        exact ⟨x, k, hold _ hx, hlx, hr⟩

/-- The block of a live pointer. -/
theorem Live.block {R : Nat → Nat → Prop} {L : Layout} {s : State} {bs : List Block} {i : Nat}
    (h : Live R L.heap bs s.live) (hi : i < s.live.length) :
    ∃ xs n ys, bs = xs ++ ⟨true, n⟩ :: ys ∧ s.ptr i = L.heap + span Block.size xs + blockHdr := by
  have hl : s.live[i]? = some s.live[i] := List.getElem?_eq_getElem hi
  obtain ⟨x, n, hx, hlx, -⟩ := h.used _ (List.getElem_mem hi)
  obtain ⟨xs, ys, rfl, rfl⟩ := mem_place_split (List.mem_filter.1 hx).1
  exact ⟨xs, n, ys, rfl, by rw [State.ptr, hl, ← hlx]; rfl⟩

/-- A pointer that is not there is null. -/
theorem State.ptr_null {s : State} {i : Nat} (hi : s.live.length ≤ i) : s.ptr i = 0 := by
  rw [State.ptr, List.getElem?_eq_none hi]
  rfl

/-- `Heap_Free` keeps the invariant: only the block freed is no longer used. -/
theorem inv_free {R : Nat → Nat → Prop} {L : Layout} {s : State} {i : Nat} (h : Inv R L s)
    (hf : FreeMeets L (blocks L s.mem) (s.ptr i)) : ∃ s', step L s (.free i) = some s' ∧ Inv R L s' := by
  have ho := offs
  obtain ⟨bs, hint, hlive⟩ := h
  rw [hint.blocks_eq] at hf
  by_cases hi : i < s.live.length
  · obtain ⟨xs, n, ys, rfl, hptr⟩ := hlive.block hi
    have hlx : (s.live[i]).1 = L.heap + span Block.size xs + blockHdr := by
      rw [← hptr, State.ptr, List.getElem?_eq_getElem hi]
      rfl
    rw [hptr] at hf
    obtain ⟨m', heq, hint', -⟩ := free_spec hint hf
    refine ⟨⟨m', s.live.eraseIdx i⟩, by simp [step, hptr, heq], _, hint', ?_, fun l hmem => ?_⟩
    · rw [← List.eraseIdx_map]
      exact hlive.nodup.sublist (List.eraseIdx_sublist ..)
    · obtain ⟨j, hj, hji, rfl⟩ := List.mem_eraseIdx_iff_getElem.1 hmem
      obtain ⟨y, k, hy, hly, hr⟩ := hlive.used _ (List.getElem_mem hj)
      refine ⟨y, k, ?_, hly, hr⟩
      have hne : y ≠ L.heap + span Block.size xs := by
        rintro rfl
        have hj' : j < (s.live.map Prod.fst).length := by simpa using hj
        have hi' : i < (s.live.map Prod.fst).length := by simpa using hi
        have heq : (s.live.map Prod.fst)[j] = (s.live.map Prod.fst)[i] := by
          simp only [List.getElem_map]
          omega
        exact hji ((List.Nodup.getElem_inj_iff hlive.nodup).1 heq)
      rw [usedPlaces_append, usedPlaces_used, List.mem_append, List.mem_cons] at hy
      rw [usedPlaces_freed, List.mem_append]
      rcases hy with hy | hy | hy
      · exact Or.inl hy
      · exact absurd (congrArg Prod.fst hy) hne
      · exact Or.inr hy
  · refine ⟨s, ?_, bs, hint, hlive⟩
    rw [step, State.ptr_null (by omega), List.eraseIdx_of_length_le (by omega)]
    rfl

/-! ## The block list over a run -/

/-- What each call must meet for the list to stay intact. -/
def StepMeets (L : Layout) (s : State) : Op → Prop
  | .malloc size => MallocMeets (blocks L s.mem) size.toNat
  | .free i => FreeMeets L (blocks L s.mem) (s.ptr i)

instance (L : Layout) (s : State) : ∀ op, Decidable (StepMeets L s op)
  | .malloc size => inferInstanceAs (Decidable (MallocMeets (blocks L s.mem) size.toNat))
  | .free i => inferInstanceAs (Decidable (FreeMeets L (blocks L s.mem) (s.ptr i)))

theorem inv_step {L : Layout} {s : State} {op : Op} (h : Inv (fun _ _ => True) L s) (hm : StepMeets L s op) :
    ∃ s', step L s op = some s' ∧ Inv (fun _ _ => True) L s' := by
  cases op with
  | malloc size => exact inv_malloc h hm fun _ _ _ _ _ _ _ => trivial
  | free i => exact inv_free h hm

/-- **The block list tiles the heap** after every run whose calls meet `StepMeets`, and no step of the run goes through a
null link. -/
theorem blockList_of_run (L : Layout) (m : WordMem) (ops : List Op)
    (h : Meets (step L) (StepMeets L) (start L m) ops) :
    ∃ s, run (step L) (start L m) ops = some s ∧ ∃ bs, Intact L s.mem bs := by
  obtain ⟨s, hs, bs, hint, -⟩ := run_of_meets (fun _ _ => inv_step) (inv_start _ L m) h
  exact ⟨s, hs, bs, hint⟩

/-- The heap at the start of the SRAM. -/
def sram : Layout := ⟨0x20000000, by decide, by decide, by decide⟩

/-- Three allocations, a free between used neighbours, one that joins with its successor, and a reuse. -/
theorem blockList_of_run_reuse :
    ∃ s, run (step sram) (start sram fun _ => 0) [.malloc 8, .malloc 8, .malloc 16, .free 1, .free 1, .malloc 8] =
      some s ∧ ∃ bs, Intact sram s.mem bs :=
  blockList_of_run sram (fun _ => 0) _ (by decide)

/-- The first block allocated lies before the last one of the list: freeing it joins with that one and writes through
its null `next`. -/
theorem free_last_faults :
    ¬ ∀ (L : Layout) (m : WordMem) (ops : List Op),
      ∃ s, run (step L) (start L m) ops = some s ∧ ∃ bs, Intact L s.mem bs := by
  intro h
  obtain ⟨s, hs, -⟩ := h sram (fun _ => 0) [.malloc 8, .free 0]
  have hnone : (run (step sram) (start sram fun _ => 0) [.malloc 8, .free 0]).isNone = true := by decide
  rw [hs] at hnone
  cases hnone

/-! ## The memory handed out -/

/-- The memory `[p, p + size)` is aligned, inside the heap, and apart from every header and every other allocation. -/
structure Usable (L : Layout) (m : WordMem) (live : List (Nat × Nat)) (p size : Nat) : Prop where
  aligned : p % 8 = 0
  inside : L.heap ≤ p ∧ p + size ≤ L.heap + SYS_HEAP_SIZE
  headers : ∀ a b, (a, b) ∈ place Block.size L.heap (blocks L m) → p + size ≤ a ∨ a + blockHdr ≤ p
  others : ∀ q ∈ live, p + size ≤ q.1 ∨ q.1 + q.2 ≤ p

/-- The block holds its header and the size asked for. -/
def Roomy (size n : Nat) : Prop := size + blockHdr ≤ n

theorem Inv.usable {L : Layout} {m : WordMem} {live : List (Nat × Nat)} {p size : Nat}
    (h : Inv Roomy L ⟨m, (p, size) :: live⟩) : Usable L m live p size := by
  have ho := offs
  obtain ⟨bs, hint, hnodup, hused⟩ := h
  obtain ⟨⟨x, n, hx, hp, hroom⟩, hlive⟩ := List.forall_mem_cons.1 hused
  have hx' := (List.mem_filter.1 hx).1
  have hbound := mem_place_bounds hx'
  rw [hint.sum] at hbound
  unfold Roomy at hroom
  dsimp only at hp hroom hbound
  refine ⟨?_, ⟨by omega, by omega⟩, fun a b hab => ?_, fun q hq => ?_⟩
  · obtain ⟨xs, ys, rfl, rfl⟩ := mem_place_split hx'
    have := (sized_append.1 hint.sized).1.span_mod
    have := L.aligned
    omega
  · rw [hint.blocks_eq] at hab
    have hab' : blockHdr ≤ b.size := by
      obtain ⟨xs, ys, rfl, -⟩ := mem_place_split hab
      exact (hint.sized b (by simp)).1
    have := mem_place_or hx' hab
    dsimp only at this
    omega
  · obtain ⟨y, k, hy, hq1, hqroom⟩ := hlive q hq
    have hne : p ≠ q.1 := by
      rintro rfl
      exact (List.nodup_cons.1 hnodup).1 (List.mem_map.2 ⟨q, hq, rfl⟩)
    have := mem_place_or hx' (List.mem_filter.1 hy).1
    unfold Roomy at hqroom
    dsimp only at this
    omega

/-- The first free block of the list, if there is one, holds the size asked for, computed without wrap-around. -/
def MallocFits (bs : List Block) (size : Nat) : Prop :=
  ∀ f ∈ bs.find? (fun c => !c.used), size + 7 + blockHdr < 2 ^ 32 ∧ total size ≤ f.size

/-- What each call must meet for the memory returned to be usable. -/
def StepFits (L : Layout) (s : State) : Op → Prop
  | .malloc size => MallocMeets (blocks L s.mem) size.toNat ∧ MallocFits (blocks L s.mem) size.toNat
  | .free i => FreeMeets L (blocks L s.mem) (s.ptr i)

instance (L : Layout) (s : State) : ∀ op, Decidable (StepFits L s op)
  | .malloc _ => inferInstanceAs (Decidable (_ ∧ ∀ f ∈ (blocks L s.mem).find? _, _))
  | .free i => inferInstanceAs (Decidable (FreeMeets L (blocks L s.mem) (s.ptr i)))

/-- The block picked is large enough where the first free one is. -/
theorem roomy_of_picks {xs ys : List Block} {b : Block} {size n : Nat} (hf : MallocFits (xs ++ b :: ys) size)
    (hp : Picks (xs ++ b :: ys) (total size) xs.length) (hn : n = b.size ∨ n = total size) : Roomy size n := by
  have hfirst : ∃ f ∈ (xs ++ b :: ys).find? (fun c => !c.used), f.size ≤ b.size ∨ total size ≤ b.size := by
    obtain ⟨hu, ⟨-, hxs⟩ | ⟨hle, -⟩⟩ := (picks_append ..).1 hp
    · refine ⟨b, ?_, Or.inl (Nat.le_refl _)⟩
      have hnone : xs.find? (fun c => !c.used) = none := List.find?_eq_none.2 fun c hc => by simp [hxs c hc]
      simp [List.find?_append, hnone, hu]
    · obtain ⟨f, hfind⟩ : ∃ f, (xs ++ b :: ys).find? (fun c => !c.used) = some f :=
        Option.isSome_iff_exists.1 (List.find?_isSome.2 ⟨b, by simp, by simp [hu]⟩)
      exact ⟨f, hfind, Or.inr hle⟩
  obtain ⟨f, hfind, hle⟩ := hfirst
  obtain ⟨hwrap, htot⟩ := hf f hfind
  have := total_ge hwrap
  unfold Roomy
  omega

theorem inv_step_fits {L : Layout} {s : State} {op : Op} (h : Inv Roomy L s) (hm : StepFits L s op) :
    ∃ s', step L s op = some s' ∧ Inv Roomy L s' := by
  cases op with
  | malloc size =>
      refine inv_malloc h hm.1 fun xs b ys n heq hp hn => roomy_of_picks (heq ▸ hm.2) (heq ▸ hp) hn
  | free i => exact inv_free h hm

/-- **Allocations are usable and disjoint**: in every state reached by calls that meet `StepFits`, for every request that
meets it too, a non-null pointer returned by `Heap_Malloc` is aligned, and its memory lies inside the heap, apart from
every header and from every other live allocation. -/
theorem malloc_usable (L : Layout) (m : WordMem) (ops : List Op) (s : State) (size : BitVec 32) (p : Nat) (m' : WordMem)
    (hrun : Meets (step L) (StepFits L) (start L m) ops) (hs : run (step L) (start L m) ops = some s)
    (hsize : StepFits L s (.malloc size)) (hp : malloc L s.mem size.toNat = some (p, m')) (hne : p ≠ 0) :
    Usable L m' s.live p size.toNat := by
  obtain ⟨s₁, hs₁, hinv⟩ := run_of_meets (fun _ _ => inv_step_fits) (inv_start _ L m) hrun
  obtain rfl : s₁ = s := Option.some.inj (hs₁.symm.trans hs)
  obtain ⟨s', hs', hinv'⟩ := inv_step_fits hinv hsize
  simp only [step, hp, Option.bind_eq_bind, Option.bind_some, if_neg hne, Option.some.injEq] at hs'
  rw [← hs'] at hinv'
  exact hinv'.usable

/-- A third allocation behind two others. -/
theorem malloc_usable_third :
    ∃ s p m', run (step sram) (start sram fun _ => 0) [.malloc 8, .malloc 8] = some s ∧
      malloc sram s.mem 16 = some (p, m') ∧ p = 0x20000040 ∧ Usable sram m' s.live p 16 := by
  have hsome : (run (step sram) (start sram fun _ => 0) [.malloc 8, .malloc 8]).isSome = true := by decide
  have hp : ∀ s ∈ run (step sram) (start sram fun _ => 0) [.malloc 8, .malloc 8],
      (malloc sram s.mem 16).map Prod.fst = some 0x20000040 := by decide
  have hfits : ∀ s ∈ run (step sram) (start sram fun _ => 0) [.malloc 8, .malloc 8],
      StepFits sram s (.malloc 16) := by decide
  obtain ⟨s, hs⟩ := Option.isSome_iff_exists.1 hsome
  obtain ⟨⟨p, m'⟩, hpm, rfl⟩ := Option.map_eq_some_iff.1 (hp s hs)
  exact ⟨s, _, m', hs, hpm, rfl, malloc_usable sram (fun _ => 0) [.malloc 8, .malloc 8] s 16 _ m' (by decide) hs
    (hfits s hs) hpm (by decide)⟩

/-- On the fresh heap a request for the size of the whole heap is given the only block, header and all. -/
theorem malloc_too_small :
    ¬ ∀ (L : Layout) (m : WordMem) (ops : List Op) (s : State) (size : BitVec 32) (p : Nat) (m' : WordMem),
      run (step L) (start L m) ops = some s → malloc L s.mem size.toNat = some (p, m') → p ≠ 0 →
      Usable L m' s.live p size.toNat := by
  intro h
  have hp : (malloc sram (start sram fun _ => 0).mem 36864).map Prod.fst = some 0x20000010 := by decide
  obtain ⟨⟨p, m'⟩, hpm, rfl⟩ := Option.map_eq_some_iff.1 hp
  have hu := (h sram (fun _ => 0) [] _ 36864 _ m' rfl hpm (by decide)).inside.2
  exact absurd hu (by decide)

end YieldStm32.Heap
