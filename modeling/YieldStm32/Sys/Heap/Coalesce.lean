import Mathlib.Data.List.Chain
import YieldStm32.Sys.Heap.BestFit

/-!
# Coalescing

* `Coalesced` : no two neighbouring blocks of a list are free;
* `coalesced_freed` : joining a freed block with its neighbours keeps it;
* `freeMeets_of_free` : `Heap_Free` comes back only where its joins do not reach the last block;
* `Restores` : freeing all that is live, in any order, leaves one free block;
* `coalesced_of_run` : what holds of both after a run.
-/

namespace YieldStm32.Heap

open WordMem Tiling Transition

/-- One of any two neighbouring blocks is in use. -/
def Coalesced (bs : List Block) : Prop := bs.IsChain fun b c => b.used = true ∨ c.used = true

instance (bs : List Block) : Decidable (Coalesced bs) := inferInstanceAs (Decidable (List.IsChain _ bs))

/-! ## On the list -/

theorem coalesced_append_cons {xs ys : List Block} {b : Block} : Coalesced (xs ++ b :: ys) ↔
    Coalesced xs ∧ Coalesced ys ∧ (∀ x ∈ xs.getLast?, x.used = true ∨ b.used = true) ∧
      ∀ y ∈ ys.head?, b.used = true ∨ y.used = true := by
  unfold Coalesced
  rw [List.isChain_append, List.isChain_cons]
  simp only [List.head?_cons, Option.mem_def, Option.some.injEq, forall_eq']
  exact ⟨fun ⟨hxs, ⟨hhead, hys⟩, hlast⟩ => ⟨hxs, hys, hlast, hhead⟩,
    fun ⟨hxs, hys, hlast, hhead⟩ => ⟨hxs, ⟨hhead, hys⟩, hlast⟩⟩

theorem coalesced_used {xs ys : List Block} {b : Block} (h : Coalesced (xs ++ b :: ys)) (n : Nat) :
    Coalesced (xs ++ ⟨true, n⟩ :: ys) := by
  obtain ⟨hxs, hys, -, -⟩ := coalesced_append_cons.1 h
  exact coalesced_append_cons.2 ⟨hxs, hys, fun _ _ => Or.inr rfl, fun _ _ => Or.inl rfl⟩

theorem coalesced_split {xs : List Block} {b : Block} (h : Coalesced (xs ++ [b])) (n k : Nat) :
    Coalesced (xs ++ [⟨true, n⟩, ⟨false, k⟩]) := by
  obtain ⟨hxs, -, -, -⟩ := coalesced_append_cons.1 h
  exact coalesced_append_cons.2 ⟨hxs, List.isChain_singleton _, fun _ _ => Or.inr rfl, fun _ _ => Or.inl rfl⟩

/-- What follows a freed block that was joined with the next one is in use. -/
theorem coalesced_mergeNext {n : Nat} {ys : List Block} (h : Coalesced ys) :
    Coalesced (mergeNext n ys).2 ∧ ∀ y ∈ (mergeNext n ys).2.head?, y.used = true := by
  rcases ys with _ | ⟨⟨_ | _, k⟩, ys⟩
  · exact ⟨h, fun y hy => by cases hy⟩
  · obtain ⟨hys, hhead⟩ := (List.isChain_cons.1 h).symm
    exact ⟨hys, fun y hy => (hhead y hy).resolve_left Bool.false_ne_true⟩
  · refine ⟨h, fun y hy => ?_⟩
    cases hy
    rfl

theorem coalesced_mergePrev {n : Nat} {xs ys : List Block} (hxs : Coalesced xs) (hys : Coalesced ys)
    (hhead : ∀ y ∈ ys.head?, y.used = true) : Coalesced (mergePrev xs n ys) := by
  have hnext : ∀ y ∈ ys.head?, false = true ∨ y.used = true := fun y hy => Or.inr (hhead y hy)
  rcases List.eq_nil_or_concat xs with rfl | ⟨xs, ⟨u, k⟩, rfl⟩
  · exact List.isChain_cons.2 ⟨hnext, hys⟩
  · rw [List.concat_eq_append] at hxs ⊢
    obtain ⟨hxs', -, hlast, -⟩ := coalesced_append_cons.1 hxs
    cases u with
    | false =>
        rw [mergePrev_free]
        exact coalesced_append_cons.2 ⟨hxs', hys, hlast, hnext⟩
    | true =>
        rw [mergePrev_used]
        refine coalesced_append_cons.2 ⟨hxs, hys, fun x hx => ?_, hnext⟩
        rw [List.getLast?_concat] at hx
        cases hx
        exact Or.inl rfl

/-- A freed block is joined with its neighbours as far as they are free. -/
theorem coalesced_freed {n : Nat} {xs ys : List Block} (h : Coalesced (xs ++ ⟨true, n⟩ :: ys)) :
    Coalesced (freed xs n ys) := by
  obtain ⟨hxs, hys, -, -⟩ := coalesced_append_cons.1 h
  obtain ⟨hzs, hhead⟩ := coalesced_mergeNext (n := n) hys
  exact coalesced_mergePrev hxs hzs hhead

/-! ## Where `Heap_Free` does not come back -/

/-- A join with a block that nothing follows. -/
theorem join_eq_none {m : WordMem} {x y : Nat} (hx : 0 < x) (hxy : x + blockHdr ≤ y) (hy : y + blockHdr < 2 ^ 32)
    (hnext : m (y + offNext) = 0) : join m x y = none := by
  have ho := offs
  rw [join, load_eq m hx (by omega), load_eq m (by omega) (by omega)]
  simp only [Option.bind_eq_bind, Option.bind_some]
  rw [store_eq m _ hx (by omega), Option.bind_some, load_eq _ (by omega) (by omega), Option.bind_some,
    set_ne _ _ (by omega), hnext, store_eq _ _ hx (by omega), Option.bind_some, load_eq _ (by omega) (by omega),
    Option.bind_some, set_ne _ _ (by omega), set_ne _ _ (by omega), hnext]
  rfl

theorem joinNext_eq_none {L : Layout} {m : WordMem} {xs : List Block} {n k : Nat}
    (h : Intact L m (xs ++ [⟨false, n⟩, ⟨false, k⟩])) : joinNext m (L.heap + span Block.size xs) = none := by
  have ho := offs
  have hL := L.nonnull
  have hfit := h.fits
  simp only [span_append, span_cons, span_nil] at hfit
  have hsz := h.sized
  simp only [sized_append, sized_cons] at hsz
  obtain ⟨-, hb, hc, -⟩ := (seg_focus ..).1 h.seg
  dsimp only at hb hc
  rw [joinNext, load_eq m (by omega) (by omega), hb.next, link_cons]
  simp only [Option.bind_eq_bind, Option.bind_some]
  rw [hc.isFree (by omega) (by omega), Option.bind_some]
  exact join_eq_none (by omega) (by omega) (by omega) hc.next

theorem joinPrev_eq_none {L : Layout} {m : WordMem} {xs : List Block} {n k : Nat}
    (h : Intact L m (xs ++ [⟨false, k⟩, ⟨false, n⟩])) : joinPrev m (L.heap + span Block.size xs + k) = none := by
  have ho := offs
  have hL := L.nonnull
  have hfit := h.fits
  simp only [span_append, span_cons, span_nil] at hfit
  have hsz := h.sized
  simp only [sized_append, sized_cons] at hsz
  obtain ⟨-, hp, hb, -⟩ := (seg_focus ..).1 h.seg
  dsimp only at hp hb
  rw [joinPrev, load_eq m (by omega) (by omega), hb.prev]
  simp only [Option.bind_eq_bind, Option.bind_some]
  rw [hp.isFree (by omega) (by omega), Option.bind_some]
  exact join_eq_none (by omega) (by omega) (by omega) hb.next

/-- The address tells the place in the list. -/
theorem take_span_inj {bs : List Block} (hs : Sized bs) {i j : Nat} (hi : i < bs.length) (hj : j < bs.length)
    (h : span Block.size (bs.take i) = span Block.size (bs.take j)) : i = j := by
  have ho := offs
  induction bs generalizing i j with
  | nil => cases hi
  | cons b bs ih =>
      obtain ⟨⟨sb, -⟩, sbs⟩ := sized_cons.1 hs
      cases i with
      | zero =>
          cases j with
          | zero => rfl
          | succ j =>
              rw [List.take_zero, List.take_succ_cons, span_nil, span_cons] at h
              omega
      | succ i =>
          rw [List.take_succ_cons, span_cons] at h
          cases j with
          | zero =>
              rw [List.take_zero, span_nil] at h
              omega
          | succ j =>
              rw [List.take_succ_cons, span_cons] at h
              exact congrArg _ (ih sbs (Nat.lt_of_succ_lt_succ hi) (Nat.lt_of_succ_lt_succ hj) (by omega))

/-- **`Heap_Free` comes back** only where it joins with nothing that is, or would become, the last block. -/
theorem freeMeets_of_free {L : Layout} {m m' : WordMem} {xs ys : List Block} {n : Nat}
    (h : Intact L m (xs ++ ⟨true, n⟩ :: ys)) (hf : free m (L.heap + span Block.size xs + blockHdr) = some m') :
    FreeMeets L (xs ++ ⟨true, n⟩ :: ys) (L.heap + span Block.size xs + blockHdr) := by
  have ho := offs
  have hL := L.nonnull
  have hfit := h.fits
  have hsz := h.sized
  simp only [span_append, span_cons] at hfit
  simp only [sized_append, sized_cons] at hsz
  have hb := block_of_pointer (show L.heap + span Block.size xs < 2 ^ 32 by omega)
  have h1 : Intact L (m.set (L.heap + span Block.size xs + offUsed) 0) (xs ++ ⟨false, n⟩ :: ys) := h.mark false
  rw [free, if_neg (by omega)] at hf
  simp only [hb, Option.bind_eq_bind] at hf
  rw [store_eq _ _ (by omega) (by omega), Option.bind_some] at hf
  obtain ⟨m₂, hj, hp⟩ := Option.bind_eq_some_iff.1 hf
  intro i hi hptr
  have hxs : (xs ++ ⟨true, n⟩ :: ys).take xs.length = xs := List.take_left
  obtain rfl : i = xs.length := by
    apply take_span_inj h.sized hi (by simp)
    rw [hxs]
    omega
  refine ⟨fun c hc hu => ?_, fun c hc hu => ?_⟩
  · rcases ys with _ | ⟨⟨u, k⟩, _ | ⟨d, ys⟩⟩
    · simp at hc
    · obtain rfl : u = false := by
        simp at hc
        rw [← hc] at hu
        exact hu
      rw [joinNext_eq_none h1] at hj
      cases hj
    · simp
  · cases ys with
    | nil =>
        rw [hxs] at hc
        obtain ⟨xs', rfl⟩ : ∃ xs', xs = xs' ++ [c] := ⟨xs.dropLast, (List.dropLast_append_getLast? c hc).symm⟩
        obtain ⟨u, k⟩ := c
        obtain rfl : u = false := hu
        obtain ⟨m₂', hj', h2, -⟩ := joinNext_spec h1 (fun c hc => by cases hc)
        obtain rfl : m₂' = m₂ := Option.some.inj (hj'.symm.trans hj)
        rw [mergeNext_nil, List.append_assoc, List.singleton_append] at h2
        have hnone := joinPrev_eq_none h2
        rw [span_append, span_cons, span_nil, Nat.add_zero, ← Nat.add_assoc] at hp
        rw [hnone] at hp
        cases hp
    | cons d ys => simp

/-- Two blocks are left where there were two. -/
theorem two_le_length_freed {L : Layout} {xs ys : List Block} {n : Nat}
    (h : FreeMeets L (xs ++ ⟨true, n⟩ :: ys) (L.heap + span Block.size xs + blockHdr))
    (hlen : 2 ≤ (xs ++ ⟨true, n⟩ :: ys).length) : 2 ≤ (freed xs n ys).length := by
  obtain ⟨hnext, hprev⟩ := h.sides
  unfold freed
  rcases List.eq_nil_or_concat xs with rfl | ⟨xs, ⟨u, k⟩, rfl⟩
  · have hne : ys ≠ [] := by
      rintro rfl
      exact absurd hlen (by simp)
    have hpos := List.length_pos_iff.2 (mergeNext_ne_nil (n := n) hnext hne)
    rw [mergePrev_nil, List.length_cons]
    omega
  · rw [List.concat_eq_append] at *
    cases u with
    | true =>
        rw [mergePrev_used]
        simp
        omega
    | false =>
        have hne := hprev ⟨false, k⟩ (by simp) rfl
        have hpos := List.length_pos_iff.2 (mergeNext_ne_nil (n := n) hnext hne)
        rw [mergePrev_free, List.length_append, List.length_cons]
        omega

/-! ## Over a run -/

/-- The list is intact and coalesced, and its used blocks are those of the live pointers. -/
structure Tidy (L : Layout) (s : State) (bs : List Block) : Prop where
  intact : Intact L s.mem bs
  live : Live (fun _ _ => True) L.heap bs s.live
  coalesced : Coalesced bs
  count : (usedPlaces L.heap bs).length = s.live.length

theorem tidy_start (L : Layout) (m : WordMem) : Tidy L (start L m) [⟨false, SYS_HEAP_SIZE⟩] :=
  ⟨init_intact L m, ⟨List.nodup_nil, fun _ hl => by cases hl⟩, List.isChain_singleton _, rfl⟩

theorem tidy_malloc {L : Layout} {s s' : State} {bs : List Block} {size : BitVec 32} (h : Tidy L s bs)
    (hm : MallocMeets bs size.toNat) (hs : step L s (.malloc size) = some s') : ∃ bs', Tidy L s' bs' := by
  have hL := L.nonnull
  have ho := offs
  obtain ⟨s₁, hs₁, bs₁, hint₁, hlive₁⟩ := inv_malloc (R := fun _ _ => True) ⟨bs, h.intact, h.live⟩
    (h.intact.blocks_eq.symm ▸ hm) fun _ _ _ _ _ _ _ => trivial
  obtain rfl := Option.some.inj (hs₁.symm.trans hs)
  rcases malloc_spec h.intact hm with hnull | ⟨xs, b, ys, n, zs, m', rfl, hp, heq, hint, -, hzs⟩
  · rw [step, hnull] at hs
    cases hs
    exact ⟨bs, h⟩
  · rw [step, heq] at hs
    simp only [Option.bind_eq_bind, Option.bind_some, if_neg (show ¬ L.heap + span Block.size xs + blockHdr = 0 by omega)] at hs
    cases hs
    obtain rfl : bs₁ = xs ++ ⟨true, n⟩ :: zs := hint₁.blocks_eq.symm.trans hint.blocks_eq
    refine ⟨_, hint₁, hlive₁, ?_, ?_⟩
    · rcases hzs with ⟨rfl, rfl, -⟩ | ⟨rfl, rfl, rfl⟩
      · exact coalesced_used h.coalesced _
      · exact coalesced_split h.coalesced _ _
    · have hcount := h.count
      obtain ⟨u, k⟩ := b
      obtain rfl : u = false := ((picks_append ..).1 hp).1
      rw [usedPlaces_append, usedPlaces_free, List.length_append] at hcount
      rw [usedPlaces_append, usedPlaces_used, List.length_append, List.length_cons, List.length_cons, ← hcount]
      rcases hzs with ⟨rfl, rfl, -⟩ | ⟨rfl, rfl, rfl⟩ <;> rfl

theorem tidy_free {L : Layout} {s s' : State} {bs : List Block} {i : Nat} (h : Tidy L s bs)
    (hs : step L s (.free i) = some s') : ∃ bs', Tidy L s' bs' ∧ (2 ≤ bs.length → 2 ≤ bs'.length) := by
  obtain ⟨m', hf, hs⟩ := Option.bind_eq_some_iff.1 hs
  cases hs
  by_cases hi : i < s.live.length
  · obtain ⟨xs, n, ys, rfl, hptr⟩ := h.live.block hi
    rw [hptr] at hf
    have hmeets := freeMeets_of_free h.intact hf
    obtain ⟨m₁, hf₁, hint, -⟩ := free_spec h.intact hmeets
    obtain rfl := Option.some.inj (hf₁.symm.trans hf)
    obtain ⟨s₂, hs₂, bs₂, hint₂, hlive₂⟩ := inv_free (R := fun _ _ => True) (i := i) ⟨_, h.intact, h.live⟩
      (by rwa [h.intact.blocks_eq, hptr])
    rw [step, hptr, hf] at hs₂
    cases hs₂
    obtain rfl : bs₂ = freed xs n ys := hint₂.blocks_eq.symm.trans hint.blocks_eq
    refine ⟨_, ⟨hint, hlive₂, coalesced_freed h.coalesced, ?_⟩, fun hlen => ?_⟩
    · have hcount := h.count
      rw [usedPlaces_append, usedPlaces_used, List.length_append, List.length_cons] at hcount
      rw [usedPlaces_freed, List.length_append]
      show _ = (s.live.eraseIdx i).length
      rw [List.length_eraseIdx_of_lt hi, ← hcount]
      rfl
    · exact two_le_length_freed hmeets hlen
  · rw [State.ptr_null (by omega)] at hf
    cases hf
    rw [List.eraseIdx_of_length_le (by omega)]
    exact ⟨bs, h, id⟩

/-- Each split of the run is made on the last block, without wrap-around of the size. -/
def SplitsLast (L : Layout) (s : State) : Op → Prop
  | .malloc size => MallocMeets (blocks L s.mem) size.toNat
  | .free _ => True

instance (L : Layout) (s : State) : ∀ op, Decidable (SplitsLast L s op)
  | .malloc size => inferInstanceAs (Decidable (MallocMeets (blocks L s.mem) size.toNat))
  | .free _ => isTrue trivial

theorem tidy_step {L : Layout} {s s' : State} {op : Op} (h : ∃ bs, Tidy L s bs) (hm : SplitsLast L s op)
    (hs : step L s op = some s') : ∃ bs, Tidy L s' bs := by
  obtain ⟨bs, h⟩ := h
  cases op with
  | malloc size => exact tidy_malloc h (h.intact.blocks_eq ▸ hm) hs
  | free i =>
      obtain ⟨bs', h', -⟩ := tidy_free h hs
      exact ⟨bs', h'⟩

/-! ## Freeing all -/

/-- An order to free `n` pointers in: each of them is given by its place among those still live. -/
def Order : Nat → List Nat → Prop
  | 0, is => is = []
  | _ + 1, [] => False
  | n + 1, i :: is => i ≤ n ∧ Order n is

/-- In whatever order the live pointers are freed, one free block is left. -/
def Restores (L : Layout) (s : State) : Prop := ∀ is, Order s.live.length is →
  ∃ s', run (step L) s (is.map .free) = some s' ∧ blocks L s'.mem = [⟨false, SYS_HEAP_SIZE⟩]

theorem order_zeros (n : Nat) : Order n (List.replicate n 0) := by
  induction n with
  | zero => rfl
  | succ n ih => exact ⟨Nat.zero_le n, ih⟩

theorem two_le_of_frees {L : Layout} {s s' : State} {bs : List Block} {is : List Nat} (h : Tidy L s bs)
    (hlen : 2 ≤ bs.length) (hrun : run (step L) s (is.map .free) = some s') : 2 ≤ (blocks L s'.mem).length := by
  induction is generalizing s bs with
  | nil =>
      cases hrun
      rwa [h.intact.blocks_eq]
  | cons i is ih =>
      obtain ⟨s₁, hs₁, hrun⟩ := Option.bind_eq_some_iff.1 hrun
      obtain ⟨bs₁, h₁, hlen₁⟩ := tidy_free h hs₁
      exact ih h₁ (hlen₁ hlen) hrun

/-- A list of one block is restored, and no other is. -/
theorem restores_iff {L : Layout} {s : State} {bs : List Block} (h : Tidy L s bs) : Restores L s ↔ bs.length = 1 := by
  constructor
  · intro hr
    obtain ⟨s', hrun, hone⟩ := hr _ (order_zeros _)
    have hpos := List.length_pos_iff.2 h.intact.ne_nil
    by_contra hlen
    have htwo := two_le_of_frees h (by omega) hrun
    rw [hone] at htwo
    exact absurd htwo (by decide)
  · intro hlen is his
    obtain ⟨⟨u, n⟩, rfl⟩ := List.length_eq_one_iff.1 hlen
    have hsum : n = SYS_HEAP_SIZE := h.intact.sum
    cases u with
    | false =>
        have hlive : s.live.length = 0 := h.count.symm
        rw [hlive] at his
        obtain rfl : is = [] := his
        exact ⟨s, rfl, by rw [h.intact.blocks_eq, hsum]⟩
    | true =>
        have hlive : s.live.length = 1 := h.count.symm
        rw [hlive] at his
        match is, his with
        | i :: is, ⟨hi, his⟩ =>
            obtain rfl : is = [] := his
            obtain ⟨xs, k, ys, hbs, hptr⟩ := h.live.block (show i < s.live.length by rw [hlive]; exact Nat.lt_succ_of_le hi)
            obtain ⟨rfl, rfl, rfl⟩ : xs = [] ∧ k = n ∧ ys = [] := by
              cases xs with
              | nil =>
                  cases hbs
                  exact ⟨rfl, rfl, rfl⟩
              | cons x xs =>
                  have := congrArg List.length hbs
                  simp at this
            have hmeets : FreeMeets L [⟨true, k⟩] (L.heap + span Block.size [] + blockHdr) := by
              intro j hj _
              obtain rfl : j = 0 := Nat.lt_one_iff.1 hj
              exact ⟨fun c hc => (by cases hc), fun c hc => (by cases hc)⟩
            obtain ⟨m', hf, hint, -⟩ := @free_spec L s.mem [] [] k h.intact hmeets
            refine ⟨⟨m', s.live.eraseIdx i⟩, ?_, ?_⟩
            · rw [List.map_singleton, run, step, hptr, hf]
              rfl
            · rw [hint.blocks_eq, ← hsum]
              rfl

/-- **Coalescing**: in every state a run comes to whose splits are made on the last block, no two neighbouring blocks are
free; and freeing all that is live restores the one free block exactly where the list is one block, since what comes to
be joined with the last block of a longer one does not come back. -/
theorem coalesced_of_run {L : Layout} {m : WordMem} {ops : List Op} {s : State}
    (h : Meets (step L) (SplitsLast L) (start L m) ops) (hs : run (step L) (start L m) ops = some s) :
    Coalesced (blocks L s.mem) ∧ (Restores L s ↔ (blocks L s.mem).length = 1) := by
  obtain ⟨bs, htidy⟩ := keeps_of_meets (I := fun s => ∃ bs, Tidy L s bs) (fun _ _ _ => tidy_step) ⟨_, tidy_start L m⟩ h hs
  rw [htidy.intact.blocks_eq]
  exact ⟨htidy.coalesced, restores_iff htidy⟩

/-- A free block between two used ones, and one behind them. -/
theorem coalesced_of_run_hole : ∃ s,
    run (step sram) (start sram fun _ => 0) [.malloc 8, .malloc 8, .malloc 8, .free 1] = some s ∧
      Coalesced (blocks sram s.mem) ∧ (Restores sram s ↔ (blocks sram s.mem).length = 1) := by
  have hsome : (run (step sram) (start sram fun _ => 0) [.malloc 8, .malloc 8, .malloc 8, .free 1]).isSome = true := by
    decide
  obtain ⟨s, hs⟩ := Option.isSome_iff_exists.1 hsome
  exact ⟨s, hs, coalesced_of_run (by decide) hs⟩

/-- Freeing the only allocation does not come back; and where a split was made in the midst of the list, the block behind
it is not joined with the free rest before it. -/
theorem not_coalesced_stale : (∃ s, run (step sram) (start sram fun _ => 0) [.malloc 8] = some s ∧ ¬ Restores sram s) ∧
    ∃ s, run (step sram) (start sram fun _ => 0)
      [.malloc 8, .malloc 64, .malloc 8, .malloc 8, .free 2, .malloc 8, .free 2] = some s ∧
        ¬ Coalesced (blocks sram s.mem) := by
  constructor
  · have hone : ∃ s ∈ run (step sram) (start sram fun _ => 0) [.malloc 8], s.live.length = 1 ∧
        (step sram s (.free 0)).isNone = true := by decide
    obtain ⟨s, hs, hlive, hnone⟩ := hone
    refine ⟨s, hs, fun hr => ?_⟩
    obtain ⟨s', hrun, -⟩ := hr [0] (by rw [hlive]; exact ⟨Nat.le_refl 0, rfl⟩)
    rw [List.map_singleton, run, Option.isNone_iff_eq_none.1 hnone] at hrun
    cases hrun
  · have hnot : ∃ s ∈ run (step sram) (start sram fun _ => 0)
        [.malloc 8, .malloc 64, .malloc 8, .malloc 8, .free 2, .malloc 8, .free 2], ¬ Coalesced (blocks sram s.mem) := by
      decide
    exact hnot

end YieldStm32.Heap
