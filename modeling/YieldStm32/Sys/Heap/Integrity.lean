import YieldStm32.Sys.Heap.Run

/-!
# The integrity check (`Heap_CheckIntegrity`)

* `checkIntegrity` : the check;
* `Act`, `act` : the calls of the allocator, and a client's writes into what it was handed out;
* `Within` : the writes of a client that keeps to the size it asked for;
* `Spares` : the allocations that leave the heap's last four bytes alone;
* `integrity_of_run` : the check then finds nothing.
-/

namespace YieldStm32.Heap

open WordMem Tiling Transition

/-! ## The check -/

/-- The assertions. -/
inductive Check where
  | ok
  | heapEndCorrupted
  | heapBlockCorrupted
deriving DecidableEq, Repr

/-- The loop over the list. -/
def checkBlocks (m : WordMem) : (fuel b : Nat) → Option Check
  | 0, _ => none
  | fuel + 1, b =>
    if b = 0 then some .ok
    else do
      let used ← load m b offUsed
      if used ≠ 0 ∧ used ≠ DEADC0DE then some .heapBlockCorrupted else checkBlocks m fuel (← load m b offNext)

/-- `last_four_bytes` -/
def lastFourBytes (L : Layout) : Nat := L.heap + SYS_HEAP_SIZE - 4

/-- `Heap_CheckIntegrity` -/
def checkIntegrity (L : Layout) (m : WordMem) : Option Check :=
  if m (u32 (lastFourBytes L)) ≠ DEADC0DE then some .heapEndCorrupted else checkBlocks m searchFuel L.heap

/-! ## Clients -/

/-- A word with one of its bytes replaced. -/
def putByte (w k v : Nat) : Nat := w % 256 ^ k + v * 256 ^ k + w / 256 ^ (k + 1) * 256 ^ (k + 1)

/-- A byte stored at `a`. -/
def writeByte (m : WordMem) (a : Nat) (v : UInt8) : WordMem := m.set (a / 4 * 4) (putByte (m (a / 4 * 4)) (a % 4) v.toNat)

/-- A call, or a byte written `off` bytes behind the `i`-th live pointer. -/
inductive Act where
  | call (op : Op)
  | write (i off : Nat) (v : UInt8)

def act (L : Layout) (s : State) : Act → Option State
  | .call op => step L s op
  | .write i off v => some { s with mem := writeByte s.mem (s.ptr i + off) v }

/-- A client writes into the bytes it asked for only. -/
def Within (s : State) : Act → Prop
  | .call _ => True
  | .write i off _ => ∃ l ∈ s.live[i]?, off < l.2

instance (s : State) : ∀ a, Decidable (Within s a)
  | .call _ => isTrue trivial
  | .write i off _ => inferInstanceAs (Decidable (∃ l ∈ s.live[i]?, off < l.2))

/-- A request that is given the whole of the last block leaves at least its last four bytes. -/
def MallocSpares (bs : List Block) (size : Nat) : Prop :=
  ∀ i < bs.length, Picks bs (total size) i → i + 1 = bs.length → ∀ b ∈ bs[i]?,
    b.size < u32 (total size + 2 * blockHdr) → size + blockHdr + 4 ≤ b.size

instance (bs : List Block) (size : Nat) : Decidable (MallocSpares bs size) :=
  inferInstanceAs (Decidable (∀ i < bs.length, _ → _ → ∀ b ∈ bs[i]?, _ → _))

/-- What each call must meet for the marks to stay. -/
def Spares (L : Layout) (s : State) : Act → Prop
  | .call (.malloc size) => StepFits L s (.malloc size) ∧ MallocSpares (blocks L s.mem) size.toNat
  | .call (.free i) => StepFits L s (.free i)
  | .write .. => True

instance (L : Layout) (s : State) : ∀ a, Decidable (Spares L s a)
  | .call (.malloc size) =>
      inferInstanceAs (Decidable (StepFits L s (.malloc size) ∧ MallocSpares (blocks L s.mem) size.toNat))
  | .call (.free i) => inferInstanceAs (Decidable (StepFits L s (.free i)))
  | .write .. => isTrue trivial

/-! ## A write into a block -/

theorem Intact.write {L : Layout} {m : WordMem} {xs ys : List Block} {b : Block} (h : Intact L m (xs ++ b :: ys)) {w v : Nat}
    (hlo : L.heap + span Block.size xs + blockHdr ≤ w) (hhi : w < L.heap + span Block.size xs + b.size) :
    Intact L (m.set w v) (xs ++ b :: ys) where
  seg := by
    have ho := offs
    have hs := h.sized
    obtain ⟨hxs, hb, hys⟩ := (seg_focus ..).1 h.seg
    rw [sized_append, sized_cons] at hs
    refine (seg_focus ..).2 ⟨hxs.congr hs.1 ((Agree.refl _ _).set (by omega)), hb.congr ((Agree.refl _ _).set (by omega)),
      hys.congr hs.2.2 ((Agree.refl _ _).set (by omega))⟩
  sum := h.sum
  sized := h.sized

/-! ## The marks -/

/-- The list is intact, its allocations hold what was asked for and not the heap's end, and that bears the signature. -/
structure Sound (L : Layout) (s : State) : Prop where
  inv : Inv Roomy L s
  signature : s.mem (lastFourBytes L) = DEADC0DE
  spared : ∀ l ∈ s.live, l.1 + l.2 ≤ lastFourBytes L

theorem sound_start (L : Layout) (m : WordMem) : Sound L (start L m) where
  inv := inv_start _ L m
  signature := by
    have hL := L.fits
    simp only [start, init, lastFourBytes]
    rw [u32_of_lt (show L.heap + SYS_HEAP_SIZE - 4 < 2 ^ 32 by omega), set_self]
  spared := fun _ hl => by cases hl

theorem signature_of_tail {L : Layout} {m m' : WordMem} (h : Agree m m' (Tail L)) :
    m' (lastFourBytes L) = m (lastFourBytes L) := by
  apply h
  have hS : SYS_HEAP_SIZE = 36864 := rfl
  unfold Tail lastFourBytes
  omega

theorem sound_malloc {L : Layout} {s s' : State} {size : BitVec 32} (h : Sound L s)
    (hm : Spares L s (.call (.malloc size))) (hs : step L s (.malloc size) = some s') : Sound L s' := by
  have ho := offs
  have hL := L.nonnull
  have hS : SYS_HEAP_SIZE = 36864 := rfl
  obtain ⟨⟨hmeets, hfits⟩, hspares⟩ := hm
  obtain ⟨s₁, hs₁, hinv⟩ := @inv_step_fits L s (.malloc size) h.inv ⟨hmeets, hfits⟩
  obtain rfl := Option.some.inj (hs₁.symm.trans hs)
  obtain ⟨bs, hint, -⟩ := h.inv
  rw [hint.blocks_eq] at hmeets hfits hspares
  rcases malloc_spec hint hmeets with hnull | ⟨xs, b, ys, n, zs, m', rfl, hp, heq, hint', htail, hzs⟩
  · rw [step, hnull] at hs
    cases hs
    exact h
  · rw [step, heq] at hs
    simp only [Option.bind_eq_bind, Option.bind_some,
      if_neg (show ¬ L.heap + span Block.size xs + blockHdr = 0 by omega)] at hs
    cases hs
    refine ⟨hinv, (signature_of_tail htail).trans h.signature, List.forall_mem_cons.2 ⟨?_, h.spared⟩⟩
    have hroom : Roomy size.toNat n := roomy_of_picks hfits hp (hzs.imp And.left And.left)
    have hsum := hint'.sum
    have hsz := hint'.sized
    rw [span_append, span_cons] at hsum
    unfold Roomy at hroom
    unfold lastFourBytes
    dsimp only at hsum ⊢
    cases zs with
    | cons c zs =>
        -- another block follows
        have hc := (hsz c (by simp)).1
        rw [span_cons] at hsum
        omega
    | nil =>
        obtain ⟨rfl, rfl, hwhole⟩ | ⟨-, -, h⟩ := hzs
        · have hleft := hspares xs.length (by simp) hp (by simp) b (by simp) hwhole
          rw [span_nil] at hsum
          omega
        · cases h

theorem sound_free {L : Layout} {s s' : State} {i : Nat} (h : Sound L s) (hm : Spares L s (.call (.free i)))
    (hs : step L s (.free i) = some s') : Sound L s' := by
  obtain ⟨s₁, hs₁, hinv⟩ := @inv_step_fits L s (.free i) h.inv hm
  obtain rfl := Option.some.inj (hs₁.symm.trans hs)
  obtain ⟨m', hf, hs⟩ := Option.bind_eq_some_iff.1 hs
  cases hs
  refine ⟨hinv, ?_, fun l hl => h.spared l (List.mem_of_mem_eraseIdx hl)⟩
  obtain ⟨bs, hint, hlive⟩ := h.inv
  by_cases hi : i < s.live.length
  · obtain ⟨xs, n, ys, rfl, hptr⟩ := hlive.block hi
    have hmeets : FreeMeets L (blocks L s.mem) (s.ptr i) := hm
    rw [hint.blocks_eq, hptr] at hmeets
    obtain ⟨m₁, hf₁, -, htail⟩ := free_spec hint hmeets
    rw [hptr] at hf
    obtain rfl := Option.some.inj (hf₁.symm.trans hf)
    exact (signature_of_tail htail).trans h.signature
  · rw [State.ptr_null (by omega)] at hf
    cases hf
    exact h.signature

/-- A client's write goes to no header, and not to the heap's end. -/
theorem sound_write {L : Layout} {s : State} {i off : Nat} (h : Sound L s) (v : UInt8) (hw : Within s (.write i off v)) :
    Sound L { s with mem := writeByte s.mem (s.ptr i + off) v } := by
  have ho := offs
  obtain ⟨l, hl, hoff⟩ := hw
  have hmem := List.mem_of_getElem? hl
  have hptr : s.ptr i = l.1 := by
    rw [State.ptr, Option.mem_def.1 hl]
    rfl
  obtain ⟨bs, hint, hlive⟩ := h.inv
  obtain ⟨x, n, hx, hlx, hroom⟩ := hlive.used l hmem
  obtain ⟨xs, ys, rfl, rfl⟩ := mem_place_split (List.mem_filter.1 hx).1
  have hspared := h.spared l hmem
  have hal := L.aligned
  have hmod := (sized_append.1 hint.sized).1.span_mod
  unfold Roomy at hroom
  have hne : lastFourBytes L ≠ (s.ptr i + off) / 4 * 4 := by omega
  refine ⟨⟨_, hint.write ?_ ?_, hlive⟩, ?_, h.spared⟩
  · omega
  · show (s.ptr i + off) / 4 * 4 < L.heap + span Block.size xs + n
    omega
  · exact (set_ne _ _ hne).trans h.signature

theorem sound_act {L : Layout} {s : State} {a : Act} (h : Sound L s) (hm : Within s a ∧ Spares L s a) :
    ∃ s', act L s a = some s' ∧ Sound L s' := by
  cases a with
  | call op =>
      have hfits : StepFits L s op := by
        cases op with
        | malloc size => exact hm.2.1
        | free i => exact hm.2
      obtain ⟨s', hs', -⟩ := inv_step_fits h.inv hfits
      refine ⟨s', hs', ?_⟩
      cases op with
      | malloc size => exact sound_malloc h hm.2 hs'
      | free i => exact sound_free h hm.2 hs'
  | write i off v => exact ⟨_, rfl, sound_write h v hm.1⟩

/-! ## What the check finds -/

theorem usedWord_or (u : Bool) : usedWord u = 0 ∨ usedWord u = DEADC0DE := by
  cases u
  · exact Or.inl rfl
  · exact Or.inr rfl

theorem checkBlocks_ok {m : WordMem} {p a fuel : Nat} {bs : List Block} (h : Seg m 0 p a bs) (hs : Sized bs) (ha : 0 < a)
    (hfit : a + span Block.size bs < 2 ^ 32) (hf : bs.length < fuel) : checkBlocks m fuel (link bs a 0) = some .ok := by
  have ho := offs
  induction bs generalizing p a fuel with
  | nil =>
      obtain ⟨fuel, rfl⟩ := Nat.exists_eq_add_of_lt hf
      rfl
  | cons b bs ih =>
      obtain ⟨fuel, rfl⟩ := Nat.exists_eq_add_of_lt hf
      obtain ⟨⟨sb, -⟩, sbs⟩ := sized_cons.1 hs
      rw [span_cons] at hfit
      have hmark : ¬ (usedWord b.used ≠ 0 ∧ usedWord b.used ≠ DEADC0DE) := by
        rintro ⟨hzero, hused⟩
        exact (usedWord_or b.used).elim hzero hused
      rw [link_cons, checkBlocks, if_neg (by omega), load_eq m ha (by omega), load_eq m ha (by omega), h.1.used, h.1.next]
      simp only [Option.bind_eq_bind, Option.bind_some]
      rw [if_neg hmark]
      exact ih h.2 sbs (by omega) (by omega) (by simp; omega)

theorem Sound.check {L : Layout} {s : State} (h : Sound L s) : checkIntegrity L s.mem = some .ok := by
  have hL := L.fits
  obtain ⟨bs, hint, -⟩ := h.inv
  have hblocks := checkBlocks_ok hint.seg hint.sized L.nonnull hint.fits hint.length_lt
  rw [link, if_neg hint.ne_nil] at hblocks
  have hend : u32 (lastFourBytes L) = lastFourBytes L := by
    apply u32_of_lt
    unfold lastFourBytes
    omega
  rw [checkIntegrity, hend, if_neg (not_not.2 h.signature), hblocks]

theorem Sound.marks {L : Layout} {s : State} (h : Sound L s) : ∀ x b, (x, b) ∈ place Block.size L.heap (blocks L s.mem) →
    s.mem (x + offUsed) = 0 ∨ s.mem (x + offUsed) = DEADC0DE := by
  intro x b hx
  obtain ⟨bs, hint, -⟩ := h.inv
  rw [hint.blocks_eq] at hx
  obtain ⟨xs, ys, rfl, rfl⟩ := mem_place_split hx
  obtain ⟨-, hb, -⟩ := (seg_focus ..).1 hint.seg
  rw [hb.used]
  exact usedWord_or b.used

/-- **The check raises no false alarm** in a run whose calls meet `Spares` and whose clients keep to what they asked for:
the signature and the marks stay what they are. -/
theorem integrity_of_run (L : Layout) (m : WordMem) (acts : List Act)
    (h : Meets (act L) (fun s a => Within s a ∧ Spares L s a) (start L m) acts) :
    ∃ s, run (act L) (start L m) acts = some s ∧ s.mem (lastFourBytes L) = DEADC0DE ∧
      (∀ x b, (x, b) ∈ place Block.size L.heap (blocks L s.mem) →
        s.mem (x + offUsed) = 0 ∨ s.mem (x + offUsed) = DEADC0DE) ∧ checkIntegrity L s.mem = some .ok := by
  obtain ⟨s, hs, hsound⟩ := run_of_meets (fun _ _ => sound_act) (sound_start L m) h
  exact ⟨s, hs, hsound.signature, hsound.marks, hsound.check⟩

/-- Two allocations, both written to their ends. -/
theorem integrity_of_run_written : ∃ s, run (act sram) (start sram fun _ => 0)
    [.call (.malloc 8), .call (.malloc 13), .write 0 12 255, .write 1 7 1] = some s ∧
      s.mem (lastFourBytes sram) = DEADC0DE ∧
        (∀ x b, (x, b) ∈ place Block.size sram.heap (blocks sram s.mem) →
          s.mem (x + offUsed) = 0 ∨ s.mem (x + offUsed) = DEADC0DE) ∧ checkIntegrity sram s.mem = some .ok :=
  integrity_of_run sram (fun _ => 0) _ (by decide)

/-- All of the heap is handed out, the signature with it: its client writes the last byte it asked for. -/
theorem not_integrity_whole : ¬ ∀ (L : Layout) (m : WordMem) (acts : List Act) (s : State),
    Meets (act L) Within (start L m) acts → run (act L) (start L m) acts = some s →
      checkIntegrity L s.mem = some .ok := by
  intro h
  have hbad : ∃ s ∈ run (act sram) (start sram fun _ => 0) [.call (.malloc 36848), .write 0 36847 0],
      checkIntegrity sram s.mem = some .heapEndCorrupted := by decide
  obtain ⟨s, hs, hcheck⟩ := hbad
  have hok := h sram (fun _ => 0) [.call (.malloc 36848), .write 0 36847 0] s (by decide) hs
  rw [hcheck] at hok
  cases hok

end YieldStm32.Heap
