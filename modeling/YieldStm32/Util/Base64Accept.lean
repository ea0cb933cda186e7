import YieldStm32.Util.Base64

/-!
# What the decoder accepts (`util/src/base64.c`)

The entries 64 of the table are never looked for, and the table is read for any byte.

* `safe_decode`, `length_decodeLoop` : what is read and how much is written, for any input;
* `AcceptsExactly` : the decoder accepts the texts of base 64, and stays within its input and its table;
* `acceptsExactly_iff` : where it does.
-/

namespace YieldStm32.Base64

open Traced

section

variable {m : Memory} {P : Access → Prop}

/-! ## What is read -/

/-- A character and its entry may be read. -/
def Memory.Looks (m : Memory) (P : Access → Prop) (i : Int) : Prop := P (.input i) ∧ P (.table ((m.inp i).toNat - 43))

theorem safe_lookup (i : Int) : Safe P (m.lookup i) ↔ m.Looks P i := by
  unfold Memory.lookup Memory.read
  rw [safe_bind, safe_note, safe_note]
  rfl

theorem safe_value (i : Int) :
    Safe P (m.value i) ↔ m.Looks P i ∧ m.Looks P (i + 1) ∧ m.Looks P (i + 2) ∧ m.Looks P (i + 3) := by
  unfold Memory.value
  rw [safe_bind, safe_bind, safe_bind, safe_bind, safe_lookup, safe_lookup, safe_lookup, safe_lookup]
  simp only [safe_pure, and_true]

/-- The first four, and the others. -/
theorem forall_four_iff (Q : Int → Prop) (i : Int) (k : Nat) :
    (∀ j : Nat, j < 4 * (k + 1) → Q (i + j)) ↔
      (Q i ∧ Q (i + 1) ∧ Q (i + 2) ∧ Q (i + 3)) ∧ ∀ j : Nat, j < 4 * k → Q (i + 4 + j) := by
  constructor
  · intro h
    have hzero := h 0 (by omega)
    rw [Int.natCast_zero, Int.add_zero] at hzero
    refine ⟨⟨hzero, h 1 (by omega), h 2 (by omega), h 3 (by omega)⟩, fun j hj => ?_⟩
    have hnext := h (4 + j) (by omega)
    rwa [Int.natCast_add, ← Int.add_assoc] at hnext
  · rintro ⟨⟨h0, h1, h2, h3⟩, hrest⟩ j hj
    match j with
    | 0 => rwa [Int.natCast_zero, Int.add_zero]
    | 1 => exact h1
    | 2 => exact h2
    | 3 => exact h3
    | j + 4 =>
        have hnext := hrest j (by omega)
        rwa [Int.add_assoc, Int.add_comm 4] at hnext

/-- Every character is read, with its entry. -/
theorem safe_decodeLoop (i : Int) (k lastBlockSize : Nat) :
    Safe P (m.decodeLoop i (4 * k) lastBlockSize) ↔ ∀ j : Nat, j < 4 * k → m.Looks P (i + j) := by
  induction k generalizing i with
  | zero =>
      rw [Memory.decodeLoop]
      exact ⟨fun _ j hj => absurd hj (Nat.not_lt_zero j), fun _ => safe_pure _⟩
  | succ k ih =>
      rw [forall_four_iff, Memory.decodeLoop]
      by_cases hk : k = 0
      · rw [hk, if_neg (by decide), if_pos (by decide), safe_bind, safe_value]
        simp
      · rw [if_pos (by omega), safe_bind, safe_bind, safe_value, show 4 * (k + 1) - 4 = 4 * k by omega, ih]
        simp only [safe_pure, and_true]

/-- How much is written. -/
theorem length_decodeLoop (i : Int) {k lastBlockSize : Nat} (hk : k ≠ 0) (hpos : 0 < lastBlockSize)
    (hle : lastBlockSize ≤ 3) :
    (m.decodeLoop i (4 * k) lastBlockSize).val.length = 3 * k - (3 - lastBlockSize) := by
  obtain ⟨k, rfl⟩ := Nat.exists_eq_succ_of_ne_zero hk
  clear hk
  induction k generalizing i with
  | zero =>
      rw [Memory.decodeLoop, if_neg (by decide), if_pos (by decide), val_bind, val_pure, List.length_cons, List.length_append]
      obtain rfl | rfl | rfl : lastBlockSize = 1 ∨ lastBlockSize = 2 ∨ lastBlockSize = 3 := by omega
      · rfl
      · rfl
      · rfl
  | succ k ih =>
      rw [Memory.decodeLoop, if_pos (by omega), val_bind, val_bind, val_pure, List.length_cons, List.length_cons,
        List.length_cons, show 4 * (k + 1).succ - 4 = 4 * k.succ by omega, ih]
      omega

/-- The reads, before the checks and behind them. -/
theorem reads_safe {β : Type} (m : Memory) (i j : Int) (g : UInt8 → UInt8 → Nat) (f : Nat → Traced Access β) :
    Safe P (do
      let c1 ← m.read i
      let c2 ← m.read j
      f (g c1 c2)) ↔ P (.input i) ∧ P (.input j) ∧ Safe P (f (g (m.inp i) (m.inp j))) := by
  rw [safe_bind, safe_bind]
  unfold Memory.read
  rw [safe_note, safe_note]

/-- The decoder, behind the first check. -/
theorem safe_decode (m : Memory) {inSize : Nat} (hsize : inSize % 4 = 0) (outSize : Nat) :
    Safe P (m.decode inSize outSize) ↔ P (.input (inSize - 1)) ∧ P (.input (inSize - 2)) ∧
      (¬outSize < Memory.needed inSize (Memory.lastBlockSize (m.inp (inSize - 1)) (m.inp (inSize - 2))) →
        ∀ j : Nat, j < inSize → m.Looks P j) := by
  have hmask : inSize &&& 0x3 = 0 := (Nat.and_two_pow_sub_one_eq_mod inSize 2).trans hsize
  have hall (last : Nat) : Safe P (m.decodeAll inSize outSize last) ↔
      (¬outSize < Memory.needed inSize last → ∀ j : Nat, j < inSize → m.Looks P j) := by
    obtain ⟨k, rfl⟩ := Nat.dvd_of_mod_eq_zero hsize
    have hloop := safe_decodeLoop (P := P) (m := m) 0 k last
    simp only [Int.zero_add] at hloop
    unfold Memory.decodeAll
    by_cases hroom : outSize < Memory.needed (4 * k) last
    · rw [if_pos hroom]
      exact ⟨fun _ hno => absurd hroom hno, fun _ => safe_pure _⟩
    · rw [if_neg hroom, safe_bind, hloop]
      exact ⟨fun h _ => h.1, fun h => ⟨h hroom, safe_pure _⟩⟩
  unfold Memory.decode
  rw [if_neg (not_not.2 hmask),
    reads_safe m (inSize - 1) (inSize - 2) Memory.lastBlockSize (m.decodeAll inSize outSize), hall]

end

/-! ## What is accepted -/

variable (m : Memory) (inSize outSize : Nat)

/-- The input. -/
def Memory.text : List UInt8 := (List.range inSize).map fun j : Nat => m.inp j

/-- The last two characters. -/
def Memory.pads : Nat :=
  (if m.inp (inSize - 1) = Rfc4648.pad then 1 else 0) + (if m.inp (inSize - 2) = Rfc4648.pad then 1 else 0)

/-- The bytes that an input stands for. -/
def Memory.decodedSize : Nat := inSize / 4 * 3 - m.pads inSize

/-- Within the input, and within the table. -/
def InBounds : Access → Prop
  | .input i => 0 ≤ i ∧ i < inSize
  | .table i => 0 ≤ i ∧ i < decTable.length

/-- The texts are accepted, and nothing else. -/
structure AcceptsExactly : Prop where
  accepts_iff : 0 ≤ (m.decode inSize outSize).val.1 ↔ Rfc4648.IsText (m.text inSize)
  inBounds : Safe (InBounds inSize) (m.decode inSize outSize)

/-- `in_size * 3` wraps around, and what is left of it is less than the two "=" are. -/
def Wraps : Prop := inSize = 2863311532 ∧ m.pads inSize = 2 ∧ outSize ≠ 2 ^ 32 - 1

/-- The inputs of a length that is refused, and the texts; for a size that no memory has room for, the sign of what is returned
counts. -/
def Regular : Prop :=
  inSize % 4 ≠ 0 ∨
    inSize ≠ 0 ∧
      ((Wraps m inSize outSize ∧ ¬Rfc4648.IsText (m.text inSize)) ∨
        (¬Wraps m inSize outSize ∧ (∀ j : Nat, j < inSize → 43 ≤ (m.inp j).toNat ∧ (m.inp j).toNat ≤ 122) ∧
          (m.decodedSize inSize < 2 ^ 31 ↔ Rfc4648.IsText (m.text inSize))))

variable {m inSize outSize}

theorem pads_le (m : Memory) (inSize : Nat) : m.pads inSize ≤ 2 := by
  unfold Memory.pads
  split <;> split <;> decide

theorem lastBlockSize_eq : Memory.lastBlockSize (m.inp (inSize - 1)) (m.inp (inSize - 2)) = 3 - m.pads inSize := by
  rw [Memory.pads, ← Nat.sub_sub]
  rfl

/-- The check, where the output has room for what is to be decoded. -/
theorem lt_needed_iff (hsize : inSize % 4 = 0) (hne : inSize ≠ 0) (hin : inSize < 2 ^ 32) (hout : outSize < 2 ^ 32)
    (hroom : m.decodedSize inSize ≤ outSize) :
    outSize < Memory.needed inSize (3 - m.pads inSize) ↔ Wraps m inSize outSize := by
  have hpads := pads_le m inSize
  unfold Memory.decodedSize at hroom
  unfold Memory.needed Wraps
  generalize m.pads inSize = pads at *
  obtain ⟨k, rfl⟩ := Nat.dvd_of_mod_eq_zero hsize
  -- `3 * k` is `r` behind at most two times around
  have hwrap : 4 * k * 3 % 2 ^ 32 / 4 = 3 * k % 2 ^ 30 := by omega
  have hdiv := Nat.div_add_mod (3 * k) (2 ^ 30)
  have hr := Nat.mod_lt (3 * k) (show 0 < 2 ^ 30 by decide)
  have hq : 3 * k / 2 ^ 30 = 0 ∨ 3 * k / 2 ^ 30 = 1 ∨ 3 * k / 2 ^ 30 = 2 := by omega
  rw [hwrap, show 3 - (3 - pads) = pads by omega]
  generalize 3 * k % 2 ^ 30 = r at *
  rcases hq with hq | hq | hq <;> rw [hq] at hdiv <;> omega

/-- A byte of the table, for a byte of the input. -/
theorem looks_iff {j : Nat} (hj : j < inSize) :
    m.Looks (InBounds inSize) j ↔ 43 ≤ (m.inp j).toNat ∧ (m.inp j).toNat ≤ 122 := by
  have hlength : (decTable.length : Int) = 80 := rfl
  unfold Memory.Looks InBounds
  dsimp only
  rw [hlength]
  omega

/-- **The decoder accepts the texts of base 64 and stays within its bounds** exactly for those inputs. -/
theorem acceptsExactly_iff (hin : inSize < 2 ^ 32) (hout : outSize < 2 ^ 32) (hroom : m.decodedSize inSize ≤ outSize) :
    AcceptsExactly m inSize outSize ↔ Regular m inSize outSize := by
  by_cases hsize : inSize % 4 = 0
  case neg =>
    have hval : (m.decode inSize outSize).val = (efatal, []) := by rw [decode_val, if_pos hsize]
    have hlength : (m.text inSize).length = inSize := by rw [Memory.text, List.length_map, List.length_range]
    refine ⟨fun _ => .inl hsize, fun _ => ⟨?_, ?_⟩⟩
    · rw [hval]
      refine ⟨fun h => absurd h (by decide), fun h => absurd h.1 fun hdvd => hsize ?_⟩
      rw [hlength] at hdvd
      exact Nat.mod_eq_zero_of_dvd hdvd
    · have hmask : inSize &&& 0x3 ≠ 0 := fun h => hsize ((Nat.and_two_pow_sub_one_eq_mod inSize 2).symm.trans h)
      unfold Memory.decode
      rw [if_pos hmask]
      exact safe_pure _
  have hsafe := safe_decode (P := InBounds inSize) m hsize outSize
  by_cases hne : inSize = 0
  case pos =>
    -- the byte in front of an empty input is read
    refine ⟨fun h => ?_, fun h => ?_⟩
    · have hread := (hsafe.1 h.inBounds).1
      exact absurd hread.1 (by omega)
    · rcases h with h | h
      · exact absurd hsize h
      · exact absurd hne h.1
  have hcheck := lt_needed_iff hsize hne hin hout hroom
  have hreads : InBounds inSize (.input (inSize - 1)) ∧ InBounds inSize (.input (inSize - 2)) := by
    unfold InBounds
    omega
  have hval := decode_val m inSize outSize
  rw [lastBlockSize_eq, hcheck] at hsafe
  rw [if_neg (not_not.2 hsize), lastBlockSize_eq, decodeAll_val] at hval
  by_cases hwraps : Wraps m inSize outSize
  case pos =>
    rw [if_pos (hcheck.2 hwraps)] at hval
    have hno : ¬0 ≤ (m.decode inSize outSize).val.1 := by
      rw [hval]
      decide
    constructor
    · intro h
      exact .inr ⟨hne, .inl ⟨hwraps, fun htext => hno (h.accepts_iff.2 htext)⟩⟩
    · intro h
      refine ⟨⟨fun h0 => absurd h0 hno, fun htext => ?_⟩, hsafe.2 ⟨hreads.1, hreads.2, fun hno => absurd hwraps hno⟩⟩
      rcases h with h | ⟨-, ⟨-, h⟩ | ⟨h, -⟩⟩
      · exact absurd hsize h
      · exact absurd htext h
      · exact absurd hwraps h
  have hlength : (m.decodeLoop 0 inSize (3 - m.pads inSize)).val.length = m.decodedSize inSize := by
    have hpads := pads_le m inSize
    obtain ⟨k, rfl⟩ := Nat.dvd_of_mod_eq_zero hsize
    rw [length_decodeLoop 0 (by omega) (by omega) (by omega), Memory.decodedSize]
    omega
  rw [if_neg fun h => hwraps (hcheck.1 h), hlength] at hval
  have hyes : 0 ≤ (m.decode inSize outSize).val.1 ↔ m.decodedSize inSize < 2 ^ 31 := by
    rw [hval]
    exact count_nonneg_iff (Nat.lt_of_le_of_lt hroom hout)
  have hlooks : (∀ j : Nat, j < inSize → m.Looks (InBounds inSize) j) ↔
      ∀ j : Nat, j < inSize → 43 ≤ (m.inp j).toNat ∧ (m.inp j).toNat ≤ 122 :=
    forall₂_congr fun j hj => looks_iff hj
  constructor
  · intro h
    exact .inr ⟨hne, .inr ⟨hwraps, hlooks.1 ((hsafe.1 h.inBounds).2.2 hwraps), hyes.symm.trans h.accepts_iff⟩⟩
  · intro h
    rcases h with h | ⟨-, ⟨h, -⟩ | ⟨-, htable, htext⟩⟩
    · exact absurd hsize h
    · exact absurd h hwraps
    · exact ⟨hyes.trans htext, hsafe.2 ⟨hreads.1, hreads.2, fun _ => hlooks.2 htable⟩⟩

/-- "AAAA" -/
theorem acceptsExactly_iff_sample : AcceptsExactly ⟨fun _ => 65, fun _ => 0⟩ 4 3 := by
  refine (acceptsExactly_iff (by decide) (by decide) (by decide)).2
    (.inr ⟨by decide, .inr ⟨fun h => absurd h.1 (by decide), fun _ _ => show 43 ≤ 65 ∧ 65 ≤ 122 by decide, ?_⟩⟩)
  have htext : Rfc4648.IsText (Memory.text ⟨fun _ => 65, fun _ => 0⟩ 4) :=
    ⟨by decide, List.replicate 4 65, 0, by decide, rfl, fun c hc => ⟨0, by decide, List.eq_of_mem_replicate hc⟩⟩
  exact ⟨fun _ => htext, fun _ => by decide⟩

/-- "A<AA" is decoded to three bytes. -/
def notText : Memory := ⟨fun i => [65, 60, 65, 65].getD i.toNat 0, fun _ => 0⟩

theorem not_acceptsExactly_sample : ¬AcceptsExactly notText 4 3 := fun h => by
  have hval := decode_val notText 4 3
  have hcount : count 3 = 3 := count_of_lt (by decide)
  rw [if_neg (by decide), lastBlockSize_eq, decodeAll_val, if_neg (by decide),
    length_decodeLoop (k := 1) 0 (by decide) (by decide) (by decide)] at hval
  have htext := h.accepts_iff.1 (by rw [hval]; exact hcount.symm ▸ by decide)
  obtain ⟨v, hv, hchar⟩ := htext.isChar (show 1 + 2 < 4 by decide)
  have hall : ∀ v < 64, Rfc4648.char v ≠ 60 := by decide
  exact hall v hv hchar.symm

end YieldStm32.Base64
