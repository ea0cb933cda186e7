import YieldStm32.Util.PrintBounds
import YieldStm32.Util.Scan

/-!
# What `vsnscanf` reads (`util/src/stdio.c`)

* `SameUpTo` : memories that agree up to where the size ends;
* `ScanningInt.loop_same`, `ScanningDouble.loop_same`, `Fs.scanStr_same`, `Fs.scanEos_same` : what the scanners read of them;
* `Fs.Ends`, `Fits` : the specifiers that are reached end inside what is left;
* `readsInside_iff` : the result is one for all memories that agree, where they do.
-/

namespace YieldStm32.Stdio

/-- Memories that agree up to an end. -/
def SameUpTo (n : Nat) (m m' : Nat → UInt8) : Prop := ∀ i < n, m i = m' i

theorem SameUpTo.refl (n : Nat) (m : Nat → UInt8) : SameUpTo n m m := fun _ _ => rfl

/-! ## Cursors -/

section

variable {lo n : Nat} {m m' : Nat → UInt8}

theorem Cursor.on_sum {c : Cursor} (hsum : c.s + c.size = n) (hn : n < 2 ^ 32) (heos : ¬c.Eos m) :
    (c.advance 1).s + (c.advance 1).size = n ∧ (c.advance 1).s = c.s + 1 := by
  have hsize : c.size ≠ 0 := fun hzero => heos (.inr hzero)
  unfold Cursor.advance toSize
  dsimp only
  omega

theorem Cursor.back_sum {c : Cursor} (hsum : c.s + c.size = n) (hn : n < 2 ^ 32) {k : Nat} (hk : k ≤ c.s) :
    (c.advance (-k)).s + (c.advance (-k)).size = n ∧ (c.advance (-k)).s = c.s - k := by
  unfold Cursor.advance toSize
  dsimp only
  omega

theorem Cursor.eos_congr {c : Cursor} (hcell : c.size ≠ 0 → m c.s = m' c.s) : c.Eos m ↔ c.Eos m' := by
  unfold Cursor.Eos
  by_cases hsize : c.size = 0
  · exact iff_of_true (.inr hsize) (.inr hsize)
  · rw [hcell hsize]

/-- From behind the character that is gathered last, back over those before it. -/
theorem one_sub_length_append (buf : List UInt8) (c : UInt8) : (1 : Int) - ((buf ++ [c]).length : Nat) = -(buf.length : Nat) := by
  rw [List.length_append, List.length_singleton]
  omega

theorem skipSpaces_same (h : SameUpTo n m m') {s size : Nat} (hsum : s + size = n) :
    skipSpaces m s size = skipSpaces m' s size ∧ (skipSpaces m s size).s + (skipSpaces m s size).size = n ∧
      s ≤ (skipSpaces m s size).s := by
  induction size generalizing s with
  | zero => exact ⟨rfl, hsum, Nat.le_refl s⟩
  | succ size ih =>
      obtain ⟨heq, hend, hle⟩ := ih (s := s + 1) (by omega)
      rw [skipSpaces, skipSpaces, ← h s (by omega)]
      by_cases hspace : m s ≠ 0 ∧ isspace (m s)
      · rw [if_pos hspace, if_pos hspace]
        exact ⟨heq, hend, by omega⟩
      · rw [if_neg hspace, if_neg hspace]
        exact ⟨rfl, hsum, Nat.le_refl s⟩

theorem Fs.limit_le (fs : Fs) (c : Cursor) : (fs.limit c).s = c.s ∧ (fs.limit c).size ≤ c.size := by
  unfold Fs.limit
  by_cases hprecision : fs.precision ≠ absent
  · rw [if_pos hprecision]
    exact ⟨rfl, Nat.min_le_right _ _⟩
  · rw [if_neg hprecision]
    exact ⟨rfl, Nat.le_refl _⟩

/-! ## Numbers -/

/-- How far the cursor may have to go back. -/
def ScanningInt.back (σ : ScanningInt) : Nat :=
  match σ.stage with
  | .sign | .basePrefix => σ.buf.length
  | _ => 0

/-- The cursor is between the ends, and can go back. -/
structure ScanningInt.Inside (lo n : Nat) (σ : ScanningInt) : Prop where
  sum : σ.cursor.s + σ.cursor.size = n
  back : lo + σ.back ≤ σ.cursor.s

theorem ScanningInt.step_same (tm : Modifiers) (h : SameUpTo n m m') {σ : ScanningInt} (hσ : σ.Inside lo n) :
    σ.step tm m = σ.step tm m' := by
  have hsum := hσ.sum
  have hcell (hsize : σ.cursor.size ≠ 0) : m σ.cursor.s = m' σ.cursor.s := h _ (by omega)
  unfold step
  by_cases hsize : σ.cursor.size = 0
  · have heos (m : Nat → UInt8) : σ.cursor.Eos m := .inr hsize
    cases hstage : σ.stage <;> simp only [heos, not_true_eq_false, false_and, if_true, if_false]
  · simp only [Cursor.eos_congr hcell, hcell hsize]

theorem ScanningInt.step_inside (tm : Modifiers) (m : Nat → UInt8) (hn : n < 2 ^ 32) {σ : ScanningInt} (hσ : σ.Inside lo n) :
    (σ.step tm m).Inside lo n := by
  obtain ⟨stage, cursor, base, sign, digitNum, buf⟩ := σ
  obtain ⟨hsum, hback⟩ := hσ
  change cursor.s + cursor.size = n at hsum
  have hon (heos : ¬cursor.Eos m) := Cursor.on_sum hsum hn heos
  unfold step
  cases stage with
  | sign =>
      change lo + buf.length ≤ cursor.s at hback
      dsimp only
      by_cases heos : cursor.Eos m
      · rw [if_pos heos]
        exact ⟨hsum, Nat.le_trans (Nat.le_add_right _ _) hback⟩
      · obtain ⟨hsum', hs⟩ := hon heos
        have hlate (c : Prop) [Decidable c] (cursor : Cursor) (hcursor : lo + buf.length ≤ cursor.s) (sign : Int) :
            lo + ScanningInt.back ⟨if c then .basePrefix else .int, cursor, base, sign, digitNum, buf⟩ ≤ cursor.s := by
          by_cases hc : c
          · rw [if_pos hc]
            exact hcursor
          · rw [if_neg hc]
            exact Nat.le_trans (Nat.le_add_right _ _) hcursor
        rw [if_neg heos]
        split
        · exact ⟨hsum', hlate _ _ (by omega) _⟩
        · exact ⟨hsum, hlate _ _ hback _⟩
  | basePrefix =>
      change lo + buf.length ≤ cursor.s at hback
      obtain ⟨hsum'', hs''⟩ := Cursor.back_sum (k := buf.length) hsum hn (by omega)
      dsimp only
      by_cases heos : cursor.Eos m
      · rw [if_pos heos]
        exact ⟨hsum'', show lo + 0 ≤ (cursor.advance _).s by omega⟩
      · obtain ⟨hsum', hs⟩ := hon heos
        have hmove (c : Prop) [Decidable c] :
            (cursor.advance (if c then -(buf.length : Int) else 1)).s + (cursor.advance (if c then -(buf.length : Int) else 1)).size
                = n ∧
              lo ≤ (cursor.advance (if c then -(buf.length : Int) else 1)).s := by
          split
          · exact ⟨hsum'', by omega⟩
          · exact ⟨hsum', by omega⟩
        rw [if_neg heos, one_sub_length_append]
        by_cases htwo : (buf ++ [tolower (m cursor.s)]).length = 2
        · rw [if_pos htwo]
          exact ⟨(hmove _).1, (hmove _).2⟩
        · rw [if_neg htwo]
          refine ⟨hsum', ?_⟩
          show lo + (buf ++ [_]).length ≤ (cursor.advance 1).s
          rw [List.length_append, List.length_singleton]
          omega
  | int =>
      change lo + 0 ≤ cursor.s at hback
      have hlate (c : Prop) [Decidable c] : lo + ScanningInt.back
          ⟨if c then .finished else .failed, cursor, base, sign, digitNum, buf⟩ ≤ cursor.s := by
        split <;> exact hback
      dsimp only
      split
      · rename_i hdigit
        obtain ⟨hsum', hs⟩ := hon hdigit.1
        exact ⟨hsum', show lo + 0 ≤ (cursor.advance 1).s by omega⟩
      · exact ⟨hsum, hlate _⟩
  | finished | failed => exact ⟨hsum, hback⟩

theorem ScanningInt.loop_same (tm : Modifiers) (h : SameUpTo n m m') (hn : n < 2 ^ 32) {σ : ScanningInt} (hσ : σ.Inside lo n) :
    σ.loop tm m = σ.loop tm m' ∧ (σ.loop tm m).Inside lo n := by
  induction σ using ScanningInt.loop.induct tm m with
  | case1 σ hrank =>
      rw [loop.eq_1 tm m σ, loop.eq_1 tm m' σ, dif_pos hrank, dif_pos hrank]
      exact ⟨rfl, hσ⟩
  | case2 σ hrank ih =>
      rw [loop.eq_1 tm m σ, loop.eq_1 tm m' σ, dif_neg hrank, dif_neg hrank, ← step_same tm h hσ]
      exact ih (step_inside tm m hn hσ)

/-- What `scan_int` reads. -/
theorem Fs.scanInt_same (fs : Fs) (h : SameUpTo n m m') (hn : n < 2 ^ 32) {str size : Nat} (hsum : str + size = n) (val : Bool) :
    fs.scanInt m str size val = fs.scanInt m' str size val ∧ ∀ k ∈ (fs.scanInt m str size val).1, k ≤ size := by
  obtain ⟨hspaces, hend, hle⟩ := skipSpaces_same h hsum
  obtain ⟨hs, hsize⟩ := fs.limit_le (skipSpaces m str size)
  have hsame := fun i (hi : i < (fs.limit (skipSpaces m str size)).s + (fs.limit (skipSpaces m str size)).size) => h i (by omega)
  obtain ⟨hloop, hinside⟩ := ScanningInt.loop_same fs.modifiers hsame (by omega)
    (show (ScanningInt.mk .sign (fs.limit (skipSpaces m str size)) fs.modifiers.scanBase 0 0 []).Inside str _ from
      ⟨rfl, show str + 0 ≤ (fs.limit _).s by omega⟩)
  unfold scanInt
  dsimp only
  rw [← hspaces, ← hloop]
  refine ⟨rfl, ?_⟩
  have hsum' := hinside.sum
  generalize ScanningInt.loop fs.modifiers m _ = σ at *
  split
  · exact nofun
  · rintro k ⟨⟩
    omega

/-! ## Floating point -/

/-- How far the cursor may have to go back. -/
def ScanningDouble.back (σ : ScanningDouble) : Nat :=
  match σ.stage with
  | .sign | .special | .basePrefix => σ.buf.length
  | .expSign => 1
  | .expInt => if σ.expSign ≠ 0 then 2 else 1
  | _ => 0

/-- The cursor is between the ends, and can go back. -/
structure ScanningDouble.Inside (lo n : Nat) (σ : ScanningDouble) : Prop where
  sum : σ.cursor.s + σ.cursor.size = n
  back : lo + σ.back ≤ σ.cursor.s
  expSign : 2 ≤ σ.stage.rank → σ.expSign = 0

theorem ScanningDouble.step_same (tm : Modifiers) (h : SameUpTo n m m') {σ : ScanningDouble} (hσ : σ.Inside lo n) :
    σ.step tm m = σ.step tm m' := by
  have hsum := hσ.sum
  have hcell (hsize : σ.cursor.size ≠ 0) : m σ.cursor.s = m' σ.cursor.s := h _ (by omega)
  unfold step stepDigits
  by_cases hsize : σ.cursor.size = 0
  · have heos (m : Nat → UInt8) : σ.cursor.Eos m := .inr hsize
    cases hstage : σ.stage <;> simp only [heos, not_true_eq_false, false_and, if_true, if_false]
  · simp only [Cursor.eos_congr hcell, hcell hsize]

section

variable {stage : DoubleStage} {cursor : Cursor} {expSign : Int} {buf : List UInt8}

/-- In the stages that go back over what they gathered. -/
theorem ScanningDouble.inside_gather (hstage : stage = .special ∨ stage = .basePrefix) (hsum : cursor.s + cursor.size = n)
    (hback : lo + buf.length ≤ cursor.s) (hsign : expSign = 0) (sign : Int) (base : Nat) (expVal e : Int)
    (isNan isInf : Bool) (digitNum : Nat) :
    Inside lo n ⟨stage, cursor, sign, base, expSign, expVal, e, isNan, isInf, digitNum, buf⟩ := by
  refine ⟨hsum, ?_, fun _ => hsign⟩
  rcases hstage with rfl | rfl
  · exact hback
  · exact hback

/-- In the stages that never go back. -/
theorem ScanningDouble.inside_digits (hstage : stage = .int ∨ stage = .frac ∨ stage = .finished ∨ stage = .failed)
    (hsum : cursor.s + cursor.size = n) (hlo : lo ≤ cursor.s) (hsign : 2 ≤ stage.rank → expSign = 0) (sign : Int) (base : Nat)
    (expVal e : Int) (isNan isInf : Bool) (digitNum : Nat) (buf : List UInt8) :
    Inside lo n ⟨stage, cursor, sign, base, expSign, expVal, e, isNan, isInf, digitNum, buf⟩ := by
  refine ⟨hsum, ?_, hsign⟩
  rcases hstage with rfl | rfl | rfl | rfl
  · exact hlo
  · exact hlo
  · exact hlo
  · exact hlo

end

theorem ScanningDouble.stepDigits_inside (tm : Modifiers) (m : Nat → UInt8) (hn : n < 2 ^ 32) (frac : Bool) {σ : ScanningDouble}
    (hsum : σ.cursor.s + σ.cursor.size = n) (hlo : lo ≤ σ.cursor.s) (hsign : σ.expSign = 0)
    (hstage : σ.stage = .int ∨ σ.stage = .frac) : (σ.stepDigits tm m frac).Inside lo n := by
  obtain ⟨stage, cursor, sign, base, expSign, expVal, e, isNan, isInf, digitNum, buf⟩ := σ
  dsimp only at *
  have hnext : stage = .int ∨ stage = .frac ∨ stage = .finished ∨ stage = .failed := hstage.elim .inl fun h => .inr (.inl h)
  unfold stepDigits
  dsimp only
  by_cases heos : cursor.Eos m
  · rw [if_pos heos]
    exact inside_digits (.inr (.inr (.inl rfl))) hsum hlo (fun _ => hsign) ..
  obtain ⟨hsum', hs⟩ := Cursor.on_sum hsum hn heos
  rw [if_neg heos]
  split
  · split
    · exact inside_digits hnext hsum' (by omega) (fun _ => hsign) ..
    · exact inside_digits hnext hsum' (by omega) (fun _ => hsign) ..
  · split
    · exact inside_digits (.inr (.inl rfl)) hsum' (by omega) (fun _ => hsign) ..
    · split
      · exact ⟨hsum', show lo + 1 ≤ (cursor.advance 1).s by omega, fun _ => hsign⟩
      · refine inside_digits ?_ hsum hlo (fun _ => hsign) ..
        split
        · exact .inr (.inr (.inl rfl))
        · exact .inr (.inr (.inr rfl))

/-- The stages in front of the digits. -/
theorem ScanningDouble.step_inside_gather (tm : Modifiers) (m : Nat → UInt8) (hn : n < 2 ^ 32) {σ : ScanningDouble}
    (hσ : σ.Inside lo n) (hstage : σ.stage = .sign ∨ σ.stage = .special ∨ σ.stage = .basePrefix) :
    (σ.step tm m).Inside lo n := by
  obtain ⟨stage, cursor, sign, base, expSign, expVal, e, isNan, isInf, digitNum, buf⟩ := σ
  obtain ⟨hsum, hback, hexp⟩ := hσ
  change cursor.s + cursor.size = n at hsum
  change 2 ≤ stage.rank → expSign = 0 at hexp
  have hon (heos : ¬cursor.Eos m) := Cursor.on_sum hsum hn heos
  have hlength : (buf ++ [tolower (m cursor.s)]).length = buf.length + 1 := by
    rw [List.length_append, List.length_singleton]
  unfold step
  rcases hstage with rfl | rfl | rfl
  · -- sign
    change lo + buf.length ≤ cursor.s at hback
    have hsign : expSign = 0 := hexp (by decide)
    dsimp only
    split
    · rename_i hsigned
      obtain ⟨hsum', hs⟩ := hon hsigned.1
      exact inside_gather (.inl rfl) hsum' (by omega) hsign ..
    · exact inside_gather (.inl rfl) hsum hback hsign ..
  · -- special
    change lo + buf.length ≤ cursor.s at hback
    have hsign : expSign = 0 := hexp (by decide)
    obtain ⟨hsum'', hs''⟩ := Cursor.back_sum (k := buf.length) hsum hn (by omega)
    dsimp only
    by_cases heos : cursor.Eos m
    · rw [if_pos heos]
      exact inside_gather (.inr rfl) hsum'' (show lo + 0 ≤ _ by omega) hsign ..
    obtain ⟨hsum', hs⟩ := hon heos
    rw [if_neg heos, one_sub_length_append]
    split
    · exact inside_digits (.inr (.inr (.inl rfl))) hsum' (by omega) (fun _ => hsign) ..
    split
    · exact inside_digits (.inr (.inr (.inl rfl))) hsum' (by omega) (fun _ => hsign) ..
    split
    · exact inside_gather (.inr rfl) hsum'' (show lo + 0 ≤ _ by omega) hsign ..
    · exact inside_gather (.inl rfl) hsum' (by omega) hsign ..
  · -- basePrefix
    change lo + buf.length ≤ cursor.s at hback
    have hsign : expSign = 0 := hexp (by decide)
    obtain ⟨hsum'', hs''⟩ := Cursor.back_sum (k := buf.length) hsum hn (by omega)
    dsimp only
    split
    · exact inside_digits (.inl rfl) hsum (by omega) (fun _ => hsign) ..
    by_cases heos : cursor.Eos m
    · rw [if_pos heos]
      exact inside_digits (.inl rfl) hsum'' (by omega) (fun _ => hsign) ..
    obtain ⟨hsum', hs⟩ := hon heos
    rw [if_neg heos, one_sub_length_append]
    split
    · split
      · exact inside_digits (.inl rfl) hsum' (by omega) (fun _ => hsign) ..
      · exact inside_digits (.inl rfl) hsum'' (by omega) (fun _ => hsign) ..
    · exact inside_gather (.inr rfl) hsum' (by omega) hsign ..

/-- The stages of the exponent. -/
theorem ScanningDouble.step_inside_exp (tm : Modifiers) (m : Nat → UInt8) (hn : n < 2 ^ 32) {σ : ScanningDouble}
    (hσ : σ.Inside lo n) (hstage : σ.stage = .expSign ∨ σ.stage = .expInt) : (σ.step tm m).Inside lo n := by
  obtain ⟨stage, cursor, sign, base, expSign, expVal, e, isNan, isInf, digitNum, buf⟩ := σ
  obtain ⟨hsum, hback, hexp⟩ := hσ
  change cursor.s + cursor.size = n at hsum
  change 2 ≤ stage.rank → expSign = 0 at hexp
  have hlow : ¬2 ≤ DoubleStage.expInt.rank := by decide
  have hon (heos : ¬cursor.Eos m) := Cursor.on_sum hsum hn heos
  unfold step
  rcases hstage with rfl | rfl
  · -- expSign
    change lo + 1 ≤ cursor.s at hback
    have hsign : expSign = 0 := hexp (by decide)
    dsimp only
    split
    · rename_i hsigned
      obtain ⟨hsum', hs⟩ := hon hsigned.1
      have hne : (if tolower (m cursor.s) = 43 then 1 else -1 : Int) ≠ 0 := by split <;> decide
      refine ⟨hsum', ?_, fun h => absurd h hlow⟩
      unfold ScanningDouble.back
      dsimp only
      rw [if_pos hne]
      omega
    · refine ⟨hsum, ?_, fun h => absurd h hlow⟩
      show lo + (if expSign ≠ 0 then 2 else 1) ≤ cursor.s
      rw [if_neg (not_not_intro hsign)]
      exact hback
  · -- expInt
    change lo + (if expSign ≠ 0 then 2 else 1) ≤ cursor.s at hback
    have hlo : lo ≤ cursor.s := Nat.le_trans (Nat.le_add_right _ _) hback
    dsimp only
    split
    · rename_i hdigit
      obtain ⟨hsum', hs⟩ := hon hdigit.1
      exact ⟨hsum', show lo + (if expSign ≠ 0 then 2 else 1) ≤ (cursor.advance 1).s by omega, fun h => absurd h hlow⟩
    split
    · exact inside_digits (.inr (.inr (.inl rfl))) hsum hlo (fun h => absurd h (by decide)) ..
    split
    · exact inside_digits (.inr (.inr (.inr rfl))) hsum hlo (fun h => absurd h (by decide)) ..
    · by_cases hsigned : expSign ≠ 0
      · rw [if_pos hsigned] at hback ⊢
        obtain ⟨hsum'', hs''⟩ := Cursor.back_sum (k := 2) hsum hn (by omega)
        exact inside_digits (.inr (.inr (.inl rfl))) hsum'' (by omega) (fun h => absurd h (by decide)) ..
      · rw [if_neg hsigned] at hback ⊢
        obtain ⟨hsum'', hs''⟩ := Cursor.back_sum (k := 1) hsum hn (by omega)
        exact inside_digits (.inr (.inr (.inl rfl))) hsum'' (by omega) (fun h => absurd h (by decide)) ..

theorem ScanningDouble.step_inside (tm : Modifiers) (m : Nat → UInt8) (hn : n < 2 ^ 32) {σ : ScanningDouble}
    (hσ : σ.Inside lo n) : (σ.step tm m).Inside lo n := by
  have hdigits (frac : Bool) (hstage : σ.stage = .int ∨ σ.stage = .frac) : (σ.stepDigits tm m frac).Inside lo n := by
    refine stepDigits_inside tm m hn frac hσ.sum (Nat.le_trans (Nat.le_add_right _ _) hσ.back) (hσ.expSign ?_) hstage
    rcases hstage with h | h <;> rw [h] <;> decide
  cases hstage : σ.stage with
  | sign => exact step_inside_gather tm m hn hσ (.inl hstage)
  | special => exact step_inside_gather tm m hn hσ (.inr (.inl hstage))
  | basePrefix => exact step_inside_gather tm m hn hσ (.inr (.inr hstage))
  | int =>
      unfold step
      rw [hstage]
      exact hdigits false (.inl hstage)
  | frac =>
      unfold step
      rw [hstage]
      exact hdigits true (.inr hstage)
  | expSign => exact step_inside_exp tm m hn hσ (.inl hstage)
  | expInt => exact step_inside_exp tm m hn hσ (.inr hstage)
  | finished | failed =>
      unfold step
      rw [hstage]
      exact hσ

theorem ScanningDouble.loop_same (tm : Modifiers) (h : SameUpTo n m m') (hn : n < 2 ^ 32) {σ : ScanningDouble}
    (hσ : σ.Inside lo n) : σ.loop tm m = σ.loop tm m' ∧ (σ.loop tm m).Inside lo n := by
  induction σ using ScanningDouble.loop.induct tm m with
  | case1 σ hrank =>
      rw [loop.eq_1 tm m σ, loop.eq_1 tm m' σ, dif_pos hrank, dif_pos hrank]
      exact ⟨rfl, hσ⟩
  | case2 σ hrank ih =>
      rw [loop.eq_1 tm m σ, loop.eq_1 tm m' σ, dif_neg hrank, dif_neg hrank, ← step_same tm h hσ]
      exact ih (step_inside tm m hn hσ)

/-- What `scan_double` reads. -/
theorem Fs.scanDouble_same (fs : Fs) (h : SameUpTo n m m') (hn : n < 2 ^ 32) {str size : Nat} (hsum : str + size = n)
    (val : Bool) :
    fs.scanDouble m str size val = fs.scanDouble m' str size val ∧ ∀ k ∈ (fs.scanDouble m str size val).1, k ≤ size := by
  obtain ⟨hspaces, hend, hle⟩ := skipSpaces_same h hsum
  obtain ⟨hs, hsize⟩ := fs.limit_le (skipSpaces m str size)
  have hsame := fun i (hi : i < (fs.limit (skipSpaces m str size)).s + (fs.limit (skipSpaces m str size)).size) => h i (by omega)
  obtain ⟨hloop, hinside⟩ := ScanningDouble.loop_same fs.modifiers hsame (by omega)
    (show (ScanningDouble.mk .sign (fs.limit (skipSpaces m str size)) 0 10 0 0 0 false false 0 []).Inside str _ from
      ⟨rfl, show str + 0 ≤ (fs.limit _).s by omega, fun _ => rfl⟩)
  unfold scanDouble
  dsimp only
  rw [← hspaces, ← hloop]
  refine ⟨rfl, ?_⟩
  have hsum' := hinside.sum
  generalize ScanningDouble.loop fs.modifiers m _ = σ at *
  split
  · exact nofun
  · rintro k ⟨⟩
    omega

/-! ## Characters and strings -/

theorem Fs.scanChar_same (fs : Fs) (h : SameUpTo n m m') {str size : Nat} (hsum : str + size = n) (val : Bool) :
    fs.scanChar m str size val = fs.scanChar m' str size val ∧ ∀ k ∈ (fs.scanChar m str size val).1, k ≤ size := by
  have hbytes : ((List.range (min size fs.charNum)).map fun i => m (str + i)) =
      (List.range (min size fs.charNum)).map fun i => m' (str + i) := by
    refine List.map_congr_left fun i hi => h _ ?_
    have hlt := List.mem_range.1 hi
    omega
  unfold scanChar
  dsimp only
  rw [hbytes]
  refine ⟨rfl, ?_⟩
  split
  · rintro k ⟨⟩
    exact Nat.min_le_left _ _
  · exact nofun

theorem ScanningStr.step_same (next : UInt8) {σ : ScanningStr} (hcell : m σ.s = m' σ.s) : σ.step next m = σ.step next m' := by
  unfold step
  rw [hcell]

/-- Where a pass from a place may go: to the next byte, but where the loop ends. -/
def ScanningStr.OnFrom (s : Nat) (r : ScanningStr × Bool) : Prop := (r.2 = false → r.1.s = s + 1) ∧ s ≤ r.1.s ∧ r.1.s ≤ s + 1

theorem ScanningStr.step_on (next : UInt8) (m : Nat → UInt8) (σ : ScanningStr) : OnFrom σ.s (σ.step next m) := by
  have hstay : OnFrom σ.s (σ, true) := ⟨nofun, Nat.le_refl _, Nat.le_succ _⟩
  have hon {τ : ScanningStr} (hτ : τ.s = σ.s + 1) (ends : Bool) : OnFrom σ.s (τ, ends) :=
    ⟨fun _ => hτ, hτ ▸ Nat.le_succ _, hτ.le⟩
  have hstore (c : Prop) [Decidable c] {σ₁ σ₂ : ScanningStr} (h₁ : σ₁.s = σ.s + 1) (h₂ : σ₂.s = σ.s + 1) :
      (if c then σ₁ else σ₂).s = σ.s + 1 := by
    by_cases hc : c
    · rwa [if_pos hc]
    · rwa [if_neg hc]
  have hstay_or (c : Prop) [Decidable c] {τ : ScanningStr} (hτ : τ.s = σ.s + 1) :
      OnFrom σ.s (if c then (σ, true) else (τ, false)) := by
    by_cases hc : c
    · rw [if_pos hc]
      exact hstay
    · rw [if_neg hc]
      exact hon hτ false
  unfold step
  dsimp only
  by_cases hzero : m σ.s = 0
  · rw [if_pos hzero]
    exact hstay
  rw [if_neg hzero]
  by_cases hesc : σ.escBackslash
  · rw [if_pos hesc]
    exact hstay_or _ (hstore _ rfl rfl)
  rw [if_neg hesc]
  by_cases hback : m σ.s = 92
  · rw [if_pos hback]
    exact hon rfl false
  rw [if_neg hback]
  by_cases hquote : m σ.s = 34
  · rw [if_pos hquote]
    by_cases hin : σ.inQuotes
    · rw [if_pos hin]
      exact hon rfl true
    rw [if_neg hin]
    by_cases hfirst : σ.len = 0
    · rw [if_pos hfirst]
      exact hon rfl false
    · rw [if_neg hfirst]
      exact hstay_or _ (hstore _ rfl rfl)
  rw [if_neg hquote]
  by_cases hend : isspace (m σ.s) ∨ m σ.s = next
  · rw [if_pos hend]
    exact hstay_or _ (hstore _ rfl rfl)
  · rw [if_neg hend]
    exact hon (hstore _ rfl rfl) false

theorem ScanningStr.loop_same (next : UInt8) (h : SameUpTo n m m') {k : Nat} {σ τ : ScanningStr} (hle : σ.s + k ≤ n)
    (hloop : σ.loop next m k = some τ) : (∀ p ≥ k, σ.loop next m' p = some τ) ∧ σ.s ≤ τ.s ∧ τ.s ≤ σ.s + k := by
  induction k generalizing σ with
  | zero => cases hloop
  | succ k ih =>
      have hstep := step_same next (σ := σ) (h σ.s (by omega))
      obtain ⟨hon, hfrom, hto⟩ := step_on next m σ
      have hpass (p : Nat) (hp : p ≥ k + 1) : ∃ q ≥ k, p = q + 1 := ⟨p - 1, by omega, by omega⟩
      rw [loop] at hloop
      by_cases hend : (σ.step next m).2
      · rw [if_pos hend] at hloop
        obtain rfl := Option.some.inj hloop
        refine ⟨fun p hp => ?_, hfrom, by omega⟩
        obtain ⟨q, -, rfl⟩ := hpass p hp
        rw [loop, ← hstep, if_pos hend]
      · rw [if_neg hend] at hloop
        have hs := hon (Bool.eq_false_of_not_eq_true hend)
        obtain ⟨hall, hfrom', hto'⟩ := ih (by omega) hloop
        refine ⟨fun p hp => ?_, by omega, by omega⟩
        obtain ⟨q, hq, rfl⟩ := hpass p hp
        rw [loop, ← hstep, if_neg hend]
        exact hall q hq

/-- Where it does not end, it is at the last byte. -/
theorem ScanningStr.loop_none (next : UInt8) (h : SameUpTo n m m') {k : Nat} {σ : ScanningStr} (hle : σ.s + k ≤ n)
    (hloop : σ.loop next m k = none) : ∃ τ : ScanningStr, τ.s = σ.s + k ∧ ∀ p, σ.loop next m' (k + p) = τ.loop next m' p := by
  induction k generalizing σ with
  | zero => exact ⟨σ, rfl, fun p => by rw [Nat.zero_add]⟩
  | succ k ih =>
      have hstep := step_same next (σ := σ) (h σ.s (by omega))
      obtain ⟨hon, -, -⟩ := step_on next m σ
      rw [loop] at hloop
      by_cases hend : (σ.step next m).2
      · rw [if_pos hend] at hloop
        cases hloop
      · rw [if_neg hend] at hloop
        have hs := hon (Bool.eq_false_of_not_eq_true hend)
        obtain ⟨τ, hτ, hall⟩ := ih (by omega) hloop
        refine ⟨τ, by omega, fun p => ?_⟩
        rw [Nat.succ_add, loop, ← hstep, if_neg hend]
        exact hall p

/-- A string that ends inside is read as far as that. -/
theorem Fs.scanStr_same (fs : Fs) {str size : Nat} (hsum : str + size = n) (val : Bool)
    (hends : (fs.scanStr m str size false (skipSpaces m str size).size).isSome) :
    ∃ r : Option Nat × Stored, (∀ k ∈ r.1, k ≤ size) ∧
      ∀ m', SameUpTo n m m' → ∀ passes, size < passes → fs.scanStr m' str size val passes = some r := by
  unfold scanStr at hends ⊢
  dsimp only at hends ⊢
  rw [Option.isSome_map] at hends
  obtain ⟨τ, hτ⟩ := Option.isSome_iff_exists.1 hends
  obtain ⟨-, hend, hle⟩ := skipSpaces_same (.refl n m) hsum
  obtain ⟨-, -, hto⟩ := ScanningStr.loop_same _ (.refl n m) (Nat.le_of_eq hend) hτ
  dsimp only at hto
  refine ⟨(some (τ.s - str), if val then .bytes (τ.d ++ [0]) else .nothing), ?_, fun m' h passes hpasses => ?_⟩
  · rintro k ⟨⟩
    omega
  · obtain ⟨hall, -⟩ := ScanningStr.loop_same _ h (Nat.le_of_eq hend) hτ
    rw [← (skipSpaces_same h hsum).1, hall passes (by omega)]
    rfl

/-- The loop of `scan_eos` stops at the first byte that is no space, where it runs. -/
theorem Fs.scanEos_eq (fs : Fs) (m : Nat → UInt8) {size : Nat} (hnum : (if size < fs.charNum then size else fs.charNum) ≠ 0)
    {i passes : Nat} (hpasses : i < passes) {str : Nat} (hspaces : ∀ j < i, isspace (m (str + j)))
    (hend : ¬isspace (m (str + i))) : fs.scanEos m str size passes = some (if m (str + i) = 0 then some i else none) := by
  induction i generalizing str passes with
  | zero =>
      obtain ⟨passes, rfl⟩ := Nat.exists_eq_succ_of_ne_zero (Nat.ne_zero_of_lt hpasses)
      exact if_neg fun h => hend h.2
  | succ i ih =>
      obtain ⟨passes, rfl⟩ := Nat.exists_eq_succ_of_ne_zero (Nat.ne_zero_of_lt hpasses)
      have hplace (j : Nat) : str + 1 + j = str + (j + 1) := Nat.succ_add_eq_add_succ str j
      have hnext := @ih passes (by omega) (str + 1)
        (fun j hj => hplace j ▸ hspaces (j + 1) (by omega)) (hplace i ▸ hend)
      rw [scanEos, if_pos ⟨hnum, hspaces 0 (by omega)⟩, hnext, hplace]
      split <;> rfl

theorem Fs.scanEos_same (fs : Fs) {str size : Nat} (hsum : str + size = n)
    (hends : ∃ i < size, fs.charNum = 0 ∨ ¬isspace (m (str + i))) :
    ∃ r : Option Nat, (∀ k ∈ r, k ≤ size) ∧
      ∀ m', SameUpTo n m m' → ∀ passes, size < passes → fs.scanEos m' str size passes = some r := by
  obtain ⟨i, hi, hnone⟩ := hends
  by_cases hzero : fs.charNum = 0
  · -- the loop is not entered
    refine ⟨if m str = 0 then some 0 else none, fun k hk => ?_, fun m' h passes hpasses => ?_⟩
    · split at hk <;> cases hk
      exact Nat.zero_le size
    · obtain ⟨passes, rfl⟩ := Nat.exists_eq_succ_of_ne_zero (Nat.ne_zero_of_lt hpasses)
      rw [h str (by omega), scanEos, if_neg fun hloop => hloop.1 (by rw [hzero]; exact if_neg (Nat.not_lt_zero size))]
  · have hnum : (if size < fs.charNum then size else fs.charNum) ≠ 0 := by split <;> omega
    have hsome : ∃ i, ¬isspace (m (str + i)) := ⟨i, hnone.resolve_left hzero⟩
    have hle : Nat.find hsome ≤ i := Nat.find_min' hsome (hnone.resolve_left hzero)
    refine ⟨if m (str + Nat.find hsome) = 0 then some (Nat.find hsome) else none, fun k hk => ?_, fun m' h passes hpasses => ?_⟩
    · split at hk <;> cases hk
      omega
    · have hplace (j : Nat) (hj : j ≤ i) : m (str + j) = m' (str + j) := h _ (by omega)
      rw [hplace _ hle]
      refine fs.scanEos_eq m' hnum (by omega) (fun j hj => ?_) ?_
      · rw [← hplace j (by omega)]
        exact not_not.1 (Nat.find_min hsome hj)
      · rw [← hplace _ hle]
        exact Nat.find_spec hsome

end

/-! ## Specifiers -/

/-- A string ends inside what is left, so does the space in front of the end of the string, and there is a byte for a `%`. -/
def Fs.Ends (fs : Fs) (m : Nat → UInt8) (str size : Nat) : Prop :=
  match fs.type with
  | .str => (fs.scanStr m str size false (skipSpaces m str size).size).isSome
  | .endOfString => ∃ i < size, fs.charNum = 0 ∨ ¬isspace (m (str + i))
  | .percent => 0 < size
  | _ => True

section

variable {n : Nat} {m : Nat → UInt8}

theorem Fs.scan_same (fs : Fs) (hn : n < 2 ^ 32) {str size : Nat} (hsum : str + size = n) (val : Bool) (hends : fs.Ends m str size) :
    ∃ r : Option Nat × Stored, (∀ k ∈ r.1, k ≤ size) ∧
      ∀ m', SameUpTo n m m' → ∀ passes, size < passes → fs.scan m' str size val passes = some r := by
  have hself : SameUpTo n m m := fun _ _ => rfl
  have hnothing : ∃ r : Option Nat × Stored, (∀ k ∈ r.1, k ≤ size) ∧
      ∀ m', SameUpTo n m m' → ∀ passes, size < passes → some (some 0, Stored.nothing) = some r :=
    ⟨(some 0, .nothing), by rintro k ⟨⟩; exact Nat.zero_le size, fun _ _ _ _ => rfl⟩
  unfold Ends at hends
  unfold scan
  cases htype : fs.type with
  | char =>
      exact ⟨fs.scanChar m str size val, (fs.scanChar_same hself hsum val).2, fun m' h _ _ =>
        congrArg some (fs.scanChar_same h hsum val).1.symm⟩
  | str =>
      rw [htype] at hends
      exact fs.scanStr_same hsum val hends
  | int =>
      exact ⟨fs.scanInt m str size val, (fs.scanInt_same hself hn hsum val).2, fun m' h _ _ =>
        congrArg some (fs.scanInt_same h hn hsum val).1.symm⟩
  | double =>
      exact ⟨fs.scanDouble m str size val, (fs.scanDouble_same hself hn hsum val).2, fun m' h _ _ =>
        congrArg some (fs.scanDouble_same h hn hsum val).1.symm⟩
  | percent =>
      rw [htype] at hends
      refine ⟨(if m str ≠ 37 then none else some 1, .nothing), fun k hk => ?_, fun m' h _ _ => ?_⟩
      · split at hk <;> cases hk
        exact hends
      · have hpos : 0 < size := hends
        rw [h str (by omega)]
  | endOfString =>
      rw [htype] at hends
      obtain ⟨r, hle, hall⟩ := fs.scanEos_same hsum hends
      refine ⟨(r, .nothing), hle, fun m' h passes hpasses => ?_⟩
      rw [hall m' h passes hpasses]
      rfl
  | none | ptr | printLength => exact hnothing

/-- The specifier with its precision, which may be an argument. -/
def Fs.taken (fs : Fs) (a : Args) (i : Nat) : Fs :=
  if fs.precision = asParameter then { fs with precision := (a.int i).toInt } else fs

/-- Whether there is a pointer. -/
def Fs.hasPointer (fs : Fs) : Bool := fs.type ≠ .percent ∧ fs.type ≠ .endOfString ∧ fs.width ≠ asParameter

/-- What a specifier makes of what is consumed and stored. -/
def Scanned.took (r : Scanned) (fs : Fs) (i : Nat) (out : Option Nat × Stored) : Scanned × Option Nat :=
  let r := { r with stored := if fs.hasPointer then r.stored ++ [out.2] else r.stored }
  match out.1 with
  | none => (r, none)
  | some n =>
      ({ r with
          matched := if fs.type ≠ .percent then r.matched + 1 else r.matched
          str := r.str + n
          size := toSize ((r.size : Int) - n) }, some (if fs.hasPointer then i + 1 else i))

theorem Scanned.spec_eq (passes : Nat) (m : Nat → UInt8) (a : Args) (fs : Fs) (r : Scanned) (i : Nat) :
    r.spec passes m a fs i =
      ((fs.taken a i).scan m r.str r.size (fs.taken a i).hasPointer passes).map
        (r.took (fs.taken a i) (if fs.precision = asParameter then i + 1 else i)) := rfl

theorem Scanned.took_some (r : Scanned) (fs : Fs) (i k : Nat) (stored : Stored) :
    ∃ r₁ j, r.took fs i (some k, stored) = (r₁, some j) ∧ r₁.str = r.str + k ∧
      r₁.matched = if fs.type ≠ .percent then r.matched + 1 else r.matched := ⟨_, _, rfl, rfl, rfl⟩

theorem Scanned.took_none (r : Scanned) (fs : Fs) (i : Nat) (stored : Stored) :
    ∃ r₁, r.took fs i (none, stored) = (r₁, none) ∧ r₁.str = r.str ∧ r₁.matched = r.matched := ⟨_, rfl, rfl, rfl⟩

theorem Scanned.spec_same (hn : n < 2 ^ 32) (a : Args) (fs : Fs) (r : Scanned) (hsum : r.str + r.size = n) (i : Nat)
    (hends : (fs.taken a i).Ends m r.str r.size) :
    ∃ out : Scanned × Option Nat, out.1.str + out.1.size = n ∧
      ∀ m', SameUpTo n m m' → ∀ passes, r.size < passes → r.spec passes m' a fs i = some out := by
  obtain ⟨⟨consumed, stored⟩, hle, hall⟩ := (fs.taken a i).scan_same hn hsum (fs.taken a i).hasPointer hends
  refine ⟨r.took (fs.taken a i) (if fs.precision = asParameter then i + 1 else i) (consumed, stored), ?_,
    fun m' h passes hpasses => ?_⟩
  · cases consumed with
    | none => exact hsum
    | some k =>
        have hk : k ≤ r.size := hle k rfl
        show r.str + k + toSize ((r.size : Int) - k) = n
        unfold toSize
        omega
  · rw [spec_eq, hall m' h passes hpasses]
    rfl

end

/-! ## The loop -/

/-- The specifiers that are reached end inside what is left. -/
def Fits (m : Nat → UInt8) (a : Args) (format : List UInt8) (r : Scanned) (i : Nat) : Prop :=
  match format with
  | [] => True
  | c :: format =>
      if c = 0 then True
      else if c ≠ 37 then
        if isspace c then
          let cursor := skipSpaces m r.str r.size
          Fits m a format { r with str := cursor.s, size := cursor.size } i
        else if r.size ≠ 0 ∧ c = m r.str then Fits m a format { r with str := r.str + 1, size := r.size - 1 } i
        else True
      else
        ((fsProcess format).1.taken a i).Ends m r.str r.size ∧
          match r.spec (r.size + 1) m a (fsProcess format).1 i with
          | some (r, some i) => Fits m a (fsProcess format).2 r i
          | _ => True
termination_by format.length
decreasing_by
  · exact Nat.lt_succ_self _
  · exact Nat.lt_succ_self _
  · exact Nat.lt_succ_of_le (fsProcess_suffix format).length_le

section

-- what a directive is and does stays closed where two matches on it are compared
attribute [local irreducible] Scanned.spec fsProcess

variable {n : Nat} {m : Nat → UInt8}

theorem scanLoop_cons (passes : Nat) (m : Nat → UInt8) (a : Args) (c : UInt8) (format : List UInt8) (r : Scanned) (i : Nat) :
    scanLoop passes m a (c :: format) r i =
      if c = 0 then some r
      else if c ≠ 37 then
        if isspace c then
          scanLoop passes m a format { r with str := (skipSpaces m r.str r.size).s, size := (skipSpaces m r.str r.size).size } i
        else if r.size ≠ 0 ∧ c = m r.str then
          scanLoop passes m a format { r with str := r.str + 1, size := r.size - 1 } i
        else some r
      else
        match r.spec passes m a (fsProcess format).1 i with
        | none => none
        | some (r, none) => some r
        | some (r, some i) => scanLoop passes m a (fsProcess format).2 r i :=
  scanLoop.eq_2 ..

theorem fits_cons (m : Nat → UInt8) (a : Args) (c : UInt8) (format : List UInt8) (r : Scanned) (i : Nat) :
    Fits m a (c :: format) r i ↔
      if c = 0 then True
      else if c ≠ 37 then
        if isspace c then
          Fits m a format { r with str := (skipSpaces m r.str r.size).s, size := (skipSpaces m r.str r.size).size } i
        else if r.size ≠ 0 ∧ c = m r.str then Fits m a format { r with str := r.str + 1, size := r.size - 1 } i
        else True
      else
        ((fsProcess format).1.taken a i).Ends m r.str r.size ∧
          match r.spec (r.size + 1) m a (fsProcess format).1 i with
          | some (r, some i) => Fits m a (fsProcess format).2 r i
          | _ => True := by
  rw [Fits]

theorem scanLoop_same (hn : n < 2 ^ 32) (a : Args) (format : List UInt8) (r : Scanned) (i : Nat) (hsum : r.str + r.size = n)
    (hfits : Fits m a format r i) :
    ∃ r' : Scanned, r'.str + r'.size = n ∧
      ∀ m', SameUpTo n m m' → ∀ passes, n < passes → scanLoop passes m' a format r i = some r' := by
  induction format, r, i using Fits.induct m with
  | case1 r i => exact ⟨r, hsum, fun m' _ passes _ => by rw [scanLoop]⟩
  | case2 r i format => exact ⟨r, hsum, fun m' _ passes _ => by rw [scanLoop_cons, if_pos rfl]⟩
  | case3 r i c format hzero hpercent hspace cursor ih =>
      obtain ⟨-, hend, -⟩ := skipSpaces_same (.refl n m) hsum
      rw [fits_cons, if_neg hzero, if_pos hpercent, if_pos hspace] at hfits
      obtain ⟨r', hr', hall⟩ := ih hend hfits
      refine ⟨r', hr', fun m' h passes hpasses => ?_⟩
      rw [scanLoop_cons, if_neg hzero, if_pos hpercent, if_pos hspace, ← (skipSpaces_same h hsum).1]
      exact hall m' h passes hpasses
  | case4 r i c format hzero hpercent hspace hmatch ih =>
      rw [fits_cons, if_neg hzero, if_pos hpercent, if_neg hspace, if_pos hmatch] at hfits
      have hpos := hmatch.1
      obtain ⟨r', hr', hall⟩ := ih (show r.str + 1 + (r.size - 1) = n by omega) hfits
      refine ⟨r', hr', fun m' h passes hpasses => ?_⟩
      rw [scanLoop_cons, if_neg hzero, if_pos hpercent, if_neg hspace, ← h r.str (by omega), if_pos hmatch]
      exact hall m' h passes hpasses
  | case5 r i c format hzero hpercent hspace hmatch =>
      refine ⟨r, hsum, fun m' h passes _ => ?_⟩
      have hno : ¬(r.size ≠ 0 ∧ c = m' r.str) := fun hmatch' => hmatch
        ⟨hmatch'.1, by rw [h r.str (by have := hmatch'.1; omega)]; exact hmatch'.2⟩
      rw [scanLoop_cons, if_neg hzero, if_pos hpercent, if_neg hspace, if_neg hno]
  | case6 r i c format hzero hpercent ih =>
      rw [fits_cons, if_neg hzero, if_neg hpercent] at hfits
      obtain ⟨hends, hfits⟩ := hfits
      obtain ⟨⟨r₁, next⟩, hsum₁, hspec⟩ := Scanned.spec_same hn a (fsProcess format).1 r hsum i hends
      rw [hspec m (fun _ _ => rfl) _ (Nat.lt_succ_self _)] at hfits
      have hloop (m' : Nat → UInt8) (h : SameUpTo n m m') (passes : Nat) (hpasses : n < passes) :=
        hspec m' h passes (by omega)
      cases next with
      | none =>
          refine ⟨r₁, hsum₁, fun m' h passes hpasses => ?_⟩
          rw [scanLoop_cons, if_neg hzero, if_neg hpercent, hloop m' h passes hpasses]
      | some i =>
          obtain ⟨r', hr', hall⟩ := ih r₁ i hsum₁ hfits
          refine ⟨r', hr', fun m' h passes hpasses => ?_⟩
          rw [scanLoop_cons, if_neg hzero, if_neg hpercent, hloop m' h passes hpasses]
          exact hall m' h passes hpasses

/-! ## Behind the size -/

theorem ScanningStr.step_zero (next : UInt8) {σ : ScanningStr} (hzero : m σ.s = 0) : σ.step next m = (σ, true) := by
  unfold step
  dsimp only
  rw [if_pos hzero]

theorem ScanningStr.loop_behind (next : UInt8) (hm : ∀ i ≥ n, m i = 0) {σ : ScanningStr} {passes : Nat} (hpos : 0 < passes)
    (h : n < σ.s + passes) : (σ.loop next m passes).isSome := by
  induction passes generalizing σ with
  | zero => exact absurd hpos (Nat.lt_irrefl 0)
  | succ passes ih =>
      rw [loop]
      by_cases hend : (σ.step next m).2
      · rw [if_pos hend]
        rfl
      · have hs := (step_on next m σ).1 (Bool.eq_false_of_not_eq_true hend)
        have hcell : σ.s < n := by
          by_contra hge
          rw [step_zero next (hm _ (Nat.le_of_not_lt hge))] at hend
          exact hend rfl
        rw [if_neg hend]
        exact ih (by omega) (by omega)

theorem Fs.scanEos_behind (fs : Fs) (hm : ∀ i ≥ n, m i = 0) {str size passes : Nat} (hpos : 0 < passes) (h : n < str + passes) :
    (fs.scanEos m str size passes).isSome := by
  induction passes generalizing str with
  | zero => exact absurd hpos (Nat.lt_irrefl 0)
  | succ passes ih =>
      rw [scanEos]
      by_cases hloop : (if size < fs.charNum then size else fs.charNum) ≠ 0 ∧ isspace (m str)
      · have hcell : str < n := by
          by_contra hge
          have hzero : m str = 0 := hm _ (Nat.le_of_not_lt hge)
          have hblank := hloop.2
          rw [hzero] at hblank
          exact absurd hblank (by decide)
        rw [if_pos hloop, Option.isSome_map]
        exact ih (by omega) (by omega)
      · rw [if_neg hloop]
        rfl

theorem Fs.scan_behind (fs : Fs) (hm : ∀ i ≥ n, m i = 0) (str size : Nat) (val : Bool) {passes : Nat} (h : n < passes) :
    (fs.scan m str size val passes).isSome := by
  unfold scan
  cases fs.type with
  | str =>
      show (fs.scanStr m str size val passes).isSome
      unfold scanStr
      dsimp only
      rw [Option.isSome_map]
      exact ScanningStr.loop_behind _ hm (by omega) (by omega)
  | endOfString =>
      show ((fs.scanEos m str size passes).map _).isSome
      rw [Option.isSome_map]
      exact fs.scanEos_behind hm (by omega) (by omega)
  | none | char | int | double | ptr | printLength | percent => rfl

/-- Over a memory with zeros behind, it ends. -/
theorem scanLoop_behind (hm : ∀ i ≥ n, m i = 0) (a : Args) {passes : Nat} (h : n < passes) (format : List UInt8) (r : Scanned)
    (i : Nat) : ∃ r', scanLoop passes m a format r i = some r' ∧ r.str ≤ r'.str ∧ r.matched ≤ r'.matched := by
  induction format, r, i using Fits.induct m with
  | case1 r i => exact ⟨r, by rw [scanLoop], Nat.le_refl _, Nat.le_refl _⟩
  | case2 r i format => exact ⟨r, by rw [scanLoop_cons, if_pos rfl], Nat.le_refl _, Nat.le_refl _⟩
  | case3 r i c format hzero hpercent hspace cursor ih =>
      obtain ⟨-, -, hle⟩ := skipSpaces_same (.refl _ m) (rfl : r.str + r.size = _)
      obtain ⟨r', hloop, hstr, hmatched⟩ := ih
      refine ⟨r', ?_, Nat.le_trans hle hstr, hmatched⟩
      rw [scanLoop_cons, if_neg hzero, if_pos hpercent, if_pos hspace]
      exact hloop
  | case4 r i c format hzero hpercent hspace hmatch ih =>
      obtain ⟨r', hloop, hstr, hmatched⟩ := ih
      refine ⟨r', ?_, Nat.le_of_succ_le hstr, hmatched⟩
      rw [scanLoop_cons, if_neg hzero, if_pos hpercent, if_neg hspace, if_pos hmatch]
      exact hloop
  | case5 r i c format hzero hpercent hspace hmatch =>
      refine ⟨r, ?_, Nat.le_refl _, Nat.le_refl _⟩
      rw [scanLoop_cons, if_neg hzero, if_pos hpercent, if_neg hspace, if_neg hmatch]
  | case6 r i c format hzero hpercent ih =>
      obtain ⟨⟨consumed, stored⟩, hscan⟩ := Option.isSome_iff_exists.1
        (((fsProcess format).1.taken a i).scan_behind hm r.str r.size ((fsProcess format).1.taken a i).hasPointer h)
      rw [scanLoop_cons, if_neg hzero, if_neg hpercent, Scanned.spec_eq, hscan, Option.map_some]
      cases consumed with
      | none =>
          obtain ⟨r₁, htook, hstr, hmatched⟩ := r.took_none ((fsProcess format).1.taken a i) _ stored
          rw [htook]
          exact ⟨r₁, rfl, Nat.le_of_eq hstr.symm, Nat.le_of_eq hmatched.symm⟩
      | some k =>
          obtain ⟨r₁, j, htook, hstr₁, hmatched₁⟩ := r.took_some ((fsProcess format).1.taken a i) _ k stored
          obtain ⟨r', hloop, hstr, hmatched⟩ := ih r₁ j
          rw [htook]
          refine ⟨r', hloop, by omega, Nat.le_trans ?_ hmatched⟩
          rw [hmatched₁]
          split
          · exact Nat.le_succ _
          · exact Nat.le_refl _

/-- The memory with one byte and zeros behind the end. -/
def follow (n : Nat) (m : Nat → UInt8) (c : UInt8) (i : Nat) : UInt8 := if i < n then m i else if i = n then c else 0

theorem same_follow (n : Nat) (m : Nat → UInt8) (c : UInt8) : SameUpTo n m (follow n m c) := fun _ hi => (if_pos hi).symm

theorem follow_end (n : Nat) (m : Nat → UInt8) (c : UInt8) : follow n m c n = c :=
  (if_neg (Nat.lt_irrefl n)).trans (if_pos rfl)

theorem follow_behind (n : Nat) (m : Nat → UInt8) (c : UInt8) : ∀ i ≥ n + 1, follow n m c i = 0 := fun i hi =>
  (if_neg (by omega)).trans (if_neg (by omega))

/-- A character that ends no string. -/
theorem ScanningStr.step_plain {next c : UInt8} {σ : ScanningStr} (hcell : m σ.s = c) (hplain : c = 120 ∨ c = 121) (hnext : c ≠ next) :
    (σ.step next m).2 = false := by
  have hstore (b : Prop) [Decidable b] {r : ScanningStr × Bool} (hb : ¬b) (hr : r.2 = false) :
      (if b then (σ, true) else r).2 = false := by
    rw [if_neg hb]
    exact hr
  have hother : c ≠ 0 ∧ c ≠ 92 ∧ c ≠ 34 ∧ ¬isspace c := by
    rcases hplain with rfl | rfl <;> decide
  unfold step
  dsimp only
  rw [hcell, if_neg hother.1]
  by_cases hesc : σ.escBackslash
  · rw [if_pos hesc]
    exact hstore _ (fun h => hnext h.1) rfl
  · rw [if_neg hesc, if_neg hother.2.1, if_neg hother.2.2.1, if_neg fun h => h.elim hother.2.2.2 hnext]

/-- A string that does not end inside goes on over the byte behind. -/
theorem Fs.scanStr_over (fs : Fs) {str size : Nat} (hsum : str + size = n) (val : Bool)
    (hends : ¬(fs.scanStr m str size false (skipSpaces m str size).size).isSome) :
    ∃ c, ∀ passes, n + 2 ≤ passes →
      ∃ stored, fs.scanStr (follow n m c) str size val passes = some (some (size + 1), stored) := by
  obtain ⟨c, hplain, hnext⟩ : ∃ c : UInt8, (c = 120 ∨ c = 121) ∧ c ≠ fs.nextChar := by
    by_cases hnext : fs.nextChar = 120
    · exact ⟨121, .inr rfl, by rw [hnext]; decide⟩
    · exact ⟨120, .inl rfl, Ne.symm hnext⟩
  refine ⟨c, fun passes hpasses => ?_⟩
  have hsame := same_follow n m c
  obtain ⟨hspaces, hend, hle⟩ := skipSpaces_same hsame hsum
  unfold scanStr at hends ⊢
  dsimp only at hends ⊢
  rw [Option.isSome_map, Bool.not_eq_true, Option.isSome_eq_false_iff, Option.isNone_iff_eq_none] at hends
  obtain ⟨τ, hτ, hall⟩ := ScanningStr.loop_none _ hsame (Nat.le_of_eq hend) hends
  dsimp only at hτ
  have hτn : τ.s = n := hτ.trans hend
  -- the byte behind, and the zero behind that
  have hplain' := ScanningStr.step_plain (m := follow n m c) (σ := τ) (by rw [hτn, follow_end]) hplain hnext
  have hs := (ScanningStr.step_on fs.nextChar (follow n m c) τ).1 hplain'
  have hzero := ScanningStr.step_zero fs.nextChar (σ := (τ.step fs.nextChar (follow n m c)).1)
    (follow_behind n m c _ (by omega))
  obtain ⟨p, hp⟩ : ∃ p, passes = (skipSpaces m str size).size + (p + 2) :=
    ⟨passes - (skipSpaces m str size).size - 2, by omega⟩
  rw [← hspaces, hp, hall, ScanningStr.loop, if_neg (by rw [hplain']; exact Bool.false_ne_true), ScanningStr.loop, hzero, if_pos rfl]
  have hconsumed : (τ.step fs.nextChar (follow n m c)).1.s - str = size + 1 := by omega
  rw [Option.map_some, hconsumed]
  exact ⟨_, rfl⟩

theorem Fs.scanEos_follow (fs : Fs) {str size : Nat} (hsum : str + size = n)
    (hends : ¬∃ i < size, fs.charNum = 0 ∨ ¬isspace (m (str + i))) {c : UInt8} (hc : ¬isspace c) {passes : Nat} (hpasses : n < passes) :
    fs.scanEos (follow n m c) str size passes = some (if c = 0 then some size else none) := by
  by_cases hzero : size = 0
  · obtain ⟨passes, rfl⟩ := Nat.exists_eq_succ_of_ne_zero (Nat.ne_zero_of_lt hpasses)
    have hstr : str = n := by omega
    have hnum : ¬(if size < fs.charNum then size else fs.charNum) ≠ 0 := by
      rw [hzero]
      split <;> omega
    rw [scanEos, if_neg fun h => hnum h.1, hstr, follow_end, hzero]
  · have hall : ∀ i < size, fs.charNum ≠ 0 ∧ isspace (m (str + i)) := fun i hi =>
      not_or.1 (fun h => hends ⟨i, hi, h⟩) |>.imp_right not_not.1
    have hnum : (if size < fs.charNum then size else fs.charNum) ≠ 0 := by
      have hne := (hall 0 (by omega)).1
      split <;> omega
    have hspaces (j : Nat) (hj : j < size) : isspace (follow n m c (str + j)) := by
      rw [← same_follow n m c (str + j) (by omega)]
      exact (hall j hj).2
    have hend : ¬isspace (follow n m c (str + size)) := by
      rw [hsum, follow_end]
      exact hc
    rw [fs.scanEos_eq (follow n m c) hnum (by omega) hspaces hend, hsum, follow_end]

/-- Where a specifier does not end inside, one memory or another makes a difference. -/
theorem Scanned.ends_of_spec (a : Args) (fs : Fs) (r : Scanned) (hsum : r.str + r.size = n) (i : Nat)
    (hends : ¬(fs.taken a i).Ends m r.str r.size) :
    (∃ c, ∀ passes, n + 2 ≤ passes → ∃ r₁ j, r.spec passes (follow n m c) a fs i = some (r₁, some j) ∧ n < r₁.str) ∨
      ∀ passes, n + 2 ≤ passes →
        (∃ r₁ j, r.spec passes (follow n m 0) a fs i = some (r₁, some j) ∧ r.matched < r₁.matched) ∧
          ∃ r₁, r.spec passes (follow n m 120) a fs i = some (r₁, none) ∧ r₁.matched = r.matched := by
  let j := if fs.precision = asParameter then i + 1 else i
  have hover {c : UInt8} {passes : Nat} (stored : Stored)
      (hscan : (fs.taken a i).scan (follow n m c) r.str r.size (fs.taken a i).hasPointer passes = some (some (r.size + 1), stored)) :
      ∃ r₁ j, r.spec passes (follow n m c) a fs i = some (r₁, some j) ∧ n < r₁.str := by
    obtain ⟨r₁, j', htook, hstr, -⟩ := r.took_some (fs.taken a i) j (r.size + 1) stored
    refine ⟨r₁, j', ?_, by omega⟩
    rw [spec_eq, hscan]
    exact congrArg some htook
  unfold Fs.Ends at hends
  cases htype : (fs.taken a i).type with
  | str =>
      rw [htype] at hends
      obtain ⟨c, hall⟩ := (fs.taken a i).scanStr_over hsum (fs.taken a i).hasPointer hends
      refine .inl ⟨c, fun passes hpasses => ?_⟩
      obtain ⟨stored, hscan⟩ := hall passes hpasses
      refine hover stored ?_
      unfold Fs.scan
      rw [htype]
      exact hscan
  | percent =>
      rw [htype] at hends
      have hsize : r.size = 0 := Nat.eq_zero_of_not_pos hends
      refine .inl ⟨37, fun passes _ => hover .nothing ?_⟩
      unfold Fs.scan
      rw [htype, show r.str = n by omega, hsize]
      dsimp only
      rw [follow_end]
      rfl
  | endOfString =>
      rw [htype] at hends
      have hscan {c : UInt8} (hc : ¬isspace c) {passes : Nat} (hpasses : n + 2 ≤ passes) :
          (fs.taken a i).scan (follow n m c) r.str r.size (fs.taken a i).hasPointer passes =
            some (if c = 0 then some r.size else none, .nothing) := by
        unfold Fs.scan
        rw [htype]
        dsimp only
        rw [(fs.taken a i).scanEos_follow hsum hends hc (by omega)]
        rfl
      refine .inr fun passes hpasses => ⟨?_, ?_⟩
      · obtain ⟨r₁, j', htook, -, hmatched⟩ := r.took_some (fs.taken a i) j r.size .nothing
        refine ⟨r₁, j', ?_, ?_⟩
        · rw [spec_eq, hscan (by decide) hpasses]
          exact congrArg some htook
        · rw [hmatched, htype, if_pos (by decide)]
          exact Nat.lt_succ_self _
      · obtain ⟨r₁, htook, -, hmatched⟩ := r.took_none (fs.taken a i) j .nothing
        refine ⟨r₁, ?_, hmatched⟩
        rw [spec_eq, hscan (by decide) hpasses]
        exact congrArg some htook
  | none | char | int | double | ptr | printLength =>
      rw [htype] at hends
      exact absurd trivial hends

/-- A specifier that is reached ends inside what is left, if what is behind the end makes no difference. -/
theorem Scanned.ends_of_same (a : Args) (format : List UInt8) (r : Scanned) (hsum : r.str + r.size = n) (i : Nat) {r' : Scanned}
    (hr' : r'.str + r'.size = n)
    (hreads : ∀ m', SameUpTo n m m' → ∃ passes, n + 2 ≤ passes ∧
      (match r.spec passes m' a (fsProcess format).1 i with
        | none => none
        | some (r, none) => some r
        | some (r, some i) => scanLoop passes m' a (fsProcess format).2 r i) = some r') :
    ((fsProcess format).1.taken a i).Ends m r.str r.size := by
  have hgoes (c : UInt8) {passes : Nat} (hpasses : n + 2 ≤ passes) (r₁ : Scanned) (j : Nat) :=
    scanLoop_behind (follow_behind n m c) a (show n + 1 < passes by omega) (fsProcess format).2 r₁ j
  by_contra hends
  rcases r.ends_of_spec a (fsProcess format).1 hsum i hends with ⟨c, hover⟩ | hdiffer
  · -- it goes on behind the end, and never comes back
    obtain ⟨passes, hpasses, hloop⟩ := hreads (follow n m c) (same_follow n m c)
    obtain ⟨r₁, j, hspec, hstr⟩ := hover passes hpasses
    obtain ⟨r₂, hloop₂, hle, -⟩ := hgoes c hpasses r₁ j
    rw [hspec] at hloop
    have heq := Option.some.inj (hloop₂.symm.trans hloop)
    rw [heq] at hle
    omega
  · -- the end of the string is there or not
    obtain ⟨passes, hpasses, hloop⟩ := hreads (follow n m 0) (same_follow n m 0)
    obtain ⟨passes', hpasses', hloop'⟩ := hreads (follow n m 120) (same_follow n m 120)
    obtain ⟨r₁, j, hspec, hmore⟩ := (hdiffer passes hpasses).1
    obtain ⟨r₃, hspec', hsame⟩ := (hdiffer passes' hpasses').2
    obtain ⟨r₂, hloop₂, -, hle⟩ := hgoes 0 hpasses r₁ j
    rw [hspec] at hloop
    rw [hspec'] at hloop'
    have heq := Option.some.inj (hloop₂.symm.trans hloop)
    have heq' := Option.some.inj hloop'
    rw [heq, ← heq'] at hle
    omega

theorem fits_of_same (hn : n < 2 ^ 32) (a : Args) (format : List UInt8) (r : Scanned) (i : Nat) (hsum : r.str + r.size = n)
    {r' : Scanned} (hr' : r'.str + r'.size = n)
    (hreads : ∀ m', SameUpTo n m m' → ∃ least, ∀ passes ≥ least, scanLoop passes m' a format r i = some r') :
    Fits m a format r i := by
  induction format, r, i using Fits.induct m with
  | case1 r i =>
      rw [Fits]
      trivial
  | case2 r i format =>
      rw [fits_cons, if_pos rfl]
      trivial
  | case3 r i c format hzero hpercent hspace cursor ih =>
      obtain ⟨-, hend, -⟩ := skipSpaces_same (.refl n m) hsum
      rw [fits_cons, if_neg hzero, if_pos hpercent, if_pos hspace]
      refine ih hend fun m' h => ?_
      obtain ⟨least, hall⟩ := hreads m' h
      refine ⟨least, fun passes hpasses => ?_⟩
      have hloop := hall passes hpasses
      rwa [scanLoop_cons, if_neg hzero, if_pos hpercent, if_pos hspace, ← (skipSpaces_same h hsum).1] at hloop
  | case4 r i c format hzero hpercent hspace hmatch ih =>
      have hpos := hmatch.1
      rw [fits_cons, if_neg hzero, if_pos hpercent, if_neg hspace, if_pos hmatch]
      refine ih (show r.str + 1 + (r.size - 1) = n by omega) fun m' h => ?_
      obtain ⟨least, hall⟩ := hreads m' h
      refine ⟨least, fun passes hpasses => ?_⟩
      have hloop := hall passes hpasses
      rwa [scanLoop_cons, if_neg hzero, if_pos hpercent, if_neg hspace, ← h r.str (by omega), if_pos hmatch] at hloop
  | case5 r i c format hzero hpercent hspace hmatch =>
      rw [fits_cons, if_neg hzero, if_pos hpercent, if_neg hspace, if_neg hmatch]
      trivial
  | case6 r i c format hzero hpercent ih =>
      have hends : ((fsProcess format).1.taken a i).Ends m r.str r.size := by
        refine r.ends_of_same a format hsum i hr' fun m' h => ?_
        obtain ⟨least, hall⟩ := hreads m' h
        have hloop := hall (max least (n + 2)) (Nat.le_max_left _ _)
        rw [scanLoop_cons, if_neg hzero, if_neg hpercent] at hloop
        exact ⟨_, Nat.le_max_right _ _, hloop⟩
      obtain ⟨⟨r₁, next⟩, hsum₁, hspec⟩ := Scanned.spec_same hn a (fsProcess format).1 r hsum i hends
      rw [fits_cons, if_neg hzero, if_neg hpercent, hspec m (fun _ _ => rfl) _ (Nat.lt_succ_self _)]
      refine ⟨hends, ?_⟩
      cases next with
      | none => trivial
      | some j =>
          refine ih r₁ j hsum₁ fun m' h => ?_
          obtain ⟨least, hall⟩ := hreads m' h
          refine ⟨max least (n + 1), fun passes hpasses => ?_⟩
          have hloop := hall passes (Nat.le_trans (Nat.le_max_left _ _) hpasses)
          have hmany : n + 1 ≤ passes := Nat.le_trans (Nat.le_max_right _ _) hpasses
          rwa [scanLoop_cons, if_neg hzero, if_neg hpercent, hspec m' h passes (by omega)] at hloop

end

/-- One result for all memories that agree up to where the size ends: the count, what is stored, and what is left. -/
def ReadsInside (m : Nat → UInt8) (size : BitVec 32) (format : List UInt8) (a : Args) : Prop :=
  ∃ r : Scanned, r.str + r.size = size.toNat ∧
    ∀ m', SameUpTo size.toNat m m' → ∃ least, ∀ passes ≥ least, vsnscanf passes m' size format a = some r

/-- It reads inside exactly where the specifiers that it reaches end inside. -/
theorem readsInside_iff (m : Nat → UInt8) (size : BitVec 32) (format : List UInt8) (a : Args) :
    ReadsInside m size format a ↔ Fits m a format ⟨0, [], 0, size.toNat⟩ 0 := by
  have hsum : 0 + size.toNat = size.toNat := Nat.zero_add _
  constructor
  · rintro ⟨r', hr', hreads⟩
    exact fits_of_same size.isLt a format ⟨0, [], 0, size.toNat⟩ 0 hsum hr' hreads
  · intro hfits
    obtain ⟨r', hr', hall⟩ := scanLoop_same size.isLt a format ⟨0, [], 0, size.toNat⟩ 0 hsum hfits
    exact ⟨r', hr', fun m' h => ⟨size.toNat + 1, fun passes hpasses => hall m' h passes hpasses⟩⟩

/-- `%s` does not look at the size. -/
theorem not_readsInside_str : ¬ReadsInside (fun _ => 97) 1 (ascii "%s") noArgs := by
  rintro ⟨r', hr', hreads⟩
  have hfits := fits_of_same (by decide) noArgs (ascii "%s") ⟨0, [], 0, 1⟩ 0 rfl hr' hreads
  have hends : ((fsProcess [115]).1.scanStr (fun _ => 97) 0 1 false 1).isSome = false := by decide
  rw [show ascii "%s" = [37, 115] by decide, fits_cons, if_neg (by decide), if_neg (by decide)] at hfits
  exact absurd (hends.symm.trans hfits.1) (by decide)

end YieldStm32.Stdio
