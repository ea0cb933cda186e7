import YieldStm32.Lib.Ring
import YieldStm32.Util.IntText
import YieldStm32.Util.Scan

/-!
# What `scan_int` reads (`util/src/stdio.c`)

* `loop_digits`, `loop_prefix`, `loop_sign` : the stages of `scan_int`, over any text;
* `scanInt_eq` : what it consumes and stores.
-/

namespace YieldStm32.Stdio

/-! ## Texts in memory -/

/-- The bytes from a cursor to where the size ends. -/
def Cursor.text (m : Nat → UInt8) (c : Cursor) : List UInt8 := Ring.copyOut m c.s c.size

section

variable {m : Nat → UInt8} {c : Cursor}

theorem Cursor.text_drop (m : Nat → UInt8) (s : Nat) {k n : Nat} (hk : k ≤ n) :
    Cursor.text m ⟨s + k, n - k⟩ = (Cursor.text m ⟨s, n⟩).drop k := by
  have hsplit := Ring.copyOut_add m s k (n - k)
  rw [Nat.add_sub_cancel' hk] at hsplit
  show Ring.copyOut m (s + k) (n - k) = (Ring.copyOut m s n).drop k
  rw [hsplit, List.drop_left' (Ring.length_copyOut m s k)]

theorem Cursor.text_succ {n : Nat} (h : c.size = n + 1) : c.text m = m c.s :: Cursor.text m ⟨c.s + 1, n⟩ := by
  have hsplit := Ring.copyOut_add m c.s 1 n
  rw [Nat.add_comm 1 n, ← h] at hsplit
  exact hsplit

theorem Cursor.length_text : (c.text m).length = c.size := Ring.length_copyOut m c.s c.size

theorem Cursor.advance_succ {n : Nat} (h : c.size = n + 1) (hlt : n + 1 < 2 ^ 32) : c.advance 1 = ⟨c.s + 1, n⟩ := by
  unfold Cursor.advance toSize
  rw [h]
  congr 1
  omega

theorem Cursor.advance_zero (hlt : c.size < 2 ^ 32) : c.advance 0 = c := by
  obtain ⟨s, size⟩ := c
  unfold Cursor.advance toSize
  dsimp only at *
  congr 1
  omega

theorem Cursor.advance_back (h : 0 < c.size) (hsize : c.size < 2 ^ 32) : (c.advance 1).advance (-1) = c := by
  obtain ⟨s, size⟩ := c
  unfold Cursor.advance toSize
  dsimp only at *
  congr 1
  · omega
  · omega

/-- Only letters come from others. -/
theorem tolower_eq_iff {c d : UInt8} (hd : d.toNat < 65) : tolower c = d ↔ c = d := by
  unfold tolower
  by_cases hc : 65 ≤ c.toNat ∧ c.toNat ≤ 90
  · have hlower : (c + 32).toNat = c.toNat + 32 := by
      rw [UInt8.toNat_add]
      show (c.toNat + 32) % 256 = _
      omega
    rw [if_pos hc]
    refine ⟨fun h => ?_, fun h => ?_⟩
    · rw [h] at hlower
      omega
    · rw [h] at hc
      omega
  · rw [if_neg hc]

theorem Cursor.eos_of_text_nil (h : c.text m = []) : c.Eos m := by
  refine .inr ?_
  rw [← Cursor.length_text (m := m), h]
  rfl

theorem Cursor.eos_of_text_zero {rest : List UInt8} (h : c.text m = 0 :: rest) : c.Eos m := by
  refine .inl ((tolower_eq_iff (by decide)).2 ?_)
  have hlen := congrArg List.length h
  rw [Cursor.length_text, List.length_cons] at hlen
  rw [Cursor.text_succ hlen] at h
  exact (List.cons.inj h).1

/-- A byte that does not end the text. -/
theorem Cursor.text_cons {a : UInt8} {rest : List UInt8} (h : c.text m = a :: rest) :
    m c.s = a ∧ c.size = rest.length + 1 ∧ Cursor.text m ⟨c.s + 1, rest.length⟩ = rest := by
  have hlen := congrArg List.length h
  rw [Cursor.length_text, List.length_cons] at hlen
  rw [Cursor.text_succ hlen] at h
  exact ⟨(List.cons.inj h).1, hlen, (List.cons.inj h).2⟩

theorem Cursor.not_eos {a : UInt8} {rest : List UInt8} (h : c.text m = a :: rest) (ha : a ≠ 0) : ¬c.Eos m := by
  obtain ⟨hcell, hsize, -⟩ := Cursor.text_cons h
  rintro (hzero | hzero)
  · exact ha (hcell ▸ (tolower_eq_iff (by decide)).1 hzero)
  · exact absurd (hsize.symm.trans hzero) (Nat.succ_ne_zero _)

end

/-! ## Digits -/

theorem loop_step (tm : Modifiers) (m : Nat → UInt8) {σ : ScanningInt} (h : σ.stage.rank ≠ 0) :
    σ.loop tm m = (σ.step tm m).loop tm m := by
  rw [ScanningInt.loop, dif_neg h]

theorem loop_ended (tm : Modifiers) (m : Nat → UInt8) {σ : ScanningInt} (h : σ.stage.rank = 0) : σ.loop tm m = σ := by
  rw [ScanningInt.loop, dif_pos h]

/-- What is kept of digits: no zeros in front, and thirty at most. -/
def keep (buf : List UInt8) (c : UInt8) : List UInt8 :=
  if (digitVal c ≠ 0 ∨ buf ≠ []) ∧ buf.length < 30 then buf ++ [UInt8.ofNat (digitVal c)] else buf

/-- The bytes that count as digits. -/
def counted (base : Nat) (text : List UInt8) : List UInt8 := text.takeWhile fun c => digitVal c < base

theorem digitVal_lt_of_mem {base : Nat} {text : List UInt8} {c : UInt8} (h : c ∈ counted base text) : digitVal c < base := by
  have htrue := List.mem_takeWhile_imp h
  exact of_decide_eq_true htrue

theorem digitVal_zero {base : Nat} (hbase : base ≤ 16) : ¬digitVal 0 < base := by
  have hzero : digitVal 0 = 4294967209 := by decide
  rw [hzero]
  omega

/-- `INT`, where there is no digit. -/
theorem loop_no_digit (tm : Modifiers) (m : Nat → UInt8) {σ : ScanningInt} (hstage : σ.stage = .int)
    (hno : ¬(¬σ.cursor.Eos m ∧ digitVal (m σ.cursor.s) < σ.base)) :
    σ.loop tm m = { σ with stage := if σ.digitNum ≠ 0 then .finished else .failed } := by
  have hrank : σ.stage.rank ≠ 0 := by rw [hstage]; decide
  have hstep : σ.step tm m = { σ with stage := if σ.digitNum ≠ 0 then .finished else .failed } := by
    unfold ScanningInt.step
    rw [hstage]
    dsimp only
    rw [if_neg hno]
  rw [loop_step tm m hrank, hstep]
  refine loop_ended tm m ?_
  dsimp only
  split <;> rfl

/-- `INT` -/
theorem loop_digits (tm : Modifiers) (m : Nat → UInt8) {text : List UInt8} {σ : ScanningInt} (hstage : σ.stage = .int)
    (htext : σ.cursor.text m = text) (hlt : σ.cursor.size < 2 ^ 32) (hbase : σ.base ≤ 16) :
    σ.loop tm m =
      { σ with
        stage := if σ.digitNum + (counted σ.base text).length ≠ 0 then .finished else .failed
        cursor := ⟨σ.cursor.s + (counted σ.base text).length, σ.cursor.size - (counted σ.base text).length⟩
        digitNum := σ.digitNum + (counted σ.base text).length
        buf := (counted σ.base text).foldl keep σ.buf } := by
  induction text generalizing σ with
  | nil => exact loop_no_digit tm m hstage fun h => h.1 (Cursor.eos_of_text_nil htext)
  | cons a rest ih =>
      obtain ⟨hcell, hsize, hrest⟩ := Cursor.text_cons htext
      by_cases hdigit : digitVal a < σ.base
      · have hne : a ≠ 0 := by
          rintro rfl
          exact digitVal_zero hbase hdigit
        have hadvance := Cursor.advance_succ hsize (by omega)
        have hstep : σ.step tm m =
            { σ with cursor := ⟨σ.cursor.s + 1, rest.length⟩, digitNum := σ.digitNum + 1, buf := keep σ.buf a } := by
          unfold ScanningInt.step
          rw [hstage]
          dsimp only
          rw [if_pos ⟨Cursor.not_eos htext hne, by rw [hcell]; exact hdigit⟩, hcell, hadvance]
          rfl
        have hcounted : counted σ.base (a :: rest) = a :: counted σ.base rest :=
          List.takeWhile_cons_of_pos (decide_eq_true hdigit)
        have hnext := ih (σ := { σ with cursor := ⟨σ.cursor.s + 1, rest.length⟩, digitNum := σ.digitNum + 1, buf := keep σ.buf a })
          hstage hrest (by dsimp only; omega) hbase
        rw [loop_step tm m (by rw [hstage]; decide), hstep, hnext, hcounted, List.length_cons, List.foldl_cons, hsize]
        dsimp only
        rw [Nat.add_sub_add_right, Nat.add_right_comm, Nat.add_right_comm σ.cursor.s, Nat.add_assoc σ.digitNum,
          Nat.add_assoc σ.cursor.s]
      · have hcounted : counted σ.base (a :: rest) = [] := List.takeWhile_cons_of_neg (by simpa using hdigit)
        rw [loop_no_digit tm m hstage fun h => hdigit (hcell ▸ h.2), hcounted]
        rfl

/-! ## Prefixes -/

section Prefix

variable {sp : Specifier} {m : Nat → UInt8} {c : Cursor} {sign : Int}

theorem rank_basePrefix : IntStage.basePrefix.rank ≠ 0 := by decide

theorem base_none (hsp : sp = .x ∨ sp = .i) :
    sp.base none = if sp.modifiers.scanBase = 0 then 10 else sp.modifiers.scanBase := by
  rcases hsp with rfl | rfl
  · rfl
  · rfl

/-- The end of the text, behind no character. -/
theorem loop_prefix_nothing (hsp : sp = .x ∨ sp = .i) (hlt : c.size < 2 ^ 32) (heos : c.Eos m) :
    ScanningInt.loop sp.modifiers m ⟨.basePrefix, c, sp.modifiers.scanBase, sign, 0, []⟩ =
      ScanningInt.loop sp.modifiers m ⟨.int, c, sp.base none, sign, 0, []⟩ := by
  have hstep : (ScanningInt.mk .basePrefix c sp.modifiers.scanBase sign 0 []).step sp.modifiers m =
      ⟨.int, c, sp.base none, sign, 0, []⟩ := by
    unfold ScanningInt.step
    dsimp only
    rw [if_pos heos, ← base_none hsp]
    exact congrArg (fun c => ScanningInt.mk .int c (sp.base none) sign 0 []) (Cursor.advance_zero hlt)
  rw [loop_step _ m (σ := ⟨.basePrefix, c, sp.modifiers.scanBase, sign, 0, []⟩) rank_basePrefix, hstep]

/-- A first character is gathered. -/
theorem loop_prefix_first {a : UInt8} {rest : List UInt8} (htext : c.text m = a :: rest) (ha : a ≠ 0) :
    ScanningInt.loop sp.modifiers m ⟨.basePrefix, c, sp.modifiers.scanBase, sign, 0, []⟩ =
      ScanningInt.loop sp.modifiers m ⟨.basePrefix, c.advance 1, sp.modifiers.scanBase, sign, 0, [tolower a]⟩ := by
  have hstep : (ScanningInt.mk .basePrefix c sp.modifiers.scanBase sign 0 []).step sp.modifiers m =
      ⟨.basePrefix, c.advance 1, sp.modifiers.scanBase, sign, 0, [tolower a]⟩ := by
    unfold ScanningInt.step
    dsimp only
    rw [if_neg (Cursor.not_eos htext ha), (Cursor.text_cons htext).1]
    rfl
  rw [loop_step _ m (σ := ⟨.basePrefix, c, sp.modifiers.scanBase, sign, 0, []⟩) rank_basePrefix, hstep]

/-- The end of the text, behind one character: it is read again. -/
theorem loop_prefix_one (hsp : sp = .x ∨ sp = .i) (hlt : c.size < 2 ^ 32) {a : UInt8} {rest : List UInt8}
    (htext : c.text m = a :: rest) (heos : (c.advance 1).Eos m) :
    ScanningInt.loop sp.modifiers m ⟨.basePrefix, c.advance 1, sp.modifiers.scanBase, sign, 0, [tolower a]⟩ =
      ScanningInt.loop sp.modifiers m ⟨.int, c, sp.base none, sign, 0, []⟩ := by
  have hback := Cursor.advance_back (c := c) (by rw [(Cursor.text_cons htext).2.1]; omega) hlt
  have hstep : (ScanningInt.mk .basePrefix (c.advance 1) sp.modifiers.scanBase sign 0 [tolower a]).step sp.modifiers m =
      ⟨.int, c, sp.base none, sign, 0, []⟩ := by
    unfold ScanningInt.step
    dsimp only
    rw [if_pos heos, ← base_none hsp]
    exact congrArg (fun c => ScanningInt.mk .int c (sp.base none) sign 0 []) hback
  rw [loop_step _ m (σ := ⟨.basePrefix, c.advance 1, sp.modifiers.scanBase, sign, 0, [tolower a]⟩) rank_basePrefix, hstep]

/-- Two characters: they make the prefix or are read again. -/
theorem step_prefix_two (a : UInt8) {b : UInt8} {rest : List UInt8} (htext : c.text m = b :: rest) (hb : b ≠ 0) :
    (ScanningInt.mk .basePrefix c sp.modifiers.scanBase sign 0 [tolower a]).step sp.modifiers m =
      let prefixBase := if a = 48 ∧ tolower b = 120 then 16 else if a = 48 ∧ tolower b = 98 then 2 else 0
      let base := sp.modifiers.scanBase
      ⟨.int, c.advance (if prefixBase = 0 ∨ (base ≠ 0 ∧ prefixBase ≠ base) then -1 else 1),
        if base = 0 then if prefixBase ≠ 0 then prefixBase else 10 else base, sign, 0, []⟩ := by
  have hbuf (d : UInt8) : [tolower a] ++ [tolower b] = [48, d] ↔ a = 48 ∧ tolower b = d := by
    rw [← tolower_eq_iff (c := a) (d := 48) (by decide)]
    simp
  unfold ScanningInt.step
  dsimp only
  rw [if_neg (Cursor.not_eos htext hb), (Cursor.text_cons htext).1,
    if_pos (show ([tolower a] ++ [tolower b]).length = 2 from rfl), if_congr (hbuf 120) rfl rfl, if_congr (hbuf 98) rfl rfl]
  rfl

/-- No prefix is made of other characters. -/
theorem prefix_none {a b : UInt8} (hx : ¬ (a = 48 ∧ tolower b = 120)) (hb : ¬ (a = 48 ∧ tolower b = 98)) :
    (if a = 48 then (sp.prefixes.find? (·.1 = tolower b)).map fun p => (b, p.2) else none) = none := by
  by_cases ha : a = 48
  · have hnx : 120 ≠ tolower b := fun h => hx ⟨ha, h.symm⟩
    have hnb : 98 ≠ tolower b := fun h => hb ⟨ha, h.symm⟩
    rw [if_pos ha]
    cases sp <;> simp [Specifier.prefixes, hnx, hnb]
  · exact if_neg ha

end Prefix

/-- `PREFIX` -/
theorem loop_prefix {sp : Specifier} (hsp : sp = .x ∨ sp = .i) (m : Nat → UInt8) (c : Cursor) (hlt : c.size < 2 ^ 32)
    (sign : Int) :
    ScanningInt.loop sp.modifiers m ⟨.basePrefix, c, sp.modifiers.scanBase, sign, 0, []⟩ =
      ScanningInt.loop sp.modifiers m
        ⟨.int, ⟨c.s + (prefixText (prefixOf sp (c.text m))).length, c.size - (prefixText (prefixOf sp (c.text m))).length⟩,
          sp.base (prefixOf sp (c.text m)), sign, 0, []⟩ := by
  match htext : c.text m with
  | [] => exact loop_prefix_nothing hsp hlt (Cursor.eos_of_text_nil htext)
  | [a] =>
      by_cases ha : a = 0
      · exact loop_prefix_nothing hsp hlt (Cursor.eos_of_text_zero (ha ▸ htext))
      · obtain ⟨-, hsize, hrest⟩ := Cursor.text_cons htext
        rw [← Cursor.advance_succ hsize (by omega)] at hrest
        exact (loop_prefix_first htext ha).trans (loop_prefix_one hsp hlt htext (Cursor.eos_of_text_nil hrest))
  | a :: b :: rest =>
      obtain ⟨-, hsize, hrest⟩ := Cursor.text_cons htext
      have hadvance := Cursor.advance_succ hsize (by omega)
      rw [← hadvance] at hrest
      obtain ⟨-, hsize', -⟩ := Cursor.text_cons hrest
      rw [prefixOf_cons]
      by_cases ha : a = 0
      · rw [if_neg (by rw [ha]; decide)]
        exact loop_prefix_nothing hsp hlt (Cursor.eos_of_text_zero (ha ▸ htext))
      rw [loop_prefix_first htext ha]
      by_cases hb : b = 0
      · have hno (d : UInt8) (hd : tolower 0 ≠ d) : ¬(a = 48 ∧ tolower b = d) := fun h => hd (hb ▸ h.2)
        rw [prefix_none (hno 120 (by decide)) (hno 98 (by decide))]
        exact loop_prefix_one hsp hlt htext (Cursor.eos_of_text_zero (hb ▸ hrest))
      have hback := Cursor.advance_back (c := c) (by omega) hlt
      have hon : (c.advance 1).advance 1 = ⟨c.s + 2, c.size - 2⟩ := by
        rw [List.length_cons] at hsize
        rw [Cursor.advance_succ hsize' (by omega), hadvance, hsize]
        rfl
      rw [loop_step _ m (σ := ⟨.basePrefix, c.advance 1, sp.modifiers.scanBase, sign, 0, [tolower a]⟩) rank_basePrefix,
        step_prefix_two a hrest hb]
      dsimp only
      by_cases hx : a = 48 ∧ tolower b = 120
      · rw [if_pos hx, if_pos hx.1, hx.2]
        rcases hsp with rfl | rfl <;> exact congrArg (fun c => ScanningInt.loop _ m ⟨.int, c, 16, sign, 0, []⟩) hon
      by_cases hb : a = 48 ∧ tolower b = 98
      · rw [if_neg hx, if_pos hb, if_pos hb.1, hb.2]
        rcases hsp with rfl | rfl
        · exact congrArg (fun c => ScanningInt.loop _ m ⟨.int, c, 16, sign, 0, []⟩) hback
        · exact congrArg (fun c => ScanningInt.loop _ m ⟨.int, c, 2, sign, 0, []⟩) hon
      rw [if_neg hx, if_neg hb, prefix_none hx hb]
      rcases hsp with rfl | rfl <;> exact congrArg (fun c => ScanningInt.loop _ m ⟨.int, c, _, sign, 0, []⟩) hback

/-! ## All stages -/

/-- `sign` -/
def signNumber : Option Bool → Int
  | some true => -1
  | some false => 1
  | none => 0

theorem baseOf_le (sp : Specifier) (text : List UInt8) : baseOf sp text ≤ 16 := by
  unfold baseOf Specifier.base
  cases hpfx : prefixOf sp (unsigned text) with
  | none => cases sp <;> decide
  | some p =>
      have hmem := prefixOf_mem hpfx
      have hall : ∀ q ∈ sp.prefixes, q.2 ≤ 16 := by cases sp <;> decide
      exact hall (tolower p.1, p.2) hmem

/-- Behind the sign, with a prefix or without. -/
theorem loop_unsigned (sp : Specifier) (m : Nat → UInt8) (c : Cursor) (hlt : c.size < 2 ^ 32) (sign : Int) :
    ScanningInt.loop sp.modifiers m
        ⟨if sp.modifiers.hex ∨ sp.modifiers.baseFromPrefix then .basePrefix else .int, c, sp.modifiers.scanBase, sign, 0, []⟩ =
      ScanningInt.loop sp.modifiers m
        ⟨.int, ⟨c.s + (prefixText (prefixOf sp (c.text m))).length, c.size - (prefixText (prefixOf sp (c.text m))).length⟩,
          sp.base (prefixOf sp (c.text m)), sign, 0, []⟩ := by
  have hnone (hsp : sp.prefixes = []) : prefixOf sp (c.text m) = none := by
    cases hpfx : prefixOf sp (c.text m) with
    | none => rfl
    | some p => exact absurd (prefixOf_mem hpfx) (by rw [hsp]; exact List.not_mem_nil)
  cases sp with
  | x => exact loop_prefix (.inl rfl) m c hlt sign
  | i => exact loop_prefix (.inr rfl) m c hlt sign
  | d | u | o =>
      rw [hnone rfl]
      rfl

/-- `SIGN` -/
theorem loop_sign (sp : Specifier) (m : Nat → UInt8) (c : Cursor) (hlt : c.size < 2 ^ 32) :
    ScanningInt.loop sp.modifiers m ⟨.sign, c, sp.modifiers.scanBase, 0, 0, []⟩ =
      if c.Eos m then ⟨.failed, c, sp.modifiers.scanBase, 0, 0, []⟩
      else
        ScanningInt.loop sp.modifiers m
          ⟨if sp.modifiers.hex ∨ sp.modifiers.baseFromPrefix then .basePrefix else .int,
            ⟨c.s + (signText (signOf (c.text m))).length, c.size - (signText (signOf (c.text m))).length⟩,
            sp.modifiers.scanBase, signNumber (signOf (c.text m)), 0, []⟩ := by
  have hrank : IntStage.sign.rank ≠ 0 := by decide
  rw [loop_step _ m (σ := ⟨.sign, c, sp.modifiers.scanBase, 0, 0, []⟩) hrank]
  by_cases heos : c.Eos m
  · have hstep : (ScanningInt.mk .sign c sp.modifiers.scanBase 0 0 []).step sp.modifiers m =
        ⟨.failed, c, sp.modifiers.scanBase, 0, 0, []⟩ := by
      unfold ScanningInt.step
      dsimp only
      rw [if_pos heos]
    rw [if_pos heos, hstep, loop_ended _ m rfl]
  · rw [if_neg heos]
    congr 1
    have hne : c.text m ≠ [] := fun h => heos (Cursor.eos_of_text_nil h)
    obtain ⟨a, rest, htext⟩ := List.exists_cons_of_ne_nil hne
    obtain ⟨hcell, hsize, -⟩ := Cursor.text_cons htext
    have hadvance := Cursor.advance_succ hsize (by omega)
    unfold ScanningInt.step
    dsimp only
    have hplus : tolower a = 43 ↔ a = 43 := tolower_eq_iff (by decide)
    have hminus : tolower a = 45 ↔ a = 45 := tolower_eq_iff (by decide)
    rw [if_neg heos, hcell, htext, signOf_cons, if_congr (or_congr hplus hminus) rfl rfl, if_congr hplus rfl rfl, hadvance,
      hsize]
    by_cases ha : a = 43
    · rw [if_pos (.inl ha), if_pos ha, if_pos ha]
      rfl
    by_cases ha' : a = 45
    · rw [if_pos (.inr ha'), if_neg ha, if_neg ha, if_pos ha']
      rfl
    · rw [if_neg (not_or.2 ⟨ha, ha'⟩), if_neg ha, if_neg ha']
      obtain ⟨s, size⟩ := c
      exact congrArg (fun size => ScanningInt.mk _ ⟨s, size⟩ sp.modifiers.scanBase 0 0 []) hsize

/-- The bytes of a text that count as its digits. -/
def countedOf (sp : Specifier) (text : List UInt8) : List UInt8 := counted (baseOf sp text) (figures sp text)

theorem countedOf_of_eos (sp : Specifier) {m : Nat → UInt8} {c : Cursor} (heos : c.Eos m) : countedOf sp (c.text m) = [] := by
  match htext : c.text m with
  | [] => rfl
  | a :: rest =>
      obtain rfl : a = 0 := by
        by_contra ha
        exact Cursor.not_eos htext ha heos
      have hnone : prefixOf sp (0 :: rest) = none := by
        cases rest <;> rfl
      unfold countedOf figures unprefixed
      show counted (baseOf sp (0 :: rest)) (List.drop (prefixText (prefixOf sp (0 :: rest))).length (0 :: rest)) = []
      rw [hnone]
      exact List.takeWhile_cons_of_neg (by simpa using digitVal_zero (baseOf_le sp (0 :: rest)))

/-- The state machine, over any text. -/
theorem loop_text (sp : Specifier) (m : Nat → UInt8) (c : Cursor) (hlt : c.size < 2 ^ 32) :
    (countedOf sp (c.text m) = [] →
      (ScanningInt.loop sp.modifiers m ⟨.sign, c, sp.modifiers.scanBase, 0, 0, []⟩).stage = .failed) ∧
    (countedOf sp (c.text m) ≠ [] →
      ∃ size, ScanningInt.loop sp.modifiers m ⟨.sign, c, sp.modifiers.scanBase, 0, 0, []⟩ =
        ⟨.finished, ⟨c.s + (headLength sp (c.text m) + (countedOf sp (c.text m)).length), size⟩, baseOf sp (c.text m),
          signNumber (signOf (c.text m)), (countedOf sp (c.text m)).length, (countedOf sp (c.text m)).foldl keep []⟩) := by
  rw [loop_sign sp m c hlt]
  by_cases heos : c.Eos m
  · rw [if_pos heos]
    exact ⟨fun _ => rfl, fun hne => absurd (countedOf_of_eos sp heos) hne⟩
  have hsign := congrArg List.length (signText_append (c.text m))
  have hpfx := congrArg List.length (prefixText_append sp (unsigned (c.text m)))
  rw [List.length_append, Cursor.length_text] at hsign
  rw [List.length_append] at hpfx
  -- the texts behind the sign, and behind the prefix
  have hunsigned : Cursor.text m ⟨c.s + (signText (signOf (c.text m))).length, c.size - (signText (signOf (c.text m))).length⟩ =
      unsigned (c.text m) := Cursor.text_drop m c.s (by omega)
  have hfigures : Cursor.text m
      ⟨c.s + (signText (signOf (c.text m))).length + (prefixText (prefixOf sp (unsigned (c.text m)))).length,
        c.size - (signText (signOf (c.text m))).length - (prefixText (prefixOf sp (unsigned (c.text m)))).length⟩ =
      figures sp (c.text m) := by
    rw [Cursor.text_drop m _ (by omega), hunsigned]
    rfl
  have hloop := loop_digits sp.modifiers m (σ := ⟨.int, _, baseOf sp (c.text m), signNumber (signOf (c.text m)), 0, []⟩) rfl
    hfigures (by dsimp only; omega) (baseOf_le sp _)
  rw [if_neg heos, loop_unsigned sp m _ (by dsimp only; omega), hunsigned]
  dsimp only at hloop ⊢
  rw [show sp.base (prefixOf sp (unsigned (c.text m))) = baseOf sp (c.text m) from rfl, hloop, Nat.zero_add,
    show counted (baseOf sp (c.text m)) (figures sp (c.text m)) = countedOf sp (c.text m) from rfl]
  refine ⟨fun hnil => ?_, fun hne => ?_⟩
  · rw [hnil]
    rfl
  · rw [if_pos (List.length_pos_iff.2 hne).ne', headLength, Nat.add_assoc, Nat.add_assoc, Nat.add_assoc]
    exact ⟨_, rfl⟩

/-! ## What is stored -/

/-- The digits that are kept. -/
def kept (ds : List Nat) : List Nat := (ds.dropWhile (· = 0)).take 30

theorem foldl_keep_cons (cs : List UInt8) (hcs : ∀ c ∈ cs, digitVal c < 256) {buf : List UInt8} (hne : buf ≠ [])
    (hlen : buf.length ≤ 30) :
    (cs.foldl keep buf).map UInt8.toNat = (buf.map UInt8.toNat ++ cs.map digitVal).take 30 := by
  induction cs generalizing buf with
  | nil => rw [List.map_nil, List.append_nil, List.foldl_nil, List.take_of_length_le (by rwa [List.length_map])]
  | cons c cs ih =>
      have hc : (UInt8.ofNat (digitVal c)).toNat = digitVal c := by
        rw [UInt8.toNat_ofNat']
        exact Nat.mod_eq_of_lt (hcs c List.mem_cons_self)
      have hcs' : ∀ c ∈ cs, digitVal c < 256 := fun x hx => hcs x (List.mem_cons_of_mem c hx)
      rw [List.foldl_cons]
      by_cases hroom : buf.length < 30
      · have hkeep : keep buf c = buf ++ [UInt8.ofNat (digitVal c)] := if_pos ⟨.inr hne, hroom⟩
        rw [hkeep, ih hcs' (List.append_ne_nil_of_left_ne_nil hne _) (by rw [List.length_append]; exact hroom), List.map_append,
          List.map_singleton, hc, List.append_assoc]
        rfl
      · have hkeep : keep buf c = buf := if_neg fun h => hroom h.2
        have hfull : (buf.map UInt8.toNat).length = 30 := by
          rw [List.length_map]
          omega
        rw [hkeep, ih hcs' hne hlen, ← hfull, List.take_left' rfl, List.take_left' rfl]

theorem foldl_keep (cs : List UInt8) (hcs : ∀ c ∈ cs, digitVal c < 256) :
    (cs.foldl keep []).map UInt8.toNat = kept (cs.map digitVal) := by
  induction cs with
  | nil => rfl
  | cons c cs ih =>
      have hcs' : ∀ c ∈ cs, digitVal c < 256 := fun x hx => hcs x (List.mem_cons_of_mem c hx)
      rw [List.foldl_cons]
      by_cases hzero : digitVal c = 0
      · have hkeep : keep [] c = [] := if_neg fun h => h.1.elim (fun hne => hne hzero) fun hne => hne rfl
        rw [hkeep, ih hcs', kept, kept, List.map_cons, List.dropWhile_cons_of_pos (by simpa using hzero)]
      · have hkeep : keep [] c = [UInt8.ofNat (digitVal c)] := if_pos ⟨.inl hzero, show 0 < 30 by decide⟩
        have hc : (UInt8.ofNat (digitVal c)).toNat = digitVal c := by
          rw [UInt8.toNat_ofNat']
          exact Nat.mod_eq_of_lt (hcs c List.mem_cons_self)
        have hone : [UInt8.ofNat (digitVal c)].length ≤ 30 := show 1 ≤ 30 by decide
        rw [hkeep, foldl_keep_cons cs hcs' (List.cons_ne_nil _ _) hone, kept, List.map_singleton, hc, List.map_cons,
          List.dropWhile_cons_of_neg (by simpa using hzero)]
        rfl

/-- `ull` -/
theorem foldl_ull (base : Nat) (buf : List UInt8) :
    buf.foldl (fun ull c => ull * BitVec.ofNat 64 base + BitVec.ofNat 64 c.toNat) 0 =
      BitVec.ofNat 64 (Numeral.value base (buf.map UInt8.toNat)) := by
  induction buf using List.reverseRecOn with
  | nil => rfl
  | append_singleton buf c ih =>
      rw [List.foldl_append, ih, List.map_append, List.map_singleton, Numeral.value_append_singleton, BitVec.ofNat_add,
        BitVec.ofNat_mul]
      rfl

/-- The value of the digits that are kept, with a sign. -/
def keptValue (sp : Specifier) (text : List UInt8) : BitVec 64 :=
  let ull := BitVec.ofNat 64 (Numeral.value (baseOf sp text) (kept ((countedOf sp text).map digitVal)))
  if signOf text = some true then -ull else ull

/-- The member of the union that a length stores to. -/
def Length.store (length : Length) (value : BitVec 64) : Stored :=
  match length with
  | .longLong => .int 64 value
  | .long => .int 32 (value.setWidth 32)
  | .short => .int 16 (value.setWidth 16)
  | .char => .int 32 (value.setWidth 32)
  | _ => .int 32 (value.setWidth 32)

theorem skipSpaces_le (m : Nat → UInt8) (s size : Nat) : s ≤ (skipSpaces m s size).s ∧ (skipSpaces m s size).size ≤ size := by
  induction size generalizing s with
  | zero => exact ⟨Nat.le_refl s, Nat.le_refl 0⟩
  | succ size ih =>
      rw [skipSpaces]
      split
      · obtain ⟨hs, hsize⟩ := ih (s + 1)
        exact ⟨by omega, by omega⟩
      · exact ⟨Nat.le_refl s, Nat.le_refl _⟩

/-- Where the text begins. -/
def Fs.start (fs : Fs) (m : Nat → UInt8) (str size : Nat) : Cursor := fs.limit (skipSpaces m str size)

theorem Fs.start_le (fs : Fs) (m : Nat → UInt8) (str size : Nat) : str ≤ (fs.start m str size).s ∧ (fs.start m str size).size ≤ size := by
  obtain ⟨hs, hsize⟩ := skipSpaces_le m str size
  unfold Fs.start Fs.limit
  split
  · exact ⟨hs, Nat.le_trans (Nat.min_le_right _ _) hsize⟩
  · exact ⟨hs, hsize⟩

/-- What `scan_int` consumes and stores. -/
theorem scanInt_eq {sp : Specifier} {fs : Fs} (hfs : fs.modifiers = sp.modifiers) (m : Nat → UInt8) (str : Nat) {size : Nat}
    (hlt : size < 2 ^ 32) (val : Bool) :
    let c := fs.start m str size
    fs.scanInt m str size val =
      if countedOf sp (c.text m) = [] then (none, .nothing)
      else
        (some (c.s - str + (headLength sp (c.text m) + (countedOf sp (c.text m)).length)),
          if val then fs.length.store (keptValue sp (c.text m)) else .nothing) := by
  intro c
  have hstart := fs.start_le m str size
  obtain ⟨hfail, hend⟩ := loop_text sp m c (Nat.lt_of_le_of_lt hstart.2 hlt)
  unfold Fs.scanInt
  rw [hfs]
  dsimp only
  rw [show fs.limit (skipSpaces m str size) = c from rfl]
  by_cases hnil : countedOf sp (c.text m) = []
  · rw [if_pos hnil, hfail hnil]
  · obtain ⟨size', hloop⟩ := hend hnil
    have hbytes : ∀ x ∈ countedOf sp (c.text m), digitVal x < 256 := fun x hx => by
      have hlt := digitVal_lt_of_mem hx
      have hbase := baseOf_le sp (c.text m)
      omega
    have hvalue (n : Nat) (cursor : Cursor) : ScanningInt.value ⟨.finished, cursor, baseOf sp (c.text m),
        signNumber (signOf (c.text m)), n, (countedOf sp (c.text m)).foldl keep []⟩ = keptValue sp (c.text m) := by
      unfold ScanningInt.value keptValue
      dsimp only
      rw [foldl_ull, foldl_keep _ hbytes]
      refine if_congr ?_ rfl rfl
      match signOf (c.text m) with
      | some true => exact iff_of_true rfl rfl
      | some false => exact iff_of_false (by decide) (by decide)
      | none => exact iff_of_false (by decide) (by decide)
    have hs : str ≤ c.s := hstart.1
    rw [if_neg hnil, hloop]
    dsimp only
    rw [hvalue, Nat.sub_add_comm hs]
    cases val <;> rfl

end YieldStm32.Stdio
