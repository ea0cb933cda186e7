import Mathlib.Data.List.DropRight
import YieldStm32.Util.CString
import YieldStm32.Util.ScanBounds
import YieldStm32.Util.ScanInt

/-!
# Strings that are scanned

`Stdio.scanStr` and `Stdio.scanInt` are on lists what the scanners of `vsnscanf` are on a memory that holds a string.

* `scanStr_string`, `scanInt_string` : `scan_str` and `scan_int` on a string;
* `scanLoop_word`, `scanLoop_number`, `scanLoop_space` : the loop of `vsnscanf`, over what formats are made of;
* `vsnscanf_words`, `vsnscanf_numbered`, `vsnscanf_int` : the formats that lines are scanned with.
-/

namespace YieldStm32.Stdio

variable {m : Nat → UInt8} {s : List UInt8}

/-! ## Spaces -/

theorem skipSpaces_string {str size : Nat} (hs : StringAt m str s) (hsize : s.length ≤ size) :
    ∃ k, (skipSpaces m str size) = ⟨str + k, size - k⟩ ∧ s.drop k = s.dropWhile isspace ∧ k ≤ s.length := by
  induction s generalizing str size with
  | nil =>
      refine ⟨0, ?_, rfl, Nat.le_refl 0⟩
      cases size with
      | zero => rfl
      | succ size => exact if_neg fun h => h.1 hs.terminator
  | cons c s ih =>
      obtain ⟨hc, hne, htail⟩ := hs.cons
      obtain ⟨size, rfl⟩ := Nat.exists_eq_succ_of_ne_zero (Nat.ne_zero_of_lt hsize)
      rw [skipSpaces, hc]
      by_cases hspace : isspace c
      · obtain ⟨k, hk, hdrop, hle⟩ := ih htail (Nat.le_of_succ_le_succ hsize)
        refine ⟨k + 1, ?_, ?_, Nat.succ_le_succ hle⟩
        · rw [if_pos ⟨hne, hspace⟩, hk, Nat.add_right_comm, Nat.add_assoc, Nat.succ_sub_succ]
        · rw [List.drop_succ_cons, hdrop, List.dropWhile_cons_of_pos (by simpa using hspace)]
      · refine ⟨0, if_neg fun h => hspace h.2, ?_, Nat.zero_le _⟩
        rw [List.drop_zero, List.dropWhile_cons_of_neg (by simpa using hspace)]

/-! ## Words -/

/-- What stores a character. -/
def ScanningStr.stored (σ : ScanningStr) (c : UInt8) : ScanningStr where
  s := σ.s + 1
  len := σ.len + 1
  maxLen := σ.maxLen - 1
  inQuotes := σ.inQuotes
  escBackslash := false
  d := if σ.maxLen = 0 then σ.d else σ.d ++ [c]

/-- A pass, on a character. -/
theorem step_char (next : UInt8) {σ : ScanningStr} {c : UInt8} (hc : m σ.s = c) (hne : c ≠ 0) : σ.step next m =
    if σ.escBackslash then if c = next ∧ ¬ σ.inQuotes then (σ, true) else (σ.stored c, false)
    else if c = 92 then ({ σ with s := σ.s + 1, len := σ.len + 1, escBackslash := true }, false)
    else if c = 34 then
      if σ.inQuotes then ({ σ with s := σ.s + 1, inQuotes := false }, true)
      else if σ.len = 0 then ({ σ with s := σ.s + 1, len := σ.len + 1, inQuotes := true }, false)
      else if c = next then (σ, true)
      else (σ.stored c, false)
    else if isspace c ∨ c = next then if ¬ σ.inQuotes then (σ, true) else (σ.stored c, false)
    else (σ.stored c, false) := by
  have hstore : (if σ.maxLen ≠ 0 then
      { σ with s := σ.s + 1, len := σ.len + 1, d := σ.d ++ [c], maxLen := σ.maxLen - 1, escBackslash := false }
      else { σ with s := σ.s + 1, len := σ.len + 1, escBackslash := false }) = σ.stored c := by
    unfold ScanningStr.stored
    by_cases hroom : σ.maxLen = 0
    · rw [if_neg (not_not_intro hroom), if_pos hroom, hroom]
    · rw [if_pos hroom, if_neg hroom]
  rw [ScanningStr.step, hc, if_neg hne]
  dsimp only
  rw [hstore]

/-- The loop of `scan_str` over a string. -/
theorem loop_string (next : UInt8) {σ : ScanningStr} {passes : Nat} (hs : StringAt m σ.s s) (hp : s.length < passes) :
    ∃ σ' rest, ScanningStr.loop next m σ passes = some σ' ∧
      scanStrLoop next s σ.len σ.inQuotes σ.escBackslash σ.maxLen σ.d = (σ'.d, rest) ∧
        σ'.s + rest.length = σ.s + s.length := by
  induction s generalizing σ passes with
  | nil =>
      obtain ⟨passes, rfl⟩ := Nat.exists_eq_succ_of_ne_zero (Nat.ne_zero_of_lt hp)
      have hzero : m σ.s = 0 := hs.terminator
      have hstep : σ.step next m = (σ, true) := by
        rw [ScanningStr.step, if_pos hzero]
      refine ⟨σ, [], ?_, rfl, rfl⟩
      rw [ScanningStr.loop, hstep, if_pos rfl]
  | cons c s ih =>
      obtain ⟨passes, rfl⟩ := Nat.exists_eq_succ_of_ne_zero (Nat.ne_zero_of_lt hp)
      obtain ⟨hc, hne, htail⟩ := hs.cons
      have hstep := step_char next hc hne
      rw [ScanningStr.loop]
      -- a pass ends the loop on the character or behind it, or goes on to the next one
      have hstay (h : σ.step next m = (σ, true)) : ∃ σ' rest,
          (if (σ.step next m).2 then some (σ.step next m).1 else (σ.step next m).1.loop next m passes) = some σ' ∧
            (σ.d, c :: s) = (σ'.d, rest) ∧ σ'.s + rest.length = σ.s + (c :: s).length :=
        ⟨σ, c :: s, by rw [h, if_pos rfl], rfl, rfl⟩
      have hgo (σ1 : ScanningStr) (h : σ.step next m = (σ1, false)) (hs1 : σ1.s = σ.s + 1) : ∃ σ' rest,
          (if (σ.step next m).2 then some (σ.step next m).1 else (σ.step next m).1.loop next m passes) = some σ' ∧
            scanStrLoop next s σ1.len σ1.inQuotes σ1.escBackslash σ1.maxLen σ1.d = (σ'.d, rest) ∧
              σ'.s + rest.length = σ.s + (c :: s).length := by
        obtain ⟨σ', rest, hloop, heq, hlen⟩ := ih (hs1 ▸ htail) (Nat.lt_of_succ_lt_succ hp)
        refine ⟨σ', rest, ?_, heq, ?_⟩
        · rw [h, if_neg Bool.false_ne_true]
          exact hloop
        · rw [hlen, hs1, List.length_cons, Nat.add_assoc, Nat.add_comm 1]
      rw [scanStrLoop]
      by_cases hesc : σ.escBackslash = true
      · rw [if_pos hesc] at hstep ⊢
        by_cases hstop : c = next ∧ ¬ σ.inQuotes
        · rw [if_pos hstop] at hstep ⊢
          exact hstay hstep
        · rw [if_neg hstop] at hstep ⊢
          exact hgo _ hstep rfl
      rw [if_neg hesc] at hstep ⊢
      by_cases hback : c = 92
      · rw [if_pos hback] at hstep ⊢
        exact hgo _ hstep rfl
      rw [if_neg hback] at hstep ⊢
      by_cases hquote : c = 34
      · rw [if_pos hquote] at hstep ⊢
        by_cases hin : σ.inQuotes = true
        · rw [if_pos hin] at hstep ⊢
          refine ⟨{ σ with s := σ.s + 1, inQuotes := false }, s, by rw [hstep, if_pos rfl], rfl, ?_⟩
          rw [List.length_cons, Nat.add_assoc, Nat.add_comm 1]
        rw [if_neg hin] at hstep ⊢
        by_cases hlen : σ.len = 0
        · rw [if_pos hlen] at hstep ⊢
          have hesc' : σ.escBackslash = false := by simpa using hesc
          obtain ⟨σ', rest, hrun, heq, hrest⟩ := hgo _ hstep rfl
          exact ⟨σ', rest, hrun, hesc' ▸ heq, hrest⟩
        rw [if_neg hlen] at hstep ⊢
        by_cases hnext : c = next
        · rw [if_pos hnext] at hstep ⊢
          exact hstay hstep
        · rw [if_neg hnext] at hstep ⊢
          exact hgo _ hstep rfl
      rw [if_neg hquote] at hstep ⊢
      by_cases hend : isspace c ∨ c = next
      · rw [if_pos hend] at hstep ⊢
        by_cases hout : ¬ σ.inQuotes = true
        · rw [if_pos hout] at hstep ⊢
          exact hstay hstep
        · rw [if_neg hout] at hstep ⊢
          exact hgo _ hstep rfl
      · rw [if_neg hend] at hstep ⊢
        exact hgo _ hstep rfl

/-- What is left is at the end of what there was. -/
theorem scanStrLoop_suffix (next : UInt8) (s : List UInt8) : ∀ (len : Nat) (inQuotes esc : Bool) (room : Nat)
    (out : List UInt8), (scanStrLoop next s len inQuotes esc room out).2 <:+ s := by
  induction s with
  | nil => exact fun _ _ _ _ _ => List.suffix_refl []
  | cons c s ih =>
      intro len inQuotes esc room out
      have hstay : c :: s <:+ c :: s := List.suffix_refl _
      have hnext : s <:+ c :: s := List.suffix_cons c s
      have hon (len : Nat) (inQuotes esc : Bool) (room : Nat) (out : List UInt8) :
          (scanStrLoop next s len inQuotes esc room out).2 <:+ c :: s := (ih len inQuotes esc room out).trans hnext
      rw [scanStrLoop]
      repeat' split
      all_goals first
        | exact hstay
        | exact hnext
        | exact hon ..

/-- More room than there are characters is not used. -/
theorem scanStrLoop_room (next : UInt8) (s : List UInt8) (len : Nat) (inQuotes esc : Bool) (room : Nat) (out : List UInt8) :
    scanStrLoop next s len inQuotes esc (min room s.length) out = scanStrLoop next s len inQuotes esc room out := by
  induction s generalizing len inQuotes esc room out with
  | nil => rfl
  | cons c s ih =>
      have hsame (len : Nat) (inQuotes esc : Bool) (out : List UInt8) :
          scanStrLoop next s len inQuotes esc (min room (c :: s).length) out = scanStrLoop next s len inQuotes esc room out := by
        rw [← ih, ← ih _ _ _ room, List.length_cons, Nat.min_assoc, Nat.min_eq_right (Nat.le_succ s.length)]
      have hstore (len : Nat) (inQuotes : Bool) (out out' : List UInt8) :
          scanStrLoop next s len inQuotes false (min room (c :: s).length - 1)
            (if min room (c :: s).length = 0 then out else out') =
          scanStrLoop next s len inQuotes false (room - 1) (if room = 0 then out else out') := by
        have hzero : min room (c :: s).length = 0 ↔ room = 0 := by
          rw [List.length_cons]
          omega
        have hroom : min room (c :: s).length - 1 = min (room - 1) s.length := by
          rw [List.length_cons]
          omega
        rw [if_congr hzero rfl rfl, hroom, ih]
      simp only [scanStrLoop, hsame, hstore]

theorem scanStr_suffix (precision : Nat) (next : UInt8) (s : List UInt8) : (scanStr precision next s).2 <:+ s :=
  (scanStrLoop_suffix next _ 0 false false _ []).trans (List.dropWhile_suffix _)

/-- **`scan_str`** on a string: what it takes is what is not left. -/
theorem scanStr_string {fs : Fs} {precision str size passes : Nat} (hprecision : fs.precision = precision)
    (hpos : 0 < precision) (hlt : precision < 2 ^ 31) (hs : StringAt m str s) (hsize : s.length ≤ size)
    (hp : s.length < passes) (val : Bool) :
    fs.scanStr m str size val passes =
      some (some (s.length - (scanStr precision fs.nextChar s).2.length),
        if val then .bytes ((scanStr precision fs.nextChar s).1 ++ [0]) else .nothing) := by
  obtain ⟨k, hskip, hdrop, hk⟩ := skipSpaces_string hs hsize
  have habsent : fs.precision ≠ absent := by
    rw [hprecision, absent]
    omega
  have hroom : (max (toInt32 (fs.precision - 1)) 0).toNat = precision - 1 := by
    rw [hprecision, toInt32]
    omega
  have hlen : (s.drop k).length = s.length - k := List.length_drop
  obtain ⟨σ', rest, hloop, heq, hpos'⟩ :=
    @loop_string m (s.drop k) fs.nextChar ⟨str + k, 0, min (precision - 1) (size - k), false, false, []⟩ passes (hs.drop hk)
      (by omega)
  dsimp only at heq hpos'
  have hscan : scanStr precision fs.nextChar s = (σ'.d, rest) := by
    rw [scanStr, ← hdrop, ← heq, ← scanStrLoop_room _ _ _ _ _ (min (precision - 1) (size - k)), Nat.min_assoc,
      Nat.min_eq_right (show (s.drop k).length ≤ size - k by omega)]
  have hle := (scanStr_suffix precision fs.nextChar s).length_le
  rw [hscan] at hle
  have htakes : σ'.s - str = s.length - rest.length := by
    dsimp only at hle
    omega
  rw [Fs.scanStr, hskip]
  dsimp only
  rw [if_pos habsent, hroom, hloop, hscan, Option.map_some, htakes]

/-! ## Integers -/

/-- What is stored in an `int` for a text that begins with one. -/
def scannedOf (sp : Specifier) (text : List UInt8) : Option (BitVec 32) :=
  if countedOf sp text = [] then none else some ((keptValue sp text).setWidth 32)

/-- The end of a string, in a memory. -/
def EndsString (tail : List UInt8) : Prop := tail.head?.getD 0 = 0

theorem counted_append {base : Nat} (hbase : base ≤ 16) {tail : List UInt8} (htail : EndsString tail) (s : List UInt8) :
    counted base (s ++ tail) = counted base s := by
  induction s with
  | nil =>
      cases tail with
      | nil => rfl
      | cons c tail =>
          obtain rfl : c = 0 := htail
          exact List.takeWhile_cons_of_neg (by simpa using digitVal_zero hbase)
  | cons c s ih =>
      unfold counted at ih ⊢
      rw [List.cons_append]
      by_cases hc : digitVal c < base
      · rw [List.takeWhile_cons_of_pos (by simpa using hc), List.takeWhile_cons_of_pos (by simpa using hc), ih]
      · rw [List.takeWhile_cons_of_neg (by simpa using hc), List.takeWhile_cons_of_neg (by simpa using hc)]

theorem prefixOf_append (sp : Specifier) {tail : List UInt8} (htail : EndsString tail) (s : List UInt8) :
    prefixOf sp (s ++ tail) = prefixOf sp s := by
  have hzero : sp.prefixes.find? (·.1 = tolower 0) = none := by cases sp <;> decide
  match s, tail with
  | [], [] => rfl
  | [], [_] => rfl
  | [], c :: d :: rest =>
      obtain rfl : c = 0 := htail
      rfl
  | [_], [] => rfl
  | [a], c :: rest =>
      obtain rfl : c = 0 := htail
      rw [List.singleton_append, prefixOf_cons, hzero]
      exact ite_self ..
  | a :: c :: s, _ => rfl

theorem signOf_append {tail : List UInt8} (htail : EndsString tail) (s : List UInt8) : signOf (s ++ tail) = signOf s := by
  match s, tail with
  | [], [] => rfl
  | [], c :: rest =>
      obtain rfl : c = 0 := htail
      rfl
  | c :: s, _ => rfl

section

variable (sp : Specifier) {tail : List UInt8} (htail : EndsString tail) (s : List UInt8)

include htail

/-- What is behind a string does not matter: not for the sign, for the prefix or for the digits. -/
theorem unsigned_append : unsigned (s ++ tail) = unsigned s ++ tail := by
  have hle := (List.prefix_iff_eq_append.2 (signText_append s)).length_le
  rw [unsigned, signOf_append htail, List.drop_append_of_le_length hle, unsigned]

theorem prefixOf_unsigned_append : prefixOf sp (unsigned (s ++ tail)) = prefixOf sp (unsigned s) := by
  rw [unsigned_append htail, prefixOf_append sp htail]

theorem baseOf_append : baseOf sp (s ++ tail) = baseOf sp s := by
  rw [baseOf, prefixOf_unsigned_append sp htail, baseOf]

theorem countedOf_append : countedOf sp (s ++ tail) = countedOf sp s := by
  have hle := (List.prefix_iff_eq_append.2 (prefixText_append sp (unsigned s))).length_le
  have hfigures : figures sp (s ++ tail) = figures sp s ++ tail := by
    rw [figures, unprefixed, prefixOf_unsigned_append sp htail, unsigned_append htail, List.drop_append_of_le_length hle,
      figures, unprefixed]
  rw [countedOf, baseOf_append sp htail, hfigures, counted_append (baseOf_le sp s) htail, countedOf]

theorem headLength_append : headLength sp (s ++ tail) = headLength sp s := by
  rw [headLength, signOf_append htail, prefixOf_unsigned_append sp htail, headLength]

theorem keptValue_append : keptValue sp (s ++ tail) = keptValue sp s := by
  rw [keptValue, countedOf_append sp htail, baseOf_append sp htail, signOf_append htail, keptValue]

end

theorem scanDigits_eq (base : Nat) (s : List UInt8) : scanDigits base s =
    if counted base s = [] then none
    else some (BitVec.ofNat 32 (Numeral.value base (kept ((counted base s).map digitVal)))) := by
  have hdigits : (s.map digitVal).takeWhile (· < base) = (counted base s).map digitVal := by
    rw [counted, List.takeWhile_map]
    rfl
  rw [scanDigits, hdigits, if_congr List.map_eq_nil_iff rfl rfl]
  rfl

theorem scanPrefix_cons (a c : UInt8) (rest : List UInt8) : scanPrefix (a :: c :: rest) =
    if a = 48 ∧ tolower c = 120 then (16, rest) else if a = 48 ∧ tolower c = 98 then (2, rest) else (10, a :: c :: rest) := by
  have hzero : tolower a = 48 ↔ a = 48 := tolower_eq_iff (by decide)
  rw [scanPrefix, List.map_cons, List.map_cons]
  split
  · rename_i heq
    obtain ⟨ha, hc⟩ := List.cons.inj heq
    exact (if_pos ⟨hzero.1 ha, (List.cons.inj hc).1⟩).symm
  · rename_i heq
    obtain ⟨ha, hc⟩ := List.cons.inj heq
    rw [if_neg fun h => absurd (h.2.symm.trans (List.cons.inj hc).1) (by decide)]
    exact (if_pos ⟨hzero.1 ha, (List.cons.inj hc).1⟩).symm
  · rename_i hx hb
    rw [if_neg fun h => hx _ (by rw [hzero.2 h.1, h.2]), if_neg fun h => hb _ (by rw [hzero.2 h.1, h.2])]

/-- The prefixes of `%i`. -/
theorem scanPrefix_eq (s : List UInt8) : scanPrefix s = (Specifier.i.base (prefixOf .i s), unprefixed .i s) := by
  match s with
  | [] => rfl
  | [a] =>
      rw [scanPrefix, List.map_singleton]
      split
      · rename_i heq
        cases (List.cons.inj heq).2
      · rename_i heq
        cases (List.cons.inj heq).2
      · rfl
  | a :: c :: rest =>
      rw [scanPrefix_cons, unprefixed, prefixOf_cons]
      by_cases ha : a = 48
      · rw [if_pos ha]
        by_cases hx : tolower c = 120
        · rw [if_pos ⟨ha, hx⟩, hx]
          rfl
        by_cases hb : tolower c = 98
        · rw [if_neg fun h => hx h.2, if_pos ⟨ha, hb⟩, hb]
          rfl
        · have hnone : Specifier.i.prefixes.find? (·.1 = tolower c) = none := by
            simp [Specifier.prefixes, Ne.symm hx, Ne.symm hb]
          rw [if_neg fun h => hx h.2, if_neg fun h => hb h.2, hnone]
          rfl
      · rw [if_neg fun h => ha h.1, if_neg fun h => ha h.1, if_neg ha]
        rfl

theorem scannedOf_plus {sp : Specifier} {text : List UInt8} (h : signOf text ≠ some true) :
    scannedOf sp text = scanDigits (baseOf sp text) (figures sp text) := by
  rw [scannedOf, keptValue, if_neg h, scanDigits_eq, BitVec.setWidth_ofNat_of_le (by decide)]
  rfl

theorem scannedOf_minus {sp : Specifier} {text : List UInt8} (h : signOf text = some true) :
    scannedOf sp text = (scanDigits (baseOf sp text) (figures sp text)).map (- ·) := by
  rw [scannedOf, keptValue, if_pos h, scanDigits_eq, BitVec.setWidth_neg_of_le (by decide),
    BitVec.setWidth_ofNat_of_le (by decide), apply_ite (Option.map _)]
  rfl

/-- `%i`, as it is on lists. -/
theorem scanInt_eq_scannedOf (s : List UInt8) : scanInt s = scannedOf .i (s.dropWhile isspace) := by
  rw [scanInt]
  cases s.dropWhile isspace with
  | nil => rfl
  | cons c rest =>
      have hsign := signOf_cons c rest
      have hprefix : scanPrefix (unsigned (c :: rest)) = (baseOf .i (c :: rest), figures .i (c :: rest)) := scanPrefix_eq _
      dsimp only
      by_cases hplus : c = 43
      · rw [if_pos hplus] at hsign ⊢
        have hunsigned : unsigned (c :: rest) = rest := by rw [unsigned, hsign]; rfl
        rw [hunsigned] at hprefix
        rw [scannedOf_plus (by rw [hsign]; decide), hprefix]
      rw [if_neg hplus] at hsign ⊢
      by_cases hminus : c = 45
      · rw [if_pos hminus] at hsign ⊢
        have hunsigned : unsigned (c :: rest) = rest := by rw [unsigned, hsign]; rfl
        rw [hunsigned] at hprefix
        rw [scannedOf_minus hsign, hprefix]
      · rw [if_neg hminus] at hsign ⊢
        have hunsigned : unsigned (c :: rest) = c :: rest := by rw [unsigned, hsign]; rfl
        rw [hunsigned] at hprefix
        rw [scannedOf_plus (by rw [hsign]; decide), hprefix]

/-- A string, and what is behind it. -/
theorem copyOut_string {p n : Nat} (hs : StringAt m p s) (hn : s.length ≤ n) :
    ∃ tail, Ring.copyOut m p n = s ++ tail ∧ EndsString tail := by
  induction s generalizing p n with
  | nil =>
      refine ⟨Ring.copyOut m p n, rfl, ?_⟩
      cases n with
      | zero => rfl
      | succ n =>
          rw [Nat.add_comm, Ring.copyOut_add]
          exact hs.terminator
  | cons c s ih =>
      obtain ⟨hc, -, htail⟩ := hs.cons
      obtain ⟨n, rfl⟩ := Nat.exists_eq_succ_of_ne_zero (Nat.ne_zero_of_lt hn)
      obtain ⟨tail, hout, hends⟩ := ih htail (Nat.le_of_succ_le_succ hn)
      refine ⟨tail, ?_, hends⟩
      rw [Nat.succ_eq_one_add, Ring.copyOut_add, hout, ← hc]
      rfl

/-- The characters that a number takes, with the spaces in front. -/
def consumed (sp : Specifier) (s : List UInt8) : Nat :=
  s.length - (s.dropWhile isspace).length +
    (headLength sp (s.dropWhile isspace) + (countedOf sp (s.dropWhile isspace)).length)

theorem consumed_le (sp : Specifier) (s : List UInt8) : consumed sp s ≤ s.length := by
  have hspaces : (s.dropWhile isspace).length ≤ s.length := (List.dropWhile_suffix _).length_le
  have hsign := congrArg List.length (signText_append (s.dropWhile isspace))
  have hpfx := congrArg List.length (prefixText_append sp (unsigned (s.dropWhile isspace)))
  have hcounted : (countedOf sp (s.dropWhile isspace)).length ≤ (figures sp (s.dropWhile isspace)).length :=
    (List.takeWhile_prefix _).length_le
  rw [List.length_append] at hsign hpfx
  rw [figures] at hcounted
  rw [consumed, headLength]
  omega

/-- **`scan_int`** on a string. -/
theorem scanInt_string {sp : Specifier} {fs : Fs} (hfs : fs.modifiers = sp.modifiers) (hprecision : fs.precision = absent)
    (hlength : fs.length = .none) {str size : Nat} (hs : StringAt m str s) (hsize : s.length ≤ size) (hlt : size < 2 ^ 32) :
    fs.scanInt m str size true =
      match scannedOf sp (s.dropWhile isspace) with
      | none => (none, .nothing)
      | some v => (some (consumed sp s), .int 32 v) := by
  obtain ⟨k, hskip, hdrop, hk⟩ := skipSpaces_string hs hsize
  have hspaces : s.length - (s.dropWhile isspace).length = k := by
    rw [← hdrop, List.length_drop, Nat.sub_sub_self hk]
  have hstart : fs.start m str size = ⟨str + k, size - k⟩ := by
    rw [Fs.start, Fs.limit, if_neg (not_not_intro hprecision), hskip]
  have hroom : (s.drop k).length ≤ size - k := by
    rw [List.length_drop]
    omega
  obtain ⟨tail, htext, hends⟩ := copyOut_string (hs.drop hk) hroom
  have hscan := scanInt_eq hfs m str hlt true
  dsimp only at hscan
  rw [hscan, hstart, Cursor.text, htext, hdrop, countedOf_append sp hends, headLength_append sp hends,
    keptValue_append sp hends, hlength, scannedOf, consumed, hspaces]
  dsimp only
  rw [Nat.add_sub_cancel_left]
  by_cases hnone : countedOf sp (s.dropWhile isspace) = []
  · rw [if_pos hnone, if_pos hnone]
  · rw [if_neg hnone, if_neg hnone]
    rfl

/-! ## Formats -/

/-- The loop is at a string. -/
structure Scanned.At (m : Nat → UInt8) (r : Scanned) (s : List UInt8) : Prop where
  string : StringAt m r.str s
  enough : s.length ≤ r.size
  size_lt : r.size < 2 ^ 32

/-- A match. -/
def Scanned.stores (r : Scanned) (n : Nat) (v : Stored) : Scanned where
  matched := r.matched + 1
  stored := r.stored ++ [v]
  str := r.str + n
  size := r.size - n

section

variable {r : Scanned} {n : Nat}

theorem Scanned.At.stores (hr : r.At m s) (hn : n ≤ s.length) (v : Stored) : (r.stores n v).At m (s.drop n) where
  string := hr.string.drop hn
  enough := by
    rw [List.length_drop]
    exact Nat.sub_le_sub_right hr.enough n
  size_lt := Nat.lt_of_le_of_lt (Nat.sub_le _ _) hr.size_lt

theorem Scanned.At.took (hr : r.At m s) (hn : n ≤ s.length) {fs : Fs} (hpointer : fs.hasPointer = true) (j : Nat) (v : Stored) :
    r.took fs j (some n, v) = (r.stores n v, some (j + 1)) := by
  have hleft : toSize ((r.size : Int) - n) = r.size - n := by
    have henough := hr.enough
    have hlt := hr.size_lt
    rw [toSize]
    omega
  have htype : fs.type ≠ .percent := (of_decide_eq_true hpointer).1
  rw [Scanned.took]
  dsimp only
  rw [if_pos hpointer, if_pos hpointer, if_pos htype, hleft]
  rfl

/-- A directive matches, and the loop goes on behind it. -/
theorem scanLoop_match {format tail : List UInt8} {fs : Fs} (hfs : (fsProcess format).1 = fs) (htail : (fsProcess format).2 = tail)
    {a : Args} {i : Nat} (hpointer : (fs.taken a i).hasPointer = true) (hr : r.At m s) (hn : n ≤ s.length) {v : Stored}
    {passes : Nat} (hscan : (fs.taken a i).scan m r.str r.size true passes = some (some n, v)) :
    scanLoop passes m a (37 :: format) r i =
      scanLoop passes m a tail (r.stores n v) ((if fs.precision = asParameter then i + 1 else i) + 1) := by
  have hspec : r.spec passes m a fs i = some (r.stores n v, some ((if fs.precision = asParameter then i + 1 else i) + 1)) := by
    rw [Scanned.spec_eq, hpointer, hscan, Option.map_some, hr.took hn hpointer]
  rw [scanLoop_cons, if_neg (by decide), if_neg (by decide), hfs, hspec, htail]

/-- A directive does not match, and the loop ends. -/
theorem scanLoop_miss {format : List UInt8} {fs : Fs} (hfs : (fsProcess format).1 = fs) {a : Args} {i : Nat}
    (hpointer : (fs.taken a i).hasPointer = true) {v : Stored} {passes : Nat}
    (hscan : (fs.taken a i).scan m r.str r.size true passes = some (none, v)) :
    scanLoop passes m a (37 :: format) r i = some { r with stored := r.stored ++ [v] } := by
  have hspec : r.spec passes m a fs i = some ({ r with stored := r.stored ++ [v] }, none) := by
    rw [Scanned.spec_eq, hpointer, hscan, Option.map_some, Scanned.took]
    dsimp only
    rw [if_pos hpointer]
  rw [scanLoop_cons, if_neg (by decide), if_neg (by decide), hfs, hspec]

end

/-- What `%.*s` is, before a character of the format. -/
structure IsWord (format : List UInt8) (next : UInt8) (tail : List UInt8) : Prop where
  tail_eq : (fsProcess format).2 = tail
  type : (fsProcess format).1.type = .str
  precision : (fsProcess format).1.precision = asParameter
  width : (fsProcess format).1.width ≠ asParameter
  nextChar : (fsProcess format).1.nextChar = next

theorem scan_of_str {fs : Fs} (h : fs.type = .str) (str size : Nat) (val : Bool) (passes : Nat) :
    fs.scan m str size val passes = fs.scanStr m str size val passes := by
  rw [Fs.scan, h]

/-- A word is scanned, by the precision that is among the arguments. -/
theorem scanLoop_word {format tail : List UInt8} {next : UInt8} (hformat : IsWord format next tail) {a : Args} {i precision : Nat}
    (ha : (a.int i).toInt = precision) (hpos : 0 < precision) (hlt : precision < 2 ^ 31) {r : Scanned} (hr : r.At m s)
    {passes : Nat} (hp : s.length < passes) :
    ∃ n, scanLoop passes m a (37 :: format) r i =
        scanLoop passes m a tail (r.stores n (.bytes ((scanStr precision next s).1 ++ [0]))) (i + 2) ∧
      (r.stores n (.bytes ((scanStr precision next s).1 ++ [0]))).At m (scanStr precision next s).2 ∧
        (scanStr precision next s).2.length < passes := by
  obtain ⟨fs, hfs⟩ : ∃ fs, (fsProcess format).1 = fs := ⟨_, rfl⟩
  obtain ⟨htail, htype, hprecision, hwidth, hnext⟩ := hformat
  rw [hfs] at htype hprecision hwidth hnext
  obtain ⟨taken, htaken⟩ : ∃ taken, fs.taken a i = taken := ⟨_, rfl⟩
  have hupdate : { fs with precision := (a.int i).toInt } = taken := (if_pos hprecision).symm.trans htaken
  have htype' : taken.type = .str := hupdate ▸ htype
  have hnext' : taken.nextChar = next := hupdate ▸ hnext
  have hwidth' : taken.width ≠ asParameter := hupdate ▸ hwidth
  have hprecision' : taken.precision = precision := hupdate ▸ ha
  have hpointer : taken.hasPointer = true := by
    rw [Fs.hasPointer, htype']
    exact decide_eq_true ⟨by decide, by decide, hwidth'⟩
  have hscan := scanStr_string hprecision' hpos hlt hr.string hr.enough hp true
  rw [← scan_of_str htype', if_pos rfl, hnext'] at hscan
  rw [← htaken] at hpointer hscan
  have hsuffix := scanStr_suffix precision next s
  have hstores := hr.stores (Nat.sub_le s.length (scanStr precision next s).2.length) (.bytes ((scanStr precision next s).1 ++ [0]))
  rw [← List.suffix_iff_eq_drop.1 hsuffix] at hstores
  refine ⟨s.length - (scanStr precision next s).2.length, ?_, hstores, Nat.lt_of_le_of_lt hsuffix.length_le hp⟩
  rw [scanLoop_match hfs htail hpointer hr (Nat.sub_le _ _) hscan, if_pos hprecision]

/-- What a number is, without a precision. -/
structure IsNumber (sp : Specifier) (format tail : List UInt8) : Prop where
  tail_eq : (fsProcess format).2 = tail
  type : (fsProcess format).1.type = .int
  precision : (fsProcess format).1.precision = absent
  width : (fsProcess format).1.width ≠ asParameter
  length : (fsProcess format).1.length = .none
  modifiers : (fsProcess format).1.modifiers = sp.modifiers

/-- A number is scanned, or the loop ends. -/
theorem scanLoop_number {sp : Specifier} {format tail : List UInt8} (hformat : IsNumber sp format tail) (a : Args) (i : Nat)
    {r : Scanned} (hr : r.At m s) (passes : Nat) :
    scanLoop passes m a (37 :: format) r i =
      match scannedOf sp (s.dropWhile isspace) with
      | none => some { r with stored := r.stored ++ [.nothing] }
      | some v => scanLoop passes m a tail (r.stores (consumed sp s) (.int 32 v)) (i + 1) := by
  obtain ⟨fs, hfs⟩ : ∃ fs, (fsProcess format).1 = fs := ⟨_, rfl⟩
  obtain ⟨htail, htype, hprecision, hwidth, hlength, hmodifiers⟩ := hformat
  rw [hfs] at htype hprecision hwidth hlength hmodifiers
  have hparameter : fs.precision ≠ asParameter := by
    rw [hprecision]
    decide
  have htaken : fs.taken a i = fs := if_neg hparameter
  have hpointer : (fs.taken a i).hasPointer = true := by
    rw [htaken, Fs.hasPointer, htype]
    exact decide_eq_true ⟨by decide, by decide, hwidth⟩
  have hscan : (fs.taken a i).scan m r.str r.size true passes = some (fs.scanInt m r.str r.size true) := by
    rw [htaken, Fs.scan, htype]
  rw [scanInt_string hmodifiers hprecision hlength hr.string hr.enough hr.size_lt] at hscan
  cases hnumber : scannedOf sp (s.dropWhile isspace) with
  | none =>
      rw [hnumber] at hscan
      exact scanLoop_miss hfs hpointer hscan
  | some v =>
      rw [hnumber] at hscan
      dsimp only
      rw [scanLoop_match hfs htail hpointer hr (consumed_le sp s) hscan, if_neg hparameter]

/-- The spaces are passed. -/
def Scanned.skips (r : Scanned) (k : Nat) : Scanned := { r with str := r.str + k, size := r.size - k }

/-- A space of the format stands for any number of them. -/
theorem scanLoop_space (format : List UInt8) (a : Args) (i : Nat) {r : Scanned} (hr : r.At m s) (passes : Nat) :
    ∃ k, scanLoop passes m a (32 :: format) r i = scanLoop passes m a format (r.skips k) i ∧
      (r.skips k).At m (s.dropWhile isspace) ∧ (s.dropWhile isspace).length ≤ s.length := by
  obtain ⟨hs, hsize, hsize32⟩ := hr
  obtain ⟨k, hskip, hdrop, hk⟩ := skipSpaces_string hs hsize
  have hlen : (s.dropWhile isspace).length = s.length - k := by rw [← hdrop, List.length_drop]
  refine ⟨k, ?_, ⟨hdrop ▸ hs.drop hk, ?_, ?_⟩, by omega⟩
  · rw [scanLoop_cons, if_neg (by decide), if_pos (by decide), if_pos (by decide), hskip]
    rfl
  · rw [hlen]
    exact Nat.sub_le_sub_right hsize k
  · exact Nat.lt_of_le_of_lt (Nat.sub_le _ _) hsize32

/-- **Three words**, as request lines are scanned for them. -/
theorem vsnscanf_words {a : Args} {p₁ p₂ p₃ : Nat} (hs : StringAt m 0 s) {size : BitVec 32} (hsize : s.length ≤ size.toNat)
    (h₁ : (a.int 0).toInt = p₁ ∧ 0 < p₁ ∧ p₁ < 2 ^ 31) (h₂ : (a.int 2).toInt = p₂ ∧ 0 < p₂ ∧ p₂ < 2 ^ 31)
    (h₃ : (a.int 4).toInt = p₃ ∧ 0 < p₃ ∧ p₃ < 2 ^ 31) {passes : Nat} (hp : s.length < passes) :
    let first := scanStr p₁ 32 s
    let second := scanStr p₂ 32 (first.2.dropWhile isspace)
    let third := scanStr p₃ 0 (second.2.dropWhile isspace)
    ∃ r, vsnscanf passes m size (ascii "%.*s %.*s %.*s") a = some r ∧ r.matched = 3 ∧
      r.stored = [.bytes (first.1 ++ [0]), .bytes (second.1 ++ [0]), .bytes (third.1 ++ [0])] := by
  intro first second third
  have hformat : ascii "%.*s %.*s %.*s" = 37 :: ascii ".*s %.*s %.*s" := by decide
  have hword₁ : IsWord (ascii ".*s %.*s %.*s") 32 (32 :: 37 :: ascii ".*s %.*s") := by constructor <;> decide
  have hword₂ : IsWord (ascii ".*s %.*s") 32 (32 :: 37 :: ascii ".*s") := by constructor <;> decide
  have hword₃ : IsWord (ascii ".*s") 0 [] := by constructor <;> decide
  have hat : Scanned.At m ⟨0, [], 0, size.toNat⟩ s := ⟨hs, hsize, size.isLt⟩
  obtain ⟨n₁, heq₁, hat₁, hp₁⟩ := scanLoop_word hword₁ h₁.1 h₁.2.1 h₁.2.2 hat hp
  obtain ⟨k₁, heq₂, hat₂, hle₂⟩ := scanLoop_space (37 :: ascii ".*s %.*s") a 2 hat₁ passes
  obtain ⟨n₂, heq₃, hat₃, hp₃⟩ := scanLoop_word hword₂ h₂.1 h₂.2.1 h₂.2.2 hat₂ (Nat.lt_of_le_of_lt hle₂ hp₁)
  obtain ⟨k₂, heq₄, hat₄, hle₄⟩ := scanLoop_space (37 :: ascii ".*s") a 4 hat₃ passes
  obtain ⟨n₃, heq₅, -⟩ := scanLoop_word hword₃ h₃.1 h₃.2.1 h₃.2.2 hat₄ (Nat.lt_of_le_of_lt hle₄ hp₃)
  rw [vsnscanf, hformat, heq₁, heq₂, heq₃, heq₄, heq₅, scanLoop]
  exact ⟨_, rfl, rfl, rfl⟩

/-- **A word, a number and a word**, as status lines are scanned for them. The second word is always found. -/
theorem vsnscanf_numbered {a : Args} {p₁ p₂ : Nat} (hs : StringAt m 0 s) {size : BitVec 32} (hsize : s.length ≤ size.toNat)
    (h₁ : (a.int 0).toInt = p₁ ∧ 0 < p₁ ∧ p₁ < 2 ^ 31) (h₂ : (a.int 3).toInt = p₂ ∧ 0 < p₂ ∧ p₂ < 2 ^ 31) {passes : Nat}
    (hp : s.length < passes) :
    let first := scanStr p₁ 32 s
    let number := scannedOf .d (first.2.dropWhile isspace)
    ∃ r, vsnscanf passes m size (ascii "%.*s %d %.*s") a = some r ∧ (r.matched = 3 ↔ number.isSome) ∧
      r.stored.take 2 = [.bytes (first.1 ++ [0]), (number.map (Stored.int 32)).getD .nothing] := by
  intro first number
  have hformat : ascii "%.*s %d %.*s" = 37 :: ascii ".*s %d %.*s" := by decide
  have hword₁ : IsWord (ascii ".*s %d %.*s") 32 (32 :: 37 :: ascii "d %.*s") := by constructor <;> decide
  have hnumber : IsNumber .d (ascii "d %.*s") (32 :: 37 :: ascii ".*s") := by constructor <;> decide
  have hword₂ : IsWord (ascii ".*s") 0 [] := by constructor <;> decide
  have hat : Scanned.At m ⟨0, [], 0, size.toNat⟩ s := ⟨hs, hsize, size.isLt⟩
  obtain ⟨n₁, heq₁, hat₁, hp₁⟩ := scanLoop_word hword₁ h₁.1 h₁.2.1 h₁.2.2 hat hp
  obtain ⟨k₁, heq₂, hat₂, hle₂⟩ := scanLoop_space (37 :: ascii "d %.*s") a 2 hat₁ passes
  have heq₃ := scanLoop_number hnumber a 2 hat₂ passes
  have hidem : (first.2.dropWhile isspace).dropWhile isspace = first.2.dropWhile isspace := List.dropWhile_idempotent _ _
  rw [hidem] at heq₃
  rw [vsnscanf, hformat, heq₁, heq₂, heq₃]
  cases hvalue : number with
  | none =>
      rw [show scannedOf .d (first.2.dropWhile isspace) = none from hvalue]
      exact ⟨_, rfl, iff_of_false (show 1 ≠ 3 by decide) Bool.false_ne_true, rfl⟩
  | some v =>
      have hat₃ := hat₂.stores (consumed_le .d _) (.int 32 v)
      obtain ⟨k₂, heq₄, hat₄, hle₄⟩ := scanLoop_space (37 :: ascii ".*s") a 3 hat₃ passes
      have hp₄ : (List.drop (consumed .d (first.2.dropWhile isspace)) (first.2.dropWhile isspace)).length < passes :=
        Nat.lt_of_le_of_lt ((List.drop_suffix _ _).length_le.trans hle₂) hp₁
      obtain ⟨n₂, heq₅, -⟩ := scanLoop_word hword₂ h₂.1 h₂.2.1 h₂.2.2 hat₄ (Nat.lt_of_le_of_lt hle₄ hp₄)
      rw [show scannedOf .d (first.2.dropWhile isspace) = some v from hvalue]
      dsimp only
      rw [heq₄, heq₅, scanLoop]
      exact ⟨_, rfl, iff_of_true rfl rfl, rfl⟩

/-- **A number** alone, as fields are scanned for it. -/
theorem vsnscanf_int (a : Args) (hs : StringAt m 0 s) {size : BitVec 32} (hsize : s.length ≤ size.toNat) (passes : Nat) :
    ∃ r, vsnscanf passes m size (ascii "%i") a = some r ∧ (r.matched = 1 ↔ (scanInt s).isSome) ∧
      r.stored = [((scanInt s).map (Stored.int 32)).getD .nothing] := by
  have hformat : ascii "%i" = 37 :: ascii "i" := by decide
  have hnumber : IsNumber .i (ascii "i") [] := by constructor <;> decide
  have hat : Scanned.At m ⟨0, [], 0, size.toNat⟩ s := ⟨hs, hsize, size.isLt⟩
  rw [vsnscanf, hformat, scanLoop_number hnumber a 0 hat passes, ← scanInt_eq_scannedOf]
  cases scanInt s with
  | none => exact ⟨_, rfl, iff_of_false Nat.zero_ne_one Bool.false_ne_true, rfl⟩
  | some v =>
      dsimp only
      rw [scanLoop]
      exact ⟨_, rfl, iff_of_true rfl rfl, rfl⟩

end YieldStm32.Stdio
