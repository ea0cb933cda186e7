import YieldStm32.Util.CString

/-!
# `strcistr` (`util/src/string.c`)

* `strcistrAt` : the position `strcistr` returns, with the bytes of `s1` it reads;
* `OccursAt`, `IsFirst` : where a string occurs in another;
* `Misled` : a position that has the first character, and the last one too or no room for it;
* `findsFirst_iff` : when the first occurrence is found.
-/

namespace YieldStm32.Stdio

open Traced

/-! ## The loops -/

/-- `tolower((unsigned char)a) - tolower((unsigned char)b)` -/
def charDiff (a b : UInt8) : Int := (tolower a).toNat - (tolower b).toNat

/-- The inner loop of `strcistr`, noting the bytes it reads. -/
def strcistrRestAt (m : Nat → UInt8) : List UInt8 → Nat → Int → Traced Nat Int
  | [], _, d => pure d
  | b :: s2, i, _ => do
      let a ← note i (m i)
      strcistrRestAt m s2 (i + 1) (charDiff a b)

/-- The loop of `strcistr` over the last `n` characters of `s1`. -/
def strcistrLoopAt (s2 : List UInt8) (m : Nat → UInt8) : Nat → Nat → Int → Traced Nat (Option Nat)
  | 0, i, d => do
      let _ ← note i (m i)
      pure (if d = 0 then some i else none)
  | n + 1, i, _ => do
      let c ← note i (m i)
      -- sadly characters do not match
      if charDiff c (s2.headD 0) ≠ 0 then strcistrLoopAt s2 m n (i + 1) (charDiff c (s2.headD 0))
      else do
        let d ← strcistrRestAt m s2.tail (i + 1) (charDiff c (s2.headD 0))
        if d = 0 then pure (some i) else strcistrLoopAt s2 m n (i + 1) d

/-- `strcistr`: the position in `s1` that is returned, `s1` being `n` characters and a terminator at the beginning of `m`;
`d` is not initialised. -/
def strcistrAt (m : Nat → UInt8) (n : Nat) (s2 : List UInt8) (d : Int) : Traced Nat (Option Nat) :=
  strcistrLoopAt s2 m n 0 d

theorem strcistrRestAt_val (m : Nat → UInt8) (s2 : List UInt8) (i : Nat) (d : Int) :
    (strcistrRestAt m s2 i d).val = strcistrRest m s2 i d := by
  induction s2 generalizing i d with
  | nil => rfl
  | cons b s2 ih => exact ih _ _

theorem strcistrLoopAt_isSome (s2 : List UInt8) (m : Nat → UInt8) (n i : Nat) (d : Int) :
    (strcistrLoopAt s2 m n i d).val.isSome = strcistrLoop s2 m n i d := by
  induction n generalizing i d with
  | zero =>
      simp only [strcistrLoopAt, strcistrLoop, val_bind, val_pure]
      by_cases hd : d = 0 <;> simp [hd]
  | succ n ih =>
      simp only [strcistrLoopAt, strcistrLoop, val_bind, val_ite, strcistrRestAt_val, apply_ite Option.isSome, ih]
      rfl

/-- The pointer is not null where `strcistr` says so. -/
theorem strcistrAt_isSome (m : Nat → UInt8) (n : Nat) (s2 : List UInt8) (d : Int) :
    (strcistrAt m n s2 d).val.isSome = strcistr m n s2 d := strcistrLoopAt_isSome s2 m n 0 d

/-- Where the characters are the same, there is no difference. -/
theorem strcistrRest_same {m : Nat → UInt8} {i : Nat} {s : List UInt8} (hs : StringAt m i s) : strcistrRest m s i 0 = 0 := by
  induction s generalizing i with
  | nil => rfl
  | cons c s ih =>
      obtain ⟨hc, -, hs⟩ := hs.cons
      rw [strcistrRest, hc, Int.sub_self]
      exact ih hs

/-- A string is found in itself. -/
theorem strcistr_self {m : Nat → UInt8} {s : List UInt8} (hs : StringAt m 0 s) (hne : s ≠ []) (d : Int) :
    strcistr m s.length s d = true := by
  cases s with
  | nil => exact absurd rfl hne
  | cons c s =>
      obtain ⟨hc, -, hs⟩ := hs.cons
      rw [strcistr, List.length_cons, strcistrLoop, hc, List.headD_cons, Int.sub_self]
      dsimp only
      rw [if_neg (not_not_intro rfl), List.tail_cons, strcistrRest_same hs]
      exact if_pos rfl

/-! ## Occurrences -/

/-- `s2` occurs at a position of `s1`, ignoring case. -/
def OccursAt (s1 s2 : List UInt8) (i : Nat) : Prop := startsWord s2 (s1.drop i)

instance (s1 s2 : List UInt8) (i : Nat) : Decidable (OccursAt s1 s2 i) := inferInstanceAs (Decidable (startsWord ..))

/-- The first position from `i` on at which `s2` occurs, or none. -/
def IsFirst (s1 s2 : List UInt8) (i : Nat) : Option Nat → Prop
  | some k => i ≤ k ∧ OccursAt s1 s2 k ∧ ∀ j, i ≤ j → j < k → ¬ OccursAt s1 s2 j
  | none => ∀ j, i ≤ j → ¬ OccursAt s1 s2 j

/-- The first occurrence is returned, and nothing behind the terminator is read. -/
def FindsFirst (s1 s2 : List UInt8) (r : Traced Nat (Option Nat)) : Prop :=
  IsFirst s1 s2 0 r.val ∧ Safe (· ≤ s1.length) r

/-- The first character of `s2` is there, and the last one too, or it would be behind the terminator. -/
def Misled (s1 s2 : List UInt8) (j : Nat) : Prop :=
  j < s1.length ∧ s1[j]?.map tolower = s2.head?.map tolower ∧
    (s1[j + s2.length - 1]?.map tolower = s2.getLast?.map tolower ∨ s1.length + 1 < j + s2.length)

instance (s1 s2 : List UInt8) (j : Nat) : Decidable (Misled s1 s2 j) := inferInstanceAs (Decidable (_ ∧ _))

/-- No position before the first occurrence misleads. -/
def NotMisled (s1 s2 : List UInt8) (i : Nat) : Prop :=
  ∀ j, i ≤ j → (∀ k, i ≤ k → k ≤ j → ¬ OccursAt s1 s2 k) → ¬ Misled s1 s2 j

theorem charDiff_eq_zero {a b : UInt8} : charDiff a b = 0 ↔ tolower a = tolower b := by
  rw [charDiff, Int.sub_eq_zero, Int.ofNat_inj, UInt8.toNat_inj]

theorem tolower_ne_zero {c : UInt8} (h : c ≠ 0) : tolower c ≠ 0 := by
  unfold tolower
  split
  · intro hzero
    have := congrArg UInt8.toNat hzero
    rw [UInt8.toNat_add] at this
    simp at this
    omega
  · exact h

/-- The difference that comes out is that of the last character. -/
theorem strcistrRest_last (m : Nat → UInt8) (b : UInt8) (bs : List UInt8) (i : Nat) :
    strcistrRest m bs (i + 1) (charDiff (m i) b) = charDiff (m (i + bs.length)) ((b :: bs).getLast (by simp)) := by
  induction bs generalizing b i with
  | nil => rfl
  | cons c bs ih =>
      have hlen : i + (c :: bs).length = i + 1 + bs.length := by
        rw [List.length_cons]
        omega
      rw [hlen, List.getLast_cons (by simp)]
      exact ih c (i + 1)

theorem strcistrRestAt_safe (m : Nat → UInt8) (bs : List UInt8) {i n : Nat} (d : Int) (hi : i ≤ n + 1) :
    Safe (· ≤ n) (strcistrRestAt m bs i d) ↔ i + bs.length ≤ n + 1 := by
  induction bs generalizing i d with
  | nil => simp [strcistrRestAt, hi]
  | cons b bs ih =>
      rw [strcistrRestAt, safe_bind, safe_note, List.length_cons]
      constructor
      · rintro ⟨hle, hrest⟩
        have := (ih _ (by omega)).1 hrest
        omega
      · intro hle
        exact ⟨by omega, (ih _ (by omega)).2 (by omega)⟩

section Loop

variable {m : Nat → UInt8} {s1 : List UInt8} {b : UInt8} {bs : List UInt8}

/-! ### What one pass does -/

theorem strcistrLoopAt_succ (n i : Nat) (d : Int) :
    strcistrLoopAt (b :: bs) m (n + 1) i d =
      note i (m i) >>= fun _ =>
        if charDiff (m i) b = 0 then
          strcistrRestAt m bs (i + 1) (charDiff (m i) b) >>= fun d =>
            if d = 0 then pure (some i) else strcistrLoopAt (b :: bs) m n (i + 1) d
        else strcistrLoopAt (b :: bs) m n (i + 1) (charDiff (m i) b) := by
  rw [← ite_not]
  rfl

theorem strcistrLoopAt_of_ne (P : Nat → Prop) (n : Nat) {i : Nat} (d : Int) (h : charDiff (m i) b ≠ 0) :
    (strcistrLoopAt (b :: bs) m (n + 1) i d).val = (strcistrLoopAt (b :: bs) m n (i + 1) (charDiff (m i) b)).val ∧
      (Safe P (strcistrLoopAt (b :: bs) m (n + 1) i d) ↔
        P i ∧ Safe P (strcistrLoopAt (b :: bs) m n (i + 1) (charDiff (m i) b))) := by
  rw [strcistrLoopAt_succ, val_bind, safe_bind, safe_note, if_neg h]
  exact ⟨rfl, Iff.rfl⟩

theorem strcistrLoopAt_of_eq (P : Nat → Prop) (n : Nat) {i : Nat} (d : Int) (h : charDiff (m i) b = 0) {d' : Int}
    (hd' : charDiff (m (i + bs.length)) ((b :: bs).getLast (by simp)) = d') :
    (strcistrLoopAt (b :: bs) m (n + 1) i d).val =
        (if d' = 0 then some i else (strcistrLoopAt (b :: bs) m n (i + 1) d').val) ∧
      (Safe P (strcistrLoopAt (b :: bs) m (n + 1) i d) ↔
        P i ∧ Safe P (strcistrRestAt m bs (i + 1) (charDiff (m i) b)) ∧
          (d' = 0 ∨ Safe P (strcistrLoopAt (b :: bs) m n (i + 1) d'))) := by
  have hrest : (strcistrRestAt m bs (i + 1) (charDiff (m i) b)).val = d' := by
    rw [strcistrRestAt_val, strcistrRest_last, hd']
  rw [strcistrLoopAt_succ, val_bind, safe_bind, safe_note, if_pos h, val_bind, safe_bind, hrest]
  by_cases hzero : d' = 0 <;> simp [hzero]

/-! ### Occurrences from a position on -/

theorem OccursAt.lt {s2 : List UInt8} (hne : s2 ≠ []) {i : Nat} (h : OccursAt s1 s2 i) : i + s2.length ≤ s1.length := by
  have hlen := h.length_le
  simp only [List.length_map, List.length_drop] at hlen
  have := List.length_pos_iff.2 hne
  omega

theorem isFirst_succ {s2 : List UInt8} {i : Nat} (h : ¬ OccursAt s1 s2 i) (r : Option Nat) :
    IsFirst s1 s2 i r ↔ IsFirst s1 s2 (i + 1) r := by
  cases r with
  | none =>
      constructor
      · exact fun hall j hj => hall j (by omega)
      · intro hall j hj
        rcases Nat.eq_or_lt_of_le hj with rfl | hlt
        · exact h
        · exact hall j hlt
  | some k =>
      constructor
      · rintro ⟨hle, hk, hall⟩
        have hne : i ≠ k := fun heq => h (heq ▸ hk)
        exact ⟨by omega, hk, fun j hj hlt => hall j (by omega) hlt⟩
      · rintro ⟨hle, hk, hall⟩
        refine ⟨by omega, hk, fun j hj hlt => ?_⟩
        rcases Nat.eq_or_lt_of_le hj with rfl | hj
        · exact h
        · exact hall j hj hlt

theorem notMisled_succ {s2 : List UInt8} {i : Nat} (h : ¬ OccursAt s1 s2 i) (hm : ¬ Misled s1 s2 i) :
    NotMisled s1 s2 i ↔ NotMisled s1 s2 (i + 1) := by
  constructor
  · intro hall j hj hbefore
    refine hall j (by omega) fun k hk hle => ?_
    rcases Nat.eq_or_lt_of_le hk with rfl | hk
    · exact h
    · exact hbefore k hk hle
  · intro hall j hj hbefore
    rcases Nat.eq_or_lt_of_le hj with rfl | hj
    · exact hm
    · exact hall j hj fun k hk hle => hbefore k (by omega) hle

/-- A string occurs where its first character is, and then its last one is in its place too. -/
theorem OccursAt.ends {i : Nat} (h : OccursAt s1 (b :: bs) i) :
    s1[i]?.map tolower = some (tolower b) ∧
      s1[i + bs.length]?.map tolower = some (tolower ((b :: bs).getLast (by simp))) := by
  have hget : ∀ k, k < (b :: bs).length → s1[i + k]?.map tolower = (b :: bs)[k]?.map tolower := by
    intro k hk
    obtain ⟨rest, hrest⟩ := h
    have hat : ((b :: bs).map tolower ++ rest)[k]? = ((s1.drop i).map tolower)[k]? := by rw [hrest]
    rw [List.getElem?_append_left (by simpa using hk), List.getElem?_map, List.getElem?_map, List.getElem?_drop] at hat
    exact hat.symm
  refine ⟨by simpa using hget 0 (by simp), ?_⟩
  rw [hget bs.length (by simp), List.getLast_eq_getElem]
  simp

/-- What the outer comparison finds. -/
theorem charDiff_first (hs : StringAt m 0 s1) {i : Nat} (hi : i < s1.length) :
    charDiff (m i) b = 0 ↔ s1[i]?.map tolower = some (tolower b) := by
  have hmi := hs.chars i hi
  rw [Nat.zero_add] at hmi
  rw [charDiff_eq_zero, hmi, List.getElem?_eq_getElem hi, Option.map_some, Option.some.injEq]

/-- What the inner loop finds. -/
theorem charDiff_last (hs : StringAt m 0 s1) {c : UInt8} (hc : c ≠ 0) {i : Nat} (hi : i ≤ s1.length) :
    charDiff (m i) c = 0 ↔ s1[i]?.map tolower = some (tolower c) := by
  rcases Nat.lt_or_eq_of_le hi with hlt | rfl
  · exact charDiff_first hs hlt
  · have hzero := hs.terminator
    rw [Nat.zero_add] at hzero
    rw [charDiff_eq_zero, hzero, List.getElem?_eq_none (Nat.le_refl _)]
    exact iff_of_false (fun h => tolower_ne_zero hc h.symm) (by simp)

theorem misled_iff {i : Nat} (hi : i < s1.length) :
    Misled s1 (b :: bs) i ↔ s1[i]?.map tolower = some (tolower b) ∧
      (s1[i + bs.length]?.map tolower = some (tolower ((b :: bs).getLast (by simp))) ∨ s1.length < i + bs.length) := by
  rw [Misled, List.head?_cons, Option.map_some, List.getLast?_eq_some_getLast (by simp), Option.map_some, List.length_cons]
  simp only [hi, true_and]
  refine and_congr_right fun _ => or_congr Iff.rfl ?_
  omega

theorem loop_iff (hs : StringAt m 0 s1) (hb : 0 ∉ b :: bs) {n i : Nat} (hn : i + n = s1.length) {d : Int}
    (hd : n = 0 → d ≠ 0) :
    (IsFirst s1 (b :: bs) i (strcistrLoopAt (b :: bs) m n i d).val ∧
      Safe (· ≤ s1.length) (strcistrLoopAt (b :: bs) m n i d)) ↔ NotMisled s1 (b :: bs) i := by
  induction n generalizing i d with
  | zero =>
      have hnone : (strcistrLoopAt (b :: bs) m 0 i d).val = none := if_neg (hd rfl)
      have hsafe : Safe (· ≤ s1.length) (strcistrLoopAt (b :: bs) m 0 i d) := by
        simp only [strcistrLoopAt, safe_bind, safe_note, safe_pure, and_true]
        omega
      rw [hnone]
      refine iff_of_true ⟨fun j hj hocc => ?_, hsafe⟩ fun j hj _ hm => ?_
      · have := hocc.lt (by simp)
        rw [List.length_cons] at this
        omega
      · have := hm.1
        omega
  | succ n ih =>
      have hi : i < s1.length := by omega
      have hlast : (b :: bs).getLast (by simp) ≠ 0 := fun h => hb (h ▸ List.getLast_mem _)
      have hskip : ∀ d', ¬ OccursAt s1 (b :: bs) i → ¬ Misled s1 (b :: bs) i → (n = 0 → d' ≠ 0) →
          ((IsFirst s1 (b :: bs) i (strcistrLoopAt (b :: bs) m n (i + 1) d').val ∧
            Safe (· ≤ s1.length) (strcistrLoopAt (b :: bs) m n (i + 1) d')) ↔ NotMisled s1 (b :: bs) i) := by
        intro d' hocc hmis hd'
        rw [isFirst_succ hocc, notMisled_succ hocc hmis]
        exact ih (by omega) hd'
      by_cases hfirst : charDiff (m i) b = 0
      · obtain ⟨hval, hsafe⟩ := @strcistrLoopAt_of_eq m b bs (· ≤ s1.length) n i d hfirst _ rfl
        rw [hval, hsafe, and_iff_right (Nat.le_of_lt hi), strcistrRestAt_safe m bs _ (by omega)]
        have hhas := (charDiff_first hs hi).1 hfirst
        by_cases hocc : OccursAt s1 (b :: bs) i
        · -- it is found here
          have hroom := hocc.lt (by simp)
          rw [List.length_cons] at hroom
          have hzero := (charDiff_last hs hlast (i := i + bs.length) (by omega)).2 hocc.ends.2
          rw [if_pos hzero]
          exact iff_of_true ⟨⟨Nat.le_refl i, hocc, fun j hj hlt => absurd hlt (by omega)⟩, by omega, Or.inl hzero⟩
            fun j hj hbefore => absurd hocc (hbefore i (Nat.le_refl i) hj)
        · by_cases hmis : Misled s1 (b :: bs) i
          · -- the search ends here, or has read too far
            refine iff_of_false ?_ fun hall => hall i (Nat.le_refl i) (fun k hk hle => ?_) hmis
            · rintro ⟨hisfirst, hroom, -⟩
              rcases ((misled_iff hi).1 hmis).2 with hend | hfar
              · rw [if_pos ((charDiff_last hs hlast (by omega)).2 hend)] at hisfirst
                exact hocc hisfirst.2.1
              · omega
            · obtain rfl : k = i := by omega
              exact hocc
          · have hnot := not_and.1 ((not_congr (misled_iff hi)).1 hmis) hhas
            rw [not_or] at hnot
            have hne : charDiff (m (i + bs.length)) ((b :: bs).getLast (by simp)) ≠ 0 :=
              fun h => hnot.1 ((charDiff_last hs hlast (by omega)).1 h)
            have hroom : i + 1 + bs.length ≤ s1.length + 1 := by omega
            simp only [hroom, hne, false_or, true_and]
            exact hskip _ hocc hmis fun _ => hne
      · obtain ⟨hval, hsafe⟩ := @strcistrLoopAt_of_ne m b bs (· ≤ s1.length) n i d hfirst
        have hno : ¬ s1[i]?.map tolower = some (tolower b) := fun h => hfirst ((charDiff_first hs hi).2 h)
        rw [hval, hsafe, and_iff_right (Nat.le_of_lt hi)]
        exact hskip _ (fun h => hno h.ends.1) (fun h => hno ((misled_iff hi).1 h).1) fun _ => hfirst

end Loop

/-- The first occurrence is found within the string when no position before it misleads, and, as long as there are
characters, whatever `d` is at first; and only then. -/
theorem findsFirst_iff {m : Nat → UInt8} {s1 s2 : List UInt8} (hs1 : StringAt m 0 s1) (hs2 : 0 ∉ s2) (hne : s2 ≠ []) (d : Int) :
    FindsFirst s1 s2 (strcistrAt m s1.length s2 d) ↔ (s1 = [] → d ≠ 0) ∧ NotMisled s1 s2 0 := by
  obtain ⟨b, bs, rfl⟩ := List.exists_cons_of_ne_nil hne
  by_cases hempty : s1 = [] ∧ d = 0
  · -- the end of the string is returned
    obtain ⟨rfl, rfl⟩ := hempty
    refine iff_of_false ?_ fun h => h.1 rfl rfl
    rintro ⟨hfirst, -⟩
    have hocc : OccursAt [] (b :: bs) 0 := hfirst.2.1
    have := hocc.lt hne
    simp at this
  · have hd : s1.length = 0 → d ≠ 0 := fun hlen hd => hempty ⟨List.eq_nil_of_length_eq_zero hlen, hd⟩
    rw [and_iff_right fun hnil => hd (by rw [hnil]; rfl)]
    exact loop_iff hs1 hs2 (Nat.zero_add _) hd

/-- A list of options is searched. -/
theorem findsFirst_option :
    FindsFirst (ascii "keep-alive, Upgrade") (ascii "Upgrade")
      (strcistrAt (fun i => (ascii "keep-alive, Upgrade").getD i 0) (ascii "keep-alive, Upgrade").length (ascii "Upgrade") 1) :=
  (findsFirst_iff (stringAt_getD (by decide)) (by decide) (by decide) 1).2 ⟨fun _ => by decide, fun j _ hbefore hmis => by
    have hall : ∀ j < 12, ¬ Misled (ascii "keep-alive, Upgrade") (ascii "Upgrade") j := by decide
    have hocc : OccursAt (ascii "keep-alive, Upgrade") (ascii "Upgrade") 12 := by decide
    by_cases hj : j < 12
    · exact hall j hj hmis
    · exact hbefore 12 (Nat.zero_le _) (Nat.not_lt.1 hj) hocc⟩

/-- The last character alone decides. -/
theorem not_findsFirst_middle :
    ¬ FindsFirst (ascii "axc") (ascii "abc")
      (strcistrAt (fun i => (ascii "axc").getD i 0) (ascii "axc").length (ascii "abc") 1) := by
  have hval : (strcistrAt (fun i => (ascii "axc").getD i 0) (ascii "axc").length (ascii "abc") 1).val = some 0 := by decide
  rintro ⟨hfirst, -⟩
  rw [hval] at hfirst
  have hocc : ¬ OccursAt (ascii "axc") (ascii "abc") 0 := by decide
  exact hocc hfirst.2.1

end YieldStm32.Stdio
