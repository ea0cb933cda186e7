import Mathlib.Algebra.Group.Nat.Defs
import Mathlib.Data.List.TakeWhile

/-!
# Strings, printed and scanned (`util/src/stdio.c`, `util/src/string.c`)

Strings are lists of bytes without their terminator; `char` is unsigned, as on the target.

* `ascii` : a string constant;
* `printed` : what `snprintf` leaves in a buffer, and the length it returns;
* `printInt` : `%i` and `%d` to `snprintf`;
* `scanInt` : `%i` to `snscanf`;
* `scanStr` : `%.*s` to `snscanf`;
* `Denotes` : what a number's digits say;
* `denotes_printNat`, `scanInt_denotes` : numbers are printed and read back as what they are.
-/

namespace YieldStm32

namespace Stdio

/-! ## Characters -/

def ascii (s : String) : List UInt8 := s.toList.map fun c => UInt8.ofNat c.toNat

/-- Only the characters of a string are looked at, not all 256. -/
instance decidableForallMem (s : List UInt8) (p : UInt8 → Prop) [DecidablePred p] : Decidable (∀ c ∈ s, p c) := List.decidableBAll p s

def isspace (c : UInt8) : Prop := c = 9 ∨ c = 10 ∨ c = 11 ∨ c = 12 ∨ c = 13 ∨ c = 32

instance (c : UInt8) : Decidable (isspace c) := inferInstanceAs (Decidable (_ ∨ _))

def isdigit (c : UInt8) : Prop := 48 ≤ c.toNat ∧ c.toNat ≤ 57

instance (c : UInt8) : Decidable (isdigit c) := inferInstanceAs (Decidable (_ ∧ _))

def tolower (c : UInt8) : UInt8 := if 65 ≤ c.toNat ∧ c.toNat ≤ 90 then c + 32 else c

/-- The string that starts a list of bytes. -/
def cstring (s : List UInt8) : List UInt8 := s.takeWhile (· ≠ 0)

/-- `strcicmp(a, b) == 0` -/
def sameWord (a b : List UInt8) : Prop := a.map tolower = b.map tolower

instance (a b : List UInt8) : Decidable (sameWord a b) := inferInstanceAs (Decidable (_ = _))

/-- `strncicmp(a, b, strlen(a)) == 0` -/
def startsWord (a b : List UInt8) : Prop := a.map tolower <+: b.map tolower

instance (a b : List UInt8) : Decidable (startsWord a b) := inferInstanceAs (Decidable (_ <+: _))

/-- The inner loop of `strcistr`; it does not stop at a difference, so that the last one comes out. -/
def strcistrRest (m : Nat → UInt8) : List UInt8 → Nat → Int → Int
  | [], _, d => d
  | b :: s2, i, _ => strcistrRest m s2 (i + 1) ((tolower (m i)).toNat - (tolower b).toNat)

/-- The loop of `strcistr`, where `n` characters are left before the terminator. -/
def strcistrLoop (s2 : List UInt8) (m : Nat → UInt8) : Nat → Nat → Int → Bool
  | 0, _, d => d = 0
  | n + 1, i, _ =>
      let d : Int := (tolower (m i)).toNat - (tolower (s2.headD 0)).toNat
      if d ≠ 0 then strcistrLoop s2 m n (i + 1) d
      else
        let d := strcistrRest m s2.tail (i + 1) d
        if d = 0 then true else strcistrLoop s2 m n (i + 1) d

/-- `strcistr(s1, s2) != 0`: `s1` are the first `n` bytes of a memory that is read behind its end too, and `d` is not
initialised. -/
def strcistr (m : Nat → UInt8) (n : Nat) (s2 : List UInt8) (d : Int) : Bool := strcistrLoop s2 m n 0 d

/-! ## Printing -/

/-- A rendered text in a buffer of `size` bytes: it is cut where it does not fit, and its length is what is returned. -/
def printed (size : Nat) (text : List UInt8) : List UInt8 := text.take (size - 1)

/-- The digits of a number, the first of `fuel` at least. -/
def printNat : Nat → Nat → List UInt8
  | 0, _ => []
  | fuel + 1, v => (if v < 10 then [] else printNat fuel (v / 10)) ++ [UInt8.ofNat (48 + v % 10)]

/-- An `int`: at most ten digits. -/
def printInt (i : BitVec 32) : List UInt8 :=
  if i.msb then 45 :: printNat 10 (-i).toNat else printNat 10 i.toNat

/-! ## Scanning -/

/-- `v`: digits count from 0, letters from 10; what stands between them and is not an upper case letter comes out as a
number too. -/
def digitVal (c : UInt8) : Nat :=
  let c := tolower c
  if isdigit c then c.toNat - 48 else (c.toNat + 2 ^ 32 - 87) % 2 ^ 32

/-- The base from the prefix, and the text behind it. -/
def scanPrefix (s : List UInt8) : Nat × List UInt8 :=
  match s.map tolower with
  | 48 :: 120 :: _ => (16, s.drop 2)
  | 48 :: 98 :: _ => (2, s.drop 2)
  | _ => (10, s)

/-- The number, without its sign; leading zeros are skipped, and thirty digits are kept. -/
def scanDigits (base : Nat) (s : List UInt8) : Option (BitVec 32) :=
  let digits := (s.map digitVal).takeWhile (· < base)
  if digits = [] then none
  else some (BitVec.ofNat 32 (((digits.dropWhile (· = 0)).take 30).foldl (fun ull v => ull * base + v) 0))

def scanInt (s : List UInt8) : Option (BitVec 32) :=
  match s.dropWhile isspace with
  | [] => none
  | c :: rest =>
      let unsigned (s : List UInt8) := scanDigits (scanPrefix s).1 (scanPrefix s).2
      if c = 43 then unsigned rest
      else if c = 45 then (unsigned rest).map (- ·)
      else unsigned (c :: rest)

/-- The loop of `scan_str` over the characters; `out` is what was stored, at most `room` more will be. -/
def scanStrLoop (next : UInt8) : List UInt8 → Nat → Bool → Bool → Nat → List UInt8 → List UInt8 × List UInt8
  | [], _, _, _, _, out => (out, [])
  | c :: s, len, inQuotes, escBackslash, room, out =>
      let store := scanStrLoop next s (len + 1) inQuotes false (room - 1) (if room = 0 then out else out ++ [c])
      if escBackslash then
        if c = next ∧ ¬ inQuotes then (out, c :: s) else store
      else if c = 92 then scanStrLoop next s (len + 1) inQuotes true room out
      else if c = 34 then
        if inQuotes then (out, s)
        else if len = 0 then scanStrLoop next s (len + 1) true false room out
        else if c = next then (out, c :: s)
        else store
      else if isspace c ∨ c = next then
        if ¬ inQuotes then (out, c :: s) else store
      else store

/-- A word, stored in a buffer of `precision` bytes, and what is behind it. -/
def scanStr (precision : Nat) (next : UInt8) (s : List UInt8) : List UInt8 × List UInt8 :=
  let s := s.dropWhile isspace
  scanStrLoop next s 0 false false (min (precision - 1) s.length) []

/-! ## Numbers -/

/-- The value of a row of digits. -/
def natVal (s : List UInt8) : Nat := s.foldl (fun n c => n * 10 + (c.toNat - 48)) 0

/-- The bytes are the digits of a number. -/
def Denotes (s : List UInt8) (n : Nat) : Prop := s ≠ [] ∧ (∀ c ∈ s, isdigit c) ∧ natVal s = n

theorem natVal_append (s t : List UInt8) : natVal (s ++ t) = t.foldl (fun n c => n * 10 + (c.toNat - 48)) (natVal s) := by
  rw [natVal, List.foldl_append]
  rfl

theorem denotes_printNat {fuel v : Nat} (h : v < 10 ^ fuel) (hfuel : 0 < fuel) : Denotes (printNat fuel v) v := by
  induction fuel generalizing v with
  | zero => omega
  | succ fuel ih =>
      have hdigit : (UInt8.ofNat (48 + v % 10)).toNat = 48 + v % 10 := by
        rw [UInt8.toNat_ofNat', Nat.mod_eq_of_lt (by omega)]
      have hlast : isdigit (UInt8.ofNat (48 + v % 10)) := by
        rw [isdigit, hdigit]
        omega
      rw [printNat]
      by_cases hv : v < 10
      · rw [if_pos hv, List.nil_append]
        refine ⟨List.cons_ne_nil _ _, fun c hc => by rwa [List.mem_singleton.1 hc], ?_⟩
        rw [natVal, List.foldl_cons, List.foldl_nil, hdigit]
        omega
      · rw [if_neg hv]
        have hpow : v / 10 < 10 ^ fuel := by
          rw [Nat.pow_succ] at h
          omega
        have hpos : 0 < fuel := by
          apply Nat.pos_of_ne_zero
          rintro rfl
          omega
        obtain ⟨-, hall, hval⟩ := ih hpow hpos
        refine ⟨by simp, fun c hc => ?_, ?_⟩
        · rcases List.mem_append.1 hc with hc | hc
          · exact hall c hc
          · rwa [List.mem_singleton.1 hc]
        · rw [natVal_append, hval, List.foldl_cons, List.foldl_nil, hdigit]
          omega

/-- A number that an `int` holds. -/
theorem denotes_printInt {n : Nat} (h : n < 2 ^ 31) : Denotes (printInt (BitVec.ofNat 32 n)) n := by
  have hn : (BitVec.ofNat 32 n).toNat = n := by
    rw [BitVec.toNat_ofNat]
    exact Nat.mod_eq_of_lt (by omega)
  have hmsb : (BitVec.ofNat 32 n).msb = false := by
    rw [BitVec.msb_eq_false_iff_two_mul_lt, hn]
    omega
  rw [printInt, hmsb, hn]
  exact denotes_printNat (by omega) (by decide)

theorem length_printNat (fuel v : Nat) : (printNat fuel v).length ≤ fuel := by
  induction fuel generalizing v with
  | zero => exact Nat.le_refl 0
  | succ fuel ih =>
      rw [printNat, List.length_append]
      exact Nat.add_le_add_right (by split <;> [exact Nat.zero_le _; exact ih (v / 10)]) 1

/-- What is printed for an `int` is a word. -/
theorem printInt_word (i : BitVec 32) : (printInt i).length ≤ 11 ∧ ∀ c ∈ printInt i, c = 45 ∨ isdigit c := by
  have hi := i.isLt
  have hneg := (-i).isLt
  rw [printInt]
  split
  · refine ⟨Nat.succ_le_succ (length_printNat 10 _), fun c hc => ?_⟩
    rcases List.mem_cons.1 hc with rfl | hc
    · exact Or.inl rfl
    · exact Or.inr ((denotes_printNat (by omega) (by decide)).2.1 c hc)
  · refine ⟨Nat.le_succ_of_le (length_printNat 10 _), fun c hc => ?_⟩
    exact Or.inr ((denotes_printNat (by omega) (by decide)).2.1 c hc)

theorem isdigit.tolower {c : UInt8} (h : isdigit c) : tolower c = c := by
  have := h.2
  exact if_neg (by omega)

theorem isdigit.digitVal {c : UInt8} (h : isdigit c) : digitVal c = c.toNat - 48 := by
  rw [Stdio.digitVal, h.tolower]
  exact if_pos h

theorem isdigit.not_isspace {c : UInt8} (h : isdigit c) : ¬ isspace c := by
  rintro (rfl | rfl | rfl | rfl | rfl | rfl) <;> exact absurd h (by decide)

/-- Leading zeros change nothing. -/
theorem foldl_dropWhile_zero (ds : List Nat) :
    (ds.dropWhile (· = 0)).foldl (fun ull v => ull * 10 + v) 0 = ds.foldl (fun ull v => ull * 10 + v) 0 := by
  induction ds with
  | nil => rfl
  | cons d ds ih =>
      by_cases hd : d = 0
      · subst hd
        simpa using ih
      · rw [List.dropWhile_cons_of_neg (by simpa using hd)]

theorem le_foldl (ds : List Nat) (n : Nat) : n * 10 ^ ds.length ≤ ds.foldl (fun ull v => ull * 10 + v) n := by
  induction ds generalizing n with
  | nil => simp
  | cons d ds ih =>
      calc n * 10 ^ (d :: ds).length = (n * 10) * 10 ^ ds.length := by
            rw [List.length_cons, Nat.pow_succ', ← Nat.mul_assoc]
        _ ≤ (n * 10 + d) * 10 ^ ds.length := Nat.mul_le_mul_right _ (Nat.le_add_right ..)
        _ ≤ _ := ih (n * 10 + d)

/-- A row of digits without leading zeros is no longer than its value. -/
theorem length_significant {ds : List Nat} {k : Nat} (h : ds.foldl (fun ull v => ull * 10 + v) 0 < 10 ^ k) :
    (ds.dropWhile (· = 0)).length ≤ k := by
  rw [← foldl_dropWhile_zero] at h
  cases hs : ds.dropWhile (· = 0) with
  | nil => simp
  | cons d rest =>
      have hd : d ≠ 0 := by
        have := List.head_dropWhile_not (fun x => decide (x = 0)) (l := ds) (by rw [hs]; simp)
        simpa [hs] using this
      rw [hs, List.foldl_cons, Nat.zero_mul, Nat.zero_add] at h
      have hle := le_foldl rest d
      have hlt : 10 ^ rest.length < 10 ^ k := by
        refine Nat.lt_of_le_of_lt ?_ h
        calc 10 ^ rest.length ≤ d * 10 ^ rest.length := Nat.le_mul_of_pos_left _ (Nat.pos_of_ne_zero hd)
          _ ≤ _ := hle
      exact (Nat.pow_lt_pow_iff_right (by decide)).1 hlt

theorem foldl_digitVal {s : List UInt8} (h : ∀ c ∈ s, isdigit c) (n : Nat) :
    (s.map digitVal).foldl (fun ull v => ull * 10 + v) n = s.foldl (fun n c => n * 10 + (c.toNat - 48)) n := by
  induction s generalizing n with
  | nil => rfl
  | cons c s ih =>
      rw [List.map_cons, List.foldl_cons, List.foldl_cons, (h c (by simp)).digitVal, ih fun d hd => h d (by simp [hd])]

/-- Digits have no prefix. -/
theorem scanPrefix_digits {s : List UInt8} (h : ∀ c ∈ s, isdigit c) : scanPrefix s = (10, s) := by
  have hmap : s.map tolower = s :=
    (List.map_congr_left fun c hc => (h c hc).tolower).trans (List.map_id' s)
  rw [scanPrefix, hmap]
  split
  · exact absurd (h 120 (by simp)) (by decide)
  · exact absurd (h 98 (by simp)) (by decide)
  · rfl

/-- A number of at most thirty digits is scanned as what its digits say. -/
theorem scanInt_denotes {s : List UInt8} {n : Nat} (h : Denotes s n) (hn : n < 10 ^ 30) :
    scanInt s = some (BitVec.ofNat 32 n) := by
  obtain ⟨hne, hall, hval⟩ := h
  have hskip : s.dropWhile isspace = s := by
    cases s with
    | nil => rfl
    | cons c s => exact List.dropWhile_cons_of_neg (by simpa using (hall c (by simp)).not_isspace)
  have hdigits : (s.map digitVal).takeWhile (· < 10) = s.map digitVal := by
    apply List.takeWhile_eq_self_iff.2
    intro v hv
    obtain ⟨c, hc, rfl⟩ := List.mem_map.1 hv
    have hd := (hall c hc).2
    rw [(hall c hc).digitVal]
    simp
    omega
  have hfold : (s.map digitVal).foldl (fun ull v => ull * 10 + v) 0 = n := by
    rw [foldl_digitVal hall, ← hval, natVal]
  have hscan : scanDigits 10 s = some (BitVec.ofNat 32 n) := by
    have hlen := length_significant (k := 30) (by rw [hfold]; exact hn)
    rw [scanDigits, hdigits, if_neg (by simpa using hne), List.take_of_length_le hlen, foldl_dropWhile_zero, hfold]
  rw [scanInt, hskip]
  cases s with
  | nil => exact absurd rfl hne
  | cons c s =>
      have hc := hall c (by simp)
      have hplus : c ≠ 43 := by
        rintro rfl
        exact absurd hc (by decide)
      have hminus : c ≠ 45 := by
        rintro rfl
        exact absurd hc (by decide)
      dsimp only
      rw [if_neg hplus, if_neg hminus, scanPrefix_digits hall]
      exact hscan

end Stdio

end YieldStm32
