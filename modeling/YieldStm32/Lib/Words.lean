import Mathlib.Data.List.Basic
import Mathlib.Tactic.IntervalCases

/-!
# Bytes in words of 32 bits

* `word` : four bytes, the first one lowest;
* `pack` : a list of bytes in words, the last one filled up with zeros;
* `unpack` : the bytes of a list of words, `take_unpack_take`;
* `pack_append`, `drop_pack` : lists put together and cut at a word.
-/

namespace Words

/-- Four bytes, the first one lowest. -/
def word (a b c d : UInt8) : UInt32 := a.toUInt32 ||| b.toUInt32 <<< 8 ||| c.toUInt32 <<< 16 ||| d.toUInt32 <<< 24

/-- The bytes of a word, lowest first. -/
def bytes (w : UInt32) : List UInt8 := [w.toUInt8, (w >>> 8).toUInt8, (w >>> 16).toUInt8, (w >>> 24).toUInt8]

/-- A list of bytes in words, the last one filled up with zeros. -/
def pack : List UInt8 → List UInt32
  | [] => []
  | [a] => [word a 0 0 0]
  | [a, b] => [word a b 0 0]
  | [a, b, c] => [word a b c 0]
  | a :: b :: c :: d :: bs => word a b c d :: pack bs

/-- The bytes of a list of words. -/
def unpack (ws : List UInt32) : List UInt8 := ws.flatMap bytes

theorem pack_nil : pack [] = [] := rfl

theorem pack_single (a : UInt8) : pack [a] = [word a 0 0 0] := rfl

theorem pack_pair (a b : UInt8) : pack [a, b] = [word a b 0 0] := rfl

theorem pack_triple (a b c : UInt8) : pack [a, b, c] = [word a b c 0] := rfl

theorem pack_cons (a b c d : UInt8) (bs : List UInt8) : pack (a :: b :: c :: d :: bs) = word a b c d :: pack bs := rfl

@[simp] theorem length_bytes (w : UInt32) : (bytes w).length = 4 := rfl

/-- The bytes of a word are those it was made of. -/
@[simp] theorem bytes_word (a b c d : UInt8) : bytes (word a b c d) = [a, b, c, d] := by
  have h0 : (word a b c d).toUInt8 = a := by
    apply UInt8.eq_of_toBitVec_eq
    apply BitVec.eq_of_getLsbD_eq
    intro i hi
    interval_cases i <;> simp [word]
  have h1 : (word a b c d >>> 8).toUInt8 = b := by
    apply UInt8.eq_of_toBitVec_eq
    apply BitVec.eq_of_getLsbD_eq
    intro i hi
    interval_cases i <;> simp [word]
  have h2 : (word a b c d >>> 16).toUInt8 = c := by
    apply UInt8.eq_of_toBitVec_eq
    apply BitVec.eq_of_getLsbD_eq
    intro i hi
    interval_cases i <;> simp [word]
  have h3 : (word a b c d >>> 24).toUInt8 = d := by
    apply UInt8.eq_of_toBitVec_eq
    apply BitVec.eq_of_getLsbD_eq
    intro i hi
    interval_cases i <;> simp [word]
  unfold bytes
  rw [h0, h1, h2, h3]

@[simp] theorem unpack_nil : unpack [] = [] := rfl

@[simp] theorem unpack_cons (w : UInt32) (ws : List UInt32) : unpack (w :: ws) = bytes w ++ unpack ws :=
  List.flatMap_cons ..

theorem length_pack (bs : List UInt8) : (pack bs).length = (bs.length + 3) / 4 := by
  induction bs using pack.induct with
  | case1 => rfl
  | case2 a => simp [pack_single]
  | case3 a b => simp [pack_pair]
  | case4 a b c => simp [pack_triple]
  | case5 a b c d bs ih =>
      rw [pack_cons, List.length_cons, ih]
      simp only [List.length_cons]
      omega

/-- Two lists, of which the first ends with a word. -/
theorem pack_append {xs : List UInt8} (h : 4 ∣ xs.length) (ys : List UInt8) : pack (xs ++ ys) = pack xs ++ pack ys := by
  induction xs using pack.induct with
  | case1 => rfl
  | case2 a => exact absurd (show 4 ∣ 1 from h) (by decide)
  | case3 a b => exact absurd (show 4 ∣ 2 from h) (by decide)
  | case4 a b c => exact absurd (show 4 ∣ 3 from h) (by decide)
  | case5 a b c d bs ih =>
      have hbs : 4 ∣ bs.length := by
        simp only [List.length_cons] at h
        omega
      simp [pack_cons, ih hbs]

/-- Whole words taken off. -/
theorem drop_pack (bs : List UInt8) (k : Nat) : (pack bs).drop k = pack (bs.drop (4 * k)) := by
  induction bs using pack.induct generalizing k with
  | case1 => rw [List.drop_nil, pack_nil, List.drop_nil]
  | case2 a =>
      cases k with
      | zero => rfl
      | succ k => simp [pack_single, pack_nil, Nat.mul_succ]
  | case3 a b =>
      cases k with
      | zero => rfl
      | succ k => simp [pack_pair, pack_nil, Nat.mul_succ]
  | case4 a b c =>
      cases k with
      | zero => rfl
      | succ k => simp [pack_triple, pack_nil, Nat.mul_succ]
  | case5 a b c d bs ih =>
      cases k with
      | zero => rfl
      | succ k => simp [pack_cons, Nat.mul_succ, ih]

/-- The first bytes of a list come out of its first words. -/
theorem take_unpack_take {bs : List UInt8} {n : Nat} (h : n ≤ bs.length) :
    (unpack ((pack bs).take ((n + 3) / 4))).take n = bs.take n := by
  induction bs using pack.induct generalizing n with
  | case1 =>
      obtain rfl := Nat.le_zero.1 h
      rfl
  | case2 a =>
      have hn : n < 2 := Nat.lt_succ_of_le h
      interval_cases n <;> simp [pack_single]
  | case3 a b =>
      have hn : n < 3 := Nat.lt_succ_of_le h
      interval_cases n <;> simp [pack_pair]
  | case4 a b c =>
      have hn : n < 4 := Nat.lt_succ_of_le h
      interval_cases n <;> simp [pack_triple]
  | case5 a b c d bs ih =>
      simp only [List.length_cons] at h
      rcases Nat.lt_or_ge n 4 with hlt | hge
      · interval_cases n <;> simp [pack_cons]
      · obtain ⟨n, rfl⟩ := Nat.exists_eq_add_of_le' hge
        have hdiv : (n + 4 + 3) / 4 = (n + 3) / 4 + 1 := by omega
        rw [hdiv, pack_cons, List.take_succ_cons, unpack_cons, bytes_word]
        simp [ih (n := n) (by omega)]

end Words
