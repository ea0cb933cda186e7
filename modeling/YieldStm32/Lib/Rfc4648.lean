import Mathlib.Data.List.GetD
import Mathlib.Tactic.IntervalCases

/-!
# Base 64 encoding

* `encode` : groups of 24 bits as four characters each, and the padding;
* `IsText` : texts of the alphabet, padded like an encoding;
* `length_encode` : the length of an encoding;
* `group_eq`, `sextet_eq`, `pack_sextets` : groups and their parts as words.
-/

namespace Rfc4648

/-- The character of a value. -/
def char (v : Nat) : UInt8 :=
  if v < 26 then ('A'.toNat + v).toUInt8
  else if v < 52 then ('a'.toNat + (v - 26)).toUInt8
  else if v < 62 then ('0'.toNat + (v - 52)).toUInt8
  else if v = 62 then '+'.toNat.toUInt8
  else '/'.toNat.toUInt8

def pad : UInt8 := '='.toNat.toUInt8

/-- Three bytes, the first one highest. -/
def group (a b c : UInt8) : BitVec 24 := (a.toBitVec ++ b.toBitVec : BitVec 16) ++ c.toBitVec

/-- The six bits from bit `k` on. -/
def sextet (g : BitVec 24) (k : Nat) : BitVec 6 := g.extractLsb' k 6

/-- The encoding; the bits that the last group lacks are zeros. -/
def encode : List UInt8 → List UInt8
  | [] => []
  | [a] =>
      let g := group a 0 0
      [char (sextet g 18).toNat, char (sextet g 12).toNat, pad, pad]
  | [a, b] =>
      let g := group a b 0
      [char (sextet g 18).toNat, char (sextet g 12).toNat, char (sextet g 6).toNat, pad]
  | a :: b :: c :: rest =>
      let g := group a b c
      char (sextet g 18).toNat :: char (sextet g 12).toNat :: char (sextet g 6).toNat :: char (sextet g 0).toNat ::
        encode rest

example : encode [102, 111, 111, 98] = [90, 109, 57, 118, 89, 103, 61, 61] := by decide

/-- A character of the alphabet. -/
def IsChar (c : UInt8) : Prop := ∃ v < 64, c = char v

/-- Padded texts: the length is a multiple of four, and all characters are of the alphabet but for one or two at the end. -/
def IsText (text : List UInt8) : Prop :=
  4 ∣ text.length ∧ ∃ chars k, k ≤ 2 ∧ text = chars ++ List.replicate k pad ∧ ∀ c ∈ chars, IsChar c

/-- All characters but the last two are of the alphabet. -/
theorem IsText.isChar {text : List UInt8} (h : IsText text) {i : Nat} (hi : i + 2 < text.length) : IsChar (text.getD i 0) := by
  obtain ⟨-, chars, k, hk, rfl, hchars⟩ := h
  rw [List.length_append, List.length_replicate] at hi
  have hlt : i < chars.length := by omega
  rw [List.getD_append _ _ _ _ hlt, List.getD_eq_getElem _ _ hlt]
  exact hchars _ (List.getElem_mem hlt)

theorem length_encode (xs : List UInt8) : (encode xs).length = 4 * ((xs.length + 2) / 3) := by
  induction xs using encode.induct with
  | case1 => rfl
  | case2 a => simp only [encode, List.length_cons, List.length_nil]
  | case3 a b => simp only [encode, List.length_cons, List.length_nil]
  | case4 a b c rest ih =>
      simp only [encode, List.length_cons, ih]
      omega

theorem isChar_sextet (g : BitVec 24) (k : Nat) : IsChar (char (sextet g k).toNat) := ⟨_, (sextet g k).isLt, rfl⟩

/-- All of an encoding is of the alphabet, or padding. -/
theorem encode_chars (xs : List UInt8) : ∀ c ∈ encode xs, IsChar c ∨ c = pad := by
  induction xs using encode.induct with
  | case1 => simp [encode]
  | case2 a => simp [encode, isChar_sextet]
  | case3 a b => simp [encode, isChar_sextet]
  | case4 a b c rest ih => simpa [encode, isChar_sextet] using ih

/-! ## Groups as words -/

section

variable (a b c : UInt8) (g : BitVec 24)

theorem group_eq : a.toBitVec.setWidth 32 <<< 16 ||| b.toBitVec.setWidth 32 <<< 8 ||| c.toBitVec.setWidth 32 =
    (group a b c).setWidth 32 := by
  unfold group
  apply BitVec.eq_of_getLsbD_eq
  intro i hi
  simp only [BitVec.getLsbD_or, BitVec.getLsbD_shiftLeft, BitVec.getLsbD_setWidth, BitVec.getLsbD_append]
  interval_cases i <;> simp

theorem sextet_eq (k : Nat) : (g.setWidth 32 >>> k) &&& 0x3f = (sextet g k).setWidth 32 := by
  unfold sextet
  apply BitVec.eq_of_getLsbD_eq
  intro i hi
  have hmask : (0x3f : BitVec 32).getLsbD i = decide (i < 6) := by interval_cases i <;> rfl
  simp only [BitVec.getLsbD_and, BitVec.getLsbD_ushiftRight, BitVec.getLsbD_setWidth, BitVec.getLsbD_extractLsb', hmask, hi]
  by_cases hk : k + i < 24
  · simp [show k + i < 32 by omega, Bool.and_comm]
  · simp [BitVec.getLsbD_of_ge g (k + i) (by omega)]

theorem pack_sextets :
    (sextet g 18).setWidth 32 <<< 18 ||| (sextet g 12).setWidth 32 <<< 12 ||| (sextet g 6).setWidth 32 <<< 6 |||
      (sextet g 0).setWidth 32 = g.setWidth 32 := by
  unfold sextet
  apply BitVec.eq_of_getLsbD_eq
  intro i hi
  simp only [BitVec.getLsbD_or, BitVec.getLsbD_shiftLeft, BitVec.getLsbD_setWidth, BitVec.getLsbD_extractLsb']
  interval_cases i <;> simp

/-- The parts that stand for missing bytes. -/
theorem sextet_zero : sextet (group a 0 0) 6 = 0 ∧ sextet (group a 0 0) 0 = 0 ∧ sextet (group a b 0) 0 = 0 := by
  unfold group sextet
  refine ⟨?_, ?_, ?_⟩ <;>
  · apply BitVec.eq_of_getLsbD_eq
    intro i hi
    simp only [BitVec.getLsbD_extractLsb', BitVec.getLsbD_append]
    interval_cases i <;> simp

/-- The bytes of a group. -/
theorem group_bytes : ((group a b c).setWidth 32 >>> 16).setWidth 8 = a.toBitVec ∧
    ((group a b c).setWidth 32 >>> 8).setWidth 8 = b.toBitVec ∧ ((group a b c).setWidth 32).setWidth 8 = c.toBitVec := by
  unfold group
  refine ⟨?_, ?_, ?_⟩ <;>
  · apply BitVec.eq_of_getLsbD_eq
    intro i hi
    simp only [BitVec.getLsbD_setWidth, BitVec.getLsbD_ushiftRight, BitVec.getLsbD_append]
    interval_cases i <;> simp

end

end Rfc4648
