import YieldStm32.Util.Sha1
import YieldStm32.Util.Sha2

/-!
# The accessors of the hash value

* `hexText` : the hexadecimal text of bytes;
* `Delivers` : what the accessors are to write, and to return, for a digest of so many bytes;
* `getHashStr_eq` : the text is that of the digest;
* `accessors_iff` : `SHA2_GetHashVal` counts characters where it has to count bytes.
-/

namespace YieldStm32.Digest

/-- A lowercase hexadecimal digit. -/
def hexDigit (d : Nat) : UInt8 := (Nat.digitChar d).toNat.toUInt8

/-- The text of bytes, two digits each. -/
def hexText (bytes : List UInt8) : List UInt8 := bytes.flatMap fun b => [hexDigit (b.toNat / 16), hexDigit (b.toNat % 16)]

example : hexText [0xc1, 0x05] = ['c', '1', '0', '5'].map (·.toNat.toUInt8) := by decide

theorem hexText_getElem? (bytes : List UInt8) (i : Nat) :
    (hexText bytes)[i]? =
      bytes[i / 2]?.map fun b => hexDigit (if i % 2 ≠ 0 then b.toNat % 16 else b.toNat / 16) := by
  induction bytes generalizing i with
  | nil => rfl
  | cons b bytes ih =>
      match i with
      | 0 => rfl
      | 1 => rfl
      | i + 2 =>
          have hnext : (hexText (b :: bytes))[i + 2]? = (hexText bytes)[i]? := rfl
          rw [hnext, ih, Nat.add_div_right i (by decide), Nat.add_mod_right]
          rfl

/-- A character of the text, as the loop looks it up. -/
theorem digitChars_getD (b : UInt8) (i : Nat) :
    digitChars.getD (if i % 2 ≠ 0 then b.toNat &&& 0xf else b.toNat >>> 4) 0 =
      hexDigit (if i % 2 ≠ 0 then b.toNat % 16 else b.toNat / 16) := by
  have hdigits : ∀ d < 16, digitChars.getD d 0 = hexDigit d := by decide
  have hlow : b.toNat &&& 0xf = b.toNat % 16 := Nat.and_two_pow_sub_one_eq_mod b.toNat 4
  have hhigh : b.toNat >>> 4 = b.toNat / 16 := Nat.shiftRight_eq_div_pow b.toNat 4
  have hlt := b.toNat_lt
  rw [hlow, hhigh]
  refine hdigits _ ?_
  split <;> omega

section

variable {n : Nat} (s : DigestState n)

/-- The digest, of `length` bytes, in the hash words of a state. -/
def DigestState.value (length : Nat) : List UInt8 := (s.h.toList.flatMap leBytes).take length

/-- What the accessors return and write, for a digest of `length` bytes and an output of `size`. -/
structure Delivers (length size : Nat) (val str : Except Err Nat × List UInt8) : Prop where
  val : val = (.ok (min size length), (s.value length).take (min size length))
  str : str =
    if size = 0 then (.ok 0, [])
    else (.ok (min (size - 1) (2 * length) + 1), (hexText (s.value length)).take (min (size - 1) (2 * length)) ++ [0])

variable {s} {length : Nat}

/-- The characters that the loop writes. -/
theorem map_digitChars (hlength : length ≤ n * 4) {m : Nat} (hm : m ≤ 2 * length) :
    (List.range m).map (fun i =>
        digitChars.getD (if i % 2 ≠ 0 then (s.bytes.getD (i / 2) 0).toNat &&& 0xf else (s.bytes.getD (i / 2) 0).toNat >>> 4) 0) =
      (hexText (s.value length)).take m := by
  refine List.ext_getElem? fun i => ?_
  rw [List.getElem?_map, List.getElem?_take]
  by_cases hi : i < m
  · have hwords : (s.value length).length = length := by
      rw [DigestState.value, List.length_take, length_flatMap (f := leBytes) fun _ => rfl]
      omega
    have hbyte : (s.value length)[i / 2]? = s.bytes[i / 2]? := by
      rw [DigestState.value, ← take_bytes s hlength, List.getElem?_take, if_pos (by omega)]
    have hsome : (s.value length)[i / 2]? = some (s.bytes.getD (i / 2) 0) := by
      rw [List.getD_eq_getElem?_getD, ← hbyte, List.getElem?_eq_getElem (by omega), Option.getD_some]
    rw [List.getElem?_range hi, if_pos hi, hexText_getElem?, hsome, Option.map_some, Option.map_some, digitChars_getD]
  · rw [if_neg hi, List.getElem?_eq_none (by rw [List.length_range]; omega)]
    rfl

/-- The text is that of the digest. -/
theorem getHashStr_eq (hne : s.finalized ≠ 0) (hlength : length ≤ n * 4) (size : Nat) :
    getHashStr s (length * 2) size =
      if size = 0 then (.ok 0, [])
      else
        (.ok (min (size - 1) (2 * length) + 1), (hexText (s.value length)).take (min (size - 1) (2 * length)) ++ [0]) := by
  unfold getHashStr
  rw [if_neg hne]
  by_cases hzero : size = 0
  · rw [if_pos hzero, if_pos hzero]
  · have hsize : (if length * 2 + 1 < size then length * 2 + 1 else size) = min (size - 1) (2 * length) + 1 := by
      split <;> omega
    rw [if_neg hzero, if_neg hzero]
    dsimp only
    rw [hsize, Nat.add_sub_cancel, map_digitChars hlength (Nat.min_le_right _ _)]

/-- The value, where as many bytes are counted as the digest has. -/
theorem delivers (hne : s.finalized ≠ 0) (hlength : length ≤ n * 4) (size : Nat) :
    Delivers s length size (getHashVal s length size) (getHashStr s (length * 2) size) where
  val := by
    rw [getHashVal_of_le hne hlength, DigestState.value, List.take_take]
    exact congrArg (fun k => (Except.ok (min size length), (s.h.toList.flatMap leBytes).take k)) (by omega)
  str := getHashStr_eq hne hlength size

/-- The value, where twice as many bytes are counted. -/
theorem delivers_double_iff (hne : s.finalized ≠ 0) (hpos : 0 < length) (hlength : length ≤ n * 4) (size : Nat) :
    Delivers s length size (getHashVal s (length * 2) size) (getHashStr s (length * 2) size) ↔ size ≤ length := by
  constructor
  · intro h
    have hcnt : min size (length * 2) = min size length := by
      have hval := h.val
      rw [getHashVal, if_neg hne] at hval
      exact Except.ok.inj (Prod.mk.inj hval).1
    omega
  · intro hsize
    have hcnt : min size (length * 2) = min size length := by omega
    have hval : getHashVal s (length * 2) size = getHashVal s length size := by
      unfold getHashVal
      rw [hcnt]
    rw [hval]
    exact delivers hne hlength size

end

/-- **The accessors agree** exactly where no more is asked for than the digest has. -/
theorem accessors_iff {s : SHA2.State} {length : Nat} {standard : List UInt8 → List UInt8}
    (htype : s.type.standard = some (length, standard)) (hne : s.finalized ≠ 0) {s' : DigestState 5} (hne' : s'.finalized ≠ 0)
    (size : Nat) :
    Delivers s.toDigestState length size (SHA2.getHashVal s size) (SHA2.getHashStr s size) ∧
        Delivers s' 20 size (SHA1.getHashVal s' size) (SHA1.getHashStr s' size) ↔
      size ≤ length := by
  have hsha1 : Delivers s' 20 size (SHA1.getHashVal s' size) (SHA1.getHashStr s' size) := delivers hne' (Nat.le_refl 20) size
  have hcnt : SHA2.cnt s.type = some (length * 2) ∧ 0 < length ∧ length ≤ 8 * 4 := by
    cases hs : s.type <;> rw [hs] at htype <;> cases htype <;> decide
  have hval : SHA2.getHashVal s size = getHashVal s.toDigestState (length * 2) size := by rw [SHA2.getHashVal, hcnt.1]
  have hstr : SHA2.getHashStr s size = getHashStr s.toDigestState (length * 2) size := by rw [SHA2.getHashStr, hcnt.1]
  rw [hval, hstr, delivers_double_iff hne hcnt.2.1 hcnt.2.2]
  exact ⟨fun h => h.1, fun h => ⟨h, hsha1⟩⟩

theorem accessors_iff_sample :
    let s := (SHA2.digest { (initState SHA2.iv224 : DigestState 8) with type := .type224 } 1 []).2
    let s' := (SHA1.digest SHA1.initState 1 []).2
    Delivers s.toDigestState 28 20 (SHA2.getHashVal s 20) (SHA2.getHashStr s 20) ∧
      Delivers s' 20 20 (SHA1.getHashVal s' 20) (SHA1.getHashStr s' 20) := by
  obtain ⟨-, -, hne, -⟩ := SHA2.hashed_start SHA2.iv224 .type224 [] [] (by decide) (show (1 : Int) ≠ 0 by decide)
  obtain ⟨-, -, hne', -⟩ := hashed SHA1.rounds SHA1.initState.h [] [] (by decide) (show (1 : Int) ≠ 0 by decide)
  exact (accessors_iff (show SHA2.Kind.type224.standard = _ from rfl) hne hne' 20).2 (by decide)

/-- A buffer of 64 bytes gets the counters and the message behind a digest of 32. -/
theorem not_delivers_sample :
    let s := (SHA2.digest { (initState SHA2.iv256 : DigestState 8) with type := .type256 } 1 []).2
    ¬Delivers s.toDigestState 32 64 (SHA2.getHashVal s 64) (SHA2.getHashStr s 64) := by
  obtain ⟨-, -, hne, -⟩ := SHA2.hashed_start SHA2.iv256 .type256 [] [] (by decide) (show (1 : Int) ≠ 0 by decide)
  exact (delivers_double_iff hne (by decide) (by decide) 64).not.2 (by decide)

end YieldStm32.Digest
