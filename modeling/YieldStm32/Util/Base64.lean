import YieldStm32.Lib.Rfc4648
import YieldStm32.Lib.Traced

/-!
# Base 64 (`util/src/base64.c`)

* `encode`, `decode` : what the functions return and write; `decode` notes every read of the input and of its table;
* `encode_eq` : the text is the encoding of the standard;
* `decode_of_encode` : it is decoded to the bytes it came from;
* `base64_round_trip` : both.
-/

namespace YieldStm32.Base64

/-- `err_t` -/
def efatal : Int := -1

/-- A pointer difference as `err_t`. -/
def count (n : Nat) : Int := (BitVec.ofNat 32 n).toInt

/-! ## Encoding -/

/-- `enc` -/
def enc : List UInt8 :=
  ['A', 'B', 'C', 'D', 'E', 'F', 'G', 'H',
   'I', 'J', 'K', 'L', 'M', 'N', 'O', 'P',
   'Q', 'R', 'S', 'T', 'U', 'V', 'W', 'X',
   'Y', 'Z', 'a', 'b', 'c', 'd', 'e', 'f',
   'g', 'h', 'i', 'j', 'k', 'l', 'm', 'n',
   'o', 'p', 'q', 'r', 's', 't', 'u', 'v',
   'w', 'x', 'y', 'z', '0', '1', '2', '3',
   '4', '5', '6', '7', '8', '9', '+', '/'].map (·.toNat.toUInt8)

/-- `enc[(value >> bits) & 0x3f]` -/
def encAt (value : BitVec 32) (bits : Nat) : UInt8 := enc.getD ((value >>> bits) &&& 0x3f).toNat 0

/-- `c << bits` -/
def shl (c : UInt8) (bits : Nat) : BitVec 32 := c.toBitVec.setWidth 32 <<< bits

/-- What remains behind the whole blocks. -/
def encodeRest : List UInt8 → List UInt8
  | [] => []
  | inp0 :: rest =>
      let value := match rest with
        | inp1 :: _ => shl inp0 16 ||| shl inp1 8
        | [] => shl inp0 16
      [encAt value 18, encAt value 12, if rest ≠ [] then encAt value 6 else '='.toNat.toUInt8, '='.toNat.toUInt8]

/-- The loop over the whole blocks, and what is behind it. -/
def encodeLoop : List UInt8 → List UInt8
  | inp0 :: inp1 :: inp2 :: rest =>
      let value := shl inp0 16 ||| shl inp1 8 ||| shl inp2 0
      encAt value 18 :: encAt value 12 :: encAt value 6 :: encAt value 0 :: encodeLoop rest
  | rest => encodeRest rest

/-- `Base64_Encode` : what is returned, and what is written. -/
def encode (inp : List UInt8) (outSize : Nat) : Int × List UInt8 :=
  if outSize < 4 * (inp.length + 2) % 2 ^ 32 / 3 then (efatal, [])
  else (count (encodeLoop inp).length, encodeLoop inp)

/-! ## Decoding -/

/-- `dec` -/
def decTable : List UInt8 :=
  [62, 64, 64, 64, 63, 52, 53, 54, 55, 56, 57, 58, 59, 60, 61, 64,
   64, 64, 0,  64, 64, 64,  0,  1,  2,  3,  4,  5,  6,  7,  8,  9,
   10, 11, 12, 13, 14, 15, 16, 17, 18, 19, 20, 21, 22, 23, 24, 25,
   64, 64, 64, 64, 64, 64, 26, 27, 28, 29, 30, 31, 32, 33, 34, 35,
   36, 37, 38, 39, 40, 41, 42, 43, 44, 45, 46, 47, 48, 49, 50, 51]

/-- A byte of the input, or an entry of the table. -/
inductive Access where
  | input (i : Int)
  | table (i : Int)
deriving DecidableEq

/-- The memory from the input on, and what lies around the table. -/
structure Memory where
  inp : Int → UInt8
  around : Int → UInt8

namespace Memory

/-- `dec[i]` -/
def dec (m : Memory) (i : Int) : UInt8 :=
  if 0 ≤ i ∧ i < decTable.length then decTable.getD i.toNat 0 else m.around i

/-- `inp[i]` -/
def read (m : Memory) (i : Int) : Traced Access UInt8 := .note (.input i) (m.inp i)

/-- `dec[*inp++ - '+']` -/
def lookup (m : Memory) (i : Int) : Traced Access UInt8 := do
  let c ← m.read i
  .note (.table (c.toNat - 43)) (m.dec (c.toNat - 43))

/-- Four characters. -/
def value (m : Memory) (i : Int) : Traced Access (BitVec 32) := do
  let a ← m.lookup i
  let b ← m.lookup (i + 1)
  let c ← m.lookup (i + 2)
  let d ← m.lookup (i + 3)
  pure (shl a 18 ||| shl b 12 ||| shl c 6 ||| shl d 0)

/-- `value >> bits`, as a byte -/
def byte (value : BitVec 32) (bits : Nat) : UInt8 := .ofBitVec ((value >>> bits).setWidth 8)

/-- The loop over the whole blocks, and the last one. -/
def decodeLoop (m : Memory) (i : Int) (inSize lastBlockSize : Nat) : Traced Access (List UInt8) :=
  if 4 < inSize then do
    let value ← m.value i
    let rest ← decodeLoop m (i + 4) (inSize - 4) lastBlockSize
    pure (byte value 16 :: byte value 8 :: byte value 0 :: rest)
  else if inSize ≠ 0 then do
    let value ← m.value i
    pure (byte value 16 :: ((if 1 < lastBlockSize then [byte value 8] else []) ++
      if 2 < lastBlockSize then [byte value 0] else []))
  else pure []
termination_by inSize

/-- `last_block_size`, from the last characters. -/
def lastBlockSize (c1 c2 : UInt8) : Nat :=
  3 - (if c1 = '='.toNat.toUInt8 then 1 else 0) - (if c2 = '='.toNat.toUInt8 then 1 else 0)

/-- `in_size * 3 / 4 - (3 - last_block_size)` -/
def needed (inSize lastBlockSize : Nat) : Nat := (inSize * 3 % 2 ^ 32 / 4 + 2 ^ 32 - (3 - lastBlockSize)) % 2 ^ 32

/-- What is behind the first checks. -/
def decodeAll (m : Memory) (inSize outSize lastBlockSize : Nat) : Traced Access (Int × List UInt8) :=
  if outSize < needed inSize lastBlockSize then pure (efatal, [])
  else do
    let out ← m.decodeLoop 0 inSize lastBlockSize
    pure (count out.length, out)

/-- `Base64_Decode` : what is returned, and what is written. -/
def decode (m : Memory) (inSize outSize : Nat) : Traced Access (Int × List UInt8) :=
  if inSize &&& 0x3 ≠ 0 then pure (efatal, [])
  else do
    let c1 ← m.read (inSize - 1)
    let c2 ← m.read (inSize - 2)
    m.decodeAll inSize outSize (lastBlockSize c1 c2)

end Memory

/-- A difference that fits. -/
theorem count_nonneg_iff {n : Nat} (h : n < 2 ^ 32) : 0 ≤ count n ↔ n < 2 ^ 31 := by
  have hnat : (BitVec.ofNat 32 n).toNat = n := by rw [BitVec.toNat_ofNat, Nat.mod_eq_of_lt h]
  rw [count, BitVec.toInt_eq_toNat_cond, hnat]
  split <;> omega

theorem count_of_lt {n : Nat} (h : n < 2 ^ 31) : count n = n := by
  have hnat : (BitVec.ofNat 32 n).toNat = n := by rw [BitVec.toNat_ofNat, Nat.mod_eq_of_lt (by omega)]
  rw [count, BitVec.toInt_eq_toNat_of_lt (by omega), hnat]

/-! ## The text -/

theorem enc_eq {v : Nat} (hv : v < 64) : enc.getD v 0 = Rfc4648.char v := by
  have hall : ∀ v < 64, enc.getD v 0 = Rfc4648.char v := by decide
  exact hall v hv

theorem encAt_eq (g : BitVec 24) (k : Nat) : encAt (g.setWidth 32) k = Rfc4648.char (Rfc4648.sextet g k).toNat := by
  have hlt := (Rfc4648.sextet g k).isLt
  unfold encAt
  rw [Rfc4648.sextet_eq, BitVec.toNat_setWidth, Nat.mod_eq_of_lt (by omega), enc_eq hlt]

theorem shl_zero (bits : Nat) : shl 0 bits = 0#32 := BitVec.zero_shiftLeft bits

theorem value_eq (a b c : UInt8) : shl a 16 ||| shl b 8 ||| shl c 0 = (Rfc4648.group a b c).setWidth 32 := by
  unfold shl
  rw [BitVec.shiftLeft_zero, Rfc4648.group_eq]

/-- The loop writes the encoding of the standard. -/
theorem encodeLoop_eq (inp : List UInt8) : encodeLoop inp = Rfc4648.encode inp := by
  induction inp using Rfc4648.encode.induct with
  | case1 => rfl
  | case2 a =>
      have hvalue := value_eq a 0 0
      rw [shl_zero, shl_zero, BitVec.or_zero, BitVec.or_zero] at hvalue
      simp only [encodeLoop, encodeRest, Rfc4648.encode, hvalue, encAt_eq]
      rfl
  | case3 a b =>
      have hvalue := value_eq a b 0
      rw [shl_zero, BitVec.or_zero] at hvalue
      simp only [encodeLoop, encodeRest, Rfc4648.encode, hvalue, encAt_eq]
      rfl
  | case4 a b c rest ih => simp only [encodeLoop, Rfc4648.encode, value_eq, encAt_eq, ih]

/-- The text is the encoding of the standard, or there is no room for as many characters as the check asks for. -/
theorem encode_eq {inp : List UInt8} (hlen : inp.length < 2 ^ 29) (outSize : Nat) :
    encode inp outSize =
      if outSize < 4 * (inp.length + 2) / 3 then (efatal, [])
      else (((Rfc4648.encode inp).length : Int), Rfc4648.encode inp) := by
  have hlength := Rfc4648.length_encode inp
  unfold encode
  rw [Nat.mod_eq_of_lt (by omega), encodeLoop_eq, count_of_lt (by omega)]

/-! ## The bytes -/

section

variable {m : Memory} {i : Int}

/-- The memory holds a text, from `i` on. -/
def Memory.Holds (m : Memory) (i : Int) (text : List UInt8) : Prop :=
  ∀ j : Nat, j < text.length → m.inp (i + j) = text.getD j 0

theorem Memory.Holds.append {text text' : List UInt8} (h : m.Holds i (text ++ text')) :
    m.Holds i text ∧ m.Holds (i + text.length) text' := by
  constructor
  · intro j hj
    rw [h j (by rw [List.length_append]; omega), List.getD_append _ _ _ _ hj]
  · intro j hj
    have hnext := h (text.length + j) (by rw [List.length_append]; omega)
    rw [List.getD_append_right _ _ _ _ (Nat.le_add_right _ _), Nat.add_sub_cancel_left, Int.natCast_add, ← Int.add_assoc] at hnext
    exact hnext

/-- The characters at `i` stand for parts of a group. -/
structure Memory.Packs (m : Memory) (i : Int) (g : BitVec 24) : Prop where
  a : shl (m.lookup i).val 18 = (Rfc4648.sextet g 18).setWidth 32 <<< 18
  b : shl (m.lookup (i + 1)).val 12 = (Rfc4648.sextet g 12).setWidth 32 <<< 12
  c : shl (m.lookup (i + 2)).val 6 = (Rfc4648.sextet g 6).setWidth 32 <<< 6
  d : shl (m.lookup (i + 3)).val 0 = (Rfc4648.sextet g 0).setWidth 32 <<< 0

theorem Memory.Packs.value {g : BitVec 24} (h : m.Packs i g) : (m.value i).val = g.setWidth 32 := by
  have hpack := Rfc4648.pack_sextets g
  show shl (m.lookup i).val 18 ||| shl (m.lookup (i + 1)).val 12 ||| shl (m.lookup (i + 2)).val 6 |||
    shl (m.lookup (i + 3)).val 0 = _
  rw [h.a, h.b, h.c, h.d, BitVec.shiftLeft_zero, hpack]

/-- The value of a character. -/
theorem lookup_char {v : Nat} (hv : v < 64) (h : m.inp i = Rfc4648.char v) : (m.lookup i).val = v.toUInt8 := by
  have hall : ∀ v < 64, 43 ≤ (Rfc4648.char v).toNat ∧ (Rfc4648.char v).toNat < 43 + 80 ∧
      decTable.getD ((Rfc4648.char v).toNat - 43) 0 = v.toUInt8 := by
    decide
  obtain ⟨hlow, hhigh, hdec⟩ := hall v hv
  have hindex : (((Rfc4648.char v).toNat : Int) - 43).toNat = (Rfc4648.char v).toNat - 43 := by omega
  show m.dec ((m.inp i).toNat - 43) = _
  rw [h, Memory.dec, if_pos ⟨by omega, by show _ < (80 : Int); omega⟩, hindex, hdec]

/-- "=" stands for zeros. -/
theorem lookup_pad (h : m.inp i = Rfc4648.pad) : (m.lookup i).val = 0 := by
  show m.dec ((m.inp i).toNat - 43) = 0
  rw [h]
  rfl

theorem shl_lookup {x : BitVec 6} (h : m.inp i = Rfc4648.char x.toNat) (bits : Nat) :
    shl (m.lookup i).val bits = x.setWidth 32 <<< bits := by
  have hlt := x.isLt
  have hx : x.toNat.toUInt8.toBitVec.setWidth 32 = x.setWidth 32 := by
    refine BitVec.eq_of_toNat_eq ?_
    rw [BitVec.toNat_setWidth, BitVec.toNat_setWidth, UInt8.toNat_toBitVec, UInt8.toNat_ofNat']
    omega
  rw [lookup_char hlt h, shl, hx]

theorem shl_lookup_pad {x : BitVec 6} (hx : x = 0) (h : m.inp i = Rfc4648.pad) (bits : Nat) :
    shl (m.lookup i).val bits = x.setWidth 32 <<< bits := by
  rw [lookup_pad h, hx]
  rfl

/-- The characters of a group, and those of the last one. -/
theorem packs_group {a b c : UInt8} {rest : List UInt8} (h : m.Holds i (Rfc4648.encode (a :: b :: c :: rest))) :
    m.Packs i (Rfc4648.group a b c) where
  a := by
    have hchar := h 0 (Nat.succ_pos _)
    rw [Int.natCast_zero, Int.add_zero] at hchar
    exact shl_lookup hchar 18
  b := shl_lookup (h 1 (Nat.succ_lt_succ (Nat.succ_pos _))) 12
  c := shl_lookup (h 2 (Nat.succ_lt_succ (Nat.succ_lt_succ (Nat.succ_pos _)))) 6
  d := shl_lookup (h 3 (Nat.succ_lt_succ (Nat.succ_lt_succ (Nat.succ_lt_succ (Nat.succ_pos _))))) 0

theorem packs_two {a b : UInt8} (h : m.Holds i (Rfc4648.encode [a, b])) : m.Packs i (Rfc4648.group a b 0) where
  a := by
    have hchar := h 0 (show 0 < 4 by decide)
    rw [Int.natCast_zero, Int.add_zero] at hchar
    exact shl_lookup hchar 18
  b := shl_lookup (h 1 (show 1 < 4 by decide)) 12
  c := shl_lookup (h 2 (show 2 < 4 by decide)) 6
  d := shl_lookup_pad (Rfc4648.sextet_zero a b).2.2 (h 3 (show 3 < 4 by decide)) 0

theorem packs_one {a : UInt8} (h : m.Holds i (Rfc4648.encode [a])) : m.Packs i (Rfc4648.group a 0 0) where
  a := by
    have hchar := h 0 (show 0 < 4 by decide)
    rw [Int.natCast_zero, Int.add_zero] at hchar
    exact shl_lookup hchar 18
  b := shl_lookup (h 1 (show 1 < 4 by decide)) 12
  c := shl_lookup_pad (Rfc4648.sextet_zero a 0).1 (h 2 (show 2 < 4 by decide)) 6
  d := shl_lookup_pad (Rfc4648.sextet_zero a 0).2.1 (h 3 (show 3 < 4 by decide)) 0

/-- The bytes of a group are unpacked from its characters. -/
theorem byte_group (a b c : UInt8) :
    Memory.byte ((Rfc4648.group a b c).setWidth 32) 16 = a ∧ Memory.byte ((Rfc4648.group a b c).setWidth 32) 8 = b ∧
      Memory.byte ((Rfc4648.group a b c).setWidth 32) 0 = c := by
  obtain ⟨ha, hb, hc⟩ := Rfc4648.group_bytes a b c
  unfold Memory.byte
  rw [BitVec.ushiftRight_zero, ha, hb, hc]
  exact ⟨rfl, rfl, rfl⟩

/-- The size of the last block. -/
def lastOf (xs : List UInt8) : Nat := if xs.length % 3 = 0 then 3 else xs.length % 3

/-- The characters behind those of the first group. -/
theorem holds_rest {a b c : UInt8} {rest : List UInt8} (h : m.Holds i (Rfc4648.encode (a :: b :: c :: rest))) :
    m.Holds (i + 4) (Rfc4648.encode rest) := by
  intro j hj
  have hnext := h (j + 4) (by simp only [Rfc4648.encode, List.length_cons]; omega)
  rw [Int.natCast_add, Int.add_comm (j : Int), ← Int.add_assoc] at hnext
  exact hnext

/-- The loop writes the bytes that were encoded. -/
theorem decodeLoop_encode {xs : List UInt8} (h : m.Holds i (Rfc4648.encode xs)) :
    (m.decodeLoop i (Rfc4648.encode xs).length (lastOf xs)).val = xs := by
  induction xs using Rfc4648.encode.induct generalizing i with
  | case1 =>
      rw [Memory.decodeLoop]
      rfl
  | case2 a =>
      obtain ⟨ha, -, -⟩ := byte_group a 0 0
      have hlen : (Rfc4648.encode [a]).length = 4 := by simp only [Rfc4648.encode, List.length_cons, List.length_nil]
      rw [hlen, Memory.decodeLoop, if_neg (by decide), if_pos (by decide), Traced.val_bind, (packs_one h).value, ha]
      rfl
  | case3 a b =>
      obtain ⟨ha, hb, -⟩ := byte_group a b 0
      have hlen : (Rfc4648.encode [a, b]).length = 4 := by simp only [Rfc4648.encode, List.length_cons, List.length_nil]
      rw [hlen, Memory.decodeLoop, if_neg (by decide), if_pos (by decide), Traced.val_bind, (packs_two h).value, ha, hb]
      rfl
  | case4 a b c rest ih =>
      obtain ⟨ha, hb, hc⟩ := byte_group a b c
      have hlen := Rfc4648.length_encode (a :: b :: c :: rest)
      rw [Rfc4648.length_encode] at ih
      have hlast : lastOf (a :: b :: c :: rest) = lastOf rest := by
        have hmod : (a :: b :: c :: rest).length % 3 = rest.length % 3 := Nat.add_mod_right rest.length 3
        unfold lastOf
        rw [hmod]
      cases rest with
      | nil =>
          have hsize : (Rfc4648.encode [a, b, c]).length = 4 := by simp only [Rfc4648.encode, List.length_cons, List.length_nil]
          rw [hsize, hlast, Memory.decodeLoop, if_neg (by decide), if_pos (by decide), Traced.val_bind, (packs_group h).value,
            ha, hb, hc]
          rfl
      | cons d rest =>
          have hsize : 4 * (((a :: b :: c :: d :: rest).length + 2) / 3) = 4 * (((d :: rest).length + 2) / 3) + 4 := by
            simp only [List.length_cons]
            omega
          have hpos : 0 < 4 * (((d :: rest).length + 2) / 3) := by
            simp only [List.length_cons]
            omega
          rw [hlen, hsize, hlast, Memory.decodeLoop, if_pos (by omega), Traced.val_bind, Traced.val_bind,
            (packs_group h).value, Nat.add_sub_cancel, ih (holds_rest h), ha, hb, hc]
          rfl

theorem char_ne_pad (x : BitVec 6) : Rfc4648.char x.toNat ≠ Rfc4648.pad := by
  have hall : ∀ v < 64, Rfc4648.char v ≠ Rfc4648.pad := by decide
  exact hall _ x.isLt

/-- The last characters of a text. -/
theorem getD_encode_last {xs : List UInt8} (hne : xs ≠ []) :
    ((Rfc4648.encode xs).getD ((Rfc4648.encode xs).length - 1) 0 = Rfc4648.pad ↔ xs.length % 3 ≠ 0) ∧
      ((Rfc4648.encode xs).getD ((Rfc4648.encode xs).length - 2) 0 = Rfc4648.pad ↔ xs.length % 3 = 1) := by
  induction xs using Rfc4648.encode.induct with
  | case1 => exact absurd rfl hne
  | case2 a => simp [Rfc4648.encode]
  | case3 a b => simp [Rfc4648.encode, char_ne_pad]
  | case4 a b c rest ih =>
      have hlen := Rfc4648.length_encode rest
      have hmod : (a :: b :: c :: rest).length % 3 = rest.length % 3 := Nat.add_mod_right rest.length 3
      cases rest with
      | nil => simp [Rfc4648.encode, char_ne_pad]
      | cons d rest =>
          have hfour : 4 ≤ (Rfc4648.encode (d :: rest)).length := by
            rw [hlen, List.length_cons]
            omega
          have hsize : (Rfc4648.encode (a :: b :: c :: d :: rest)).length = (Rfc4648.encode (d :: rest)).length + 4 := by
            simp only [Rfc4648.encode, List.length_cons]
          have hnext (k : Nat) : (Rfc4648.encode (a :: b :: c :: d :: rest)).getD (k + 4) 0 =
              (Rfc4648.encode (d :: rest)).getD k 0 := by
            rw [Rfc4648.encode]
            rfl
          obtain ⟨hlast, hlast'⟩ := ih (List.cons_ne_nil d rest)
          rw [hmod, hsize, Nat.sub_add_comm (by omega), Nat.sub_add_comm (by omega), hnext, hnext]
          exact ⟨hlast, hlast'⟩

/-- The two reads before the size of the last block is known. -/
theorem reads_val {β : Type} (m : Memory) (i j : Int) (g : UInt8 → UInt8 → Nat) (f : Nat → Traced Access β) :
    (do
      let c1 ← m.read i
      let c2 ← m.read j
      f (g c1 c2)).val = (f (g (m.inp i) (m.inp j))).val := rfl

theorem decode_val (m : Memory) (inSize outSize : Nat) :
    (m.decode inSize outSize).val =
      if inSize % 4 ≠ 0 then (efatal, [])
      else (m.decodeAll inSize outSize (Memory.lastBlockSize (m.inp (inSize - 1)) (m.inp (inSize - 2)))).val := by
  have hmask : inSize &&& 0x3 = inSize % 4 := Nat.and_two_pow_sub_one_eq_mod inSize 2
  unfold Memory.decode
  rw [hmask, Traced.val_ite, Traced.val_pure,
    reads_val m (inSize - 1) (inSize - 2) Memory.lastBlockSize (m.decodeAll inSize outSize)]

theorem decodeAll_val (m : Memory) (inSize outSize lastBlockSize : Nat) :
    (m.decodeAll inSize outSize lastBlockSize).val =
      if outSize < Memory.needed inSize lastBlockSize then (efatal, [])
      else
        (count (m.decodeLoop 0 inSize lastBlockSize).val.length, (m.decodeLoop 0 inSize lastBlockSize).val) := by
  unfold Memory.decodeAll
  rw [Traced.val_ite, Traced.val_bind, Traced.val_pure, Traced.val_pure]

/-- **A text is decoded to the bytes it came from.** -/
theorem decode_of_encode {xs : List UInt8} (hne : xs ≠ []) (hlen : xs.length < 2 ^ 29) {outSize : Nat} (hout : xs.length ≤ outSize)
    (h : m.Holds 0 (Rfc4648.encode xs)) : (m.decode (Rfc4648.encode xs).length outSize).val = ((xs.length : Int), xs) := by
  have hlength := Rfc4648.length_encode xs
  have hpos := List.length_pos_iff.2 hne
  have hread {k : Nat} (hk : 0 < k) (hk' : k ≤ 4) : m.inp ((Rfc4648.encode xs).length - k) =
      (Rfc4648.encode xs).getD ((Rfc4648.encode xs).length - k) 0 := by
    have hcell := h ((Rfc4648.encode xs).length - k) (by omega)
    rwa [Int.zero_add, Int.natCast_sub (by omega)] at hcell
  have hlast : Memory.lastBlockSize (m.inp ((Rfc4648.encode xs).length - 1)) (m.inp ((Rfc4648.encode xs).length - 2)) =
      lastOf xs := by
    obtain ⟨hone, htwo⟩ := getD_encode_last hne
    rw [← hread (show 0 < 1 by decide) (by decide), Int.natCast_one] at hone
    rw [← hread (show 0 < 2 by decide) (by decide), show ((2 : Nat) : Int) = 2 from rfl] at htwo
    have hcases : xs.length % 3 = 0 ∨ xs.length % 3 = 1 ∨ xs.length % 3 = 2 := by omega
    unfold Memory.lastBlockSize lastOf
    rw [show '='.toNat.toUInt8 = Rfc4648.pad from rfl, if_congr hone rfl rfl, if_congr htwo rfl rfl]
    rcases hcases with hmod | hmod | hmod <;> rw [hmod] <;> rfl
  have hneeded : Memory.needed (Rfc4648.encode xs).length (lastOf xs) = xs.length := by
    have hsize : 4 * ((xs.length + 2) / 3) * 3 % 2 ^ 32 / 4 = 3 * ((xs.length + 2) / 3) := by
      rw [Nat.mod_eq_of_lt (by omega)]
      omega
    unfold Memory.needed lastOf
    rw [hlength, hsize]
    split <;> omega
  rw [decode_val, if_neg (by omega), decodeAll_val, hlast, hneeded, if_neg (by omega), decodeLoop_encode h,
    count_of_lt (by omega)]

end

/-- **What is encoded is decoded again**: the text is that of the standard, and has room in the output. -/
theorem base64_round_trip {xs : List UInt8} (hne : xs ≠ []) (hlen : xs.length < 2 ^ 29) (outSize : Nat) :
    (encode xs outSize = (efatal, []) ∨
      encode xs outSize = (((4 * ((xs.length + 2) / 3) : Nat) : Int), Rfc4648.encode xs) ∧
        (Rfc4648.encode xs).length = 4 * ((xs.length + 2) / 3) ∧ 4 * ((xs.length + 2) / 3) ≤ outSize) ∧
      ∀ (m : Memory) (outSize' : Nat), xs.length ≤ outSize' → m.Holds 0 (Rfc4648.encode xs) →
        (m.decode (Rfc4648.encode xs).length outSize').val = ((xs.length : Int), xs) := by
  refine ⟨?_, fun m outSize' hout h => decode_of_encode hne hlen hout h⟩
  have hlength := Rfc4648.length_encode xs
  rw [encode_eq hlen]
  by_cases hroom : outSize < 4 * (xs.length + 2) / 3
  · rw [if_pos hroom]
    exact .inl rfl
  · rw [if_neg hroom, hlength]
    exact .inr ⟨rfl, rfl, by omega⟩

theorem base64_round_trip_sample :
    (Memory.decode ⟨fun i => (Rfc4648.encode [102, 111, 111, 98]).getD i.toNat 0, fun _ => 0⟩ 8 4).val =
      (4, [102, 111, 111, 98]) :=
  (base64_round_trip (List.cons_ne_nil 102 [111, 111, 98]) (by decide) 8).2 _ 4 (Nat.le_refl 4) fun j _ => by
    dsimp only
    rw [Int.zero_add, Int.toNat_natCast]

end YieldStm32.Base64
