import Mathlib.Tactic.IntervalCases
import YieldStm32.Util.Digest

/-!
# A message fed in chunks

* `block_copyOut` : the words that are taken in are those of the bytes in the buffer;
* `schedule_eq` : the words of a schedule;
* `Buffers` : the message bytes that a state has not taken in yet;
* `digestLoop_block`, `digestLoop_rest`, `digestLoop_end`, `digestLoop_full` : the passes of the loop;
* `digest_chunk`, `digest_last` : the calls, for a state that has absorbed a message;
* `getHashVal_of_le` : the hash value, where no more than the hash words are asked for;
* `hashed` : all calls for a message.
-/

namespace YieldStm32.Digest

open Fips180 (Word Block wordBytes lengthBytes block)
open Ring (copyIn copyOut)
open Blockwise

/-! ## Byte order -/

section

variable (a b c d : BitVec 8)

theorem htobe32_append :
    htobe32 ((d ++ c : BitVec 16) ++ (b ++ a : BitVec 16)) = (a ++ b : BitVec 16) ++ (c ++ d : BitVec 16) := by
  unfold htobe32
  apply BitVec.eq_of_getLsbD_eq
  intro i hi
  simp only [BitVec.getLsbD_or, BitVec.getLsbD_shiftLeft, BitVec.getLsbD_ushiftRight, BitVec.getLsbD_and,
    BitVec.getLsbD_append]
  interval_cases i <;> simp

theorem extract_pair : (b ++ a : BitVec 16).extractLsb' 8 8 = b ∧ (b ++ a : BitVec 16).extractLsb' 0 8 = a := by
  constructor
  · rw [BitVec.extractLsb'_append_eq_of_le (by decide)]
    exact BitVec.extractLsb'_eq_self
  · rw [BitVec.extractLsb'_append_eq_of_add_le (by decide)]
    exact BitVec.extractLsb'_eq_self

theorem extract_append :
    ((d ++ c : BitVec 16) ++ (b ++ a : BitVec 16)).extractLsb' 24 8 = d ∧
    ((d ++ c : BitVec 16) ++ (b ++ a : BitVec 16)).extractLsb' 16 8 = c ∧
    ((d ++ c : BitVec 16) ++ (b ++ a : BitVec 16)).extractLsb' 8 8 = b ∧
    ((d ++ c : BitVec 16) ++ (b ++ a : BitVec 16)).extractLsb' 0 8 = a := by
  obtain ⟨hd, hc⟩ := extract_pair c d
  obtain ⟨hb, ha⟩ := extract_pair a b
  refine ⟨?_, ?_, ?_, ?_⟩
  · rw [BitVec.extractLsb'_append_eq_of_le (by decide)]
    exact hd
  · rw [BitVec.extractLsb'_append_eq_of_le (by decide)]
    exact hc
  · rw [BitVec.extractLsb'_append_eq_of_add_le (by decide)]
    exact hb
  · rw [BitVec.extractLsb'_append_eq_of_add_le (by decide)]
    exact ha

end

/-- A word is its bytes. -/
theorem exists_bytes (x : Word) : ∃ a b c d : BitVec 8, x = (d ++ c : BitVec 16) ++ (b ++ a : BitVec 16) := by
  refine ⟨x.extractLsb' 0 8, x.extractLsb' 8 8, x.extractLsb' 16 8, x.extractLsb' 24 8, ?_⟩
  have hhigh : x.extractLsb' 24 8 ++ x.extractLsb' 16 8 = x.extractLsb' 16 16 :=
    BitVec.extractLsb'_append_extractLsb'_eq_extractLsb' rfl
  have hlow : x.extractLsb' 8 8 ++ x.extractLsb' 0 8 = x.extractLsb' 0 16 :=
    BitVec.extractLsb'_append_extractLsb'_eq_extractLsb' rfl
  rw [hhigh, hlow]
  exact (@BitVec.extractLsb'_append_extractLsb' 16 16 x).symm

theorem leBytes_htobe32 (x : Word) : leBytes (htobe32 x) = wordBytes x := by
  obtain ⟨a, b, c, d, rfl⟩ := exists_bytes x
  obtain ⟨hd, hc, hb, ha⟩ := extract_append a b c d
  obtain ⟨ha', hb', hc', hd'⟩ := extract_append d c b a
  unfold leBytes wordBytes
  rw [htobe32_append, ha, hb, hc, hd, ha', hb', hc', hd']

section

variable (w : Nat → UInt8) (x : Word)

theorem u32_setU32_self (i : Nat) : u32 (setU32 w i x) i = x := by
  obtain ⟨a, b, c, d, rfl⟩ := exists_bytes x
  obtain ⟨hd, hc, hb, ha⟩ := extract_append a b c d
  have hcell {k : Nat} (hk : k < 4) : setU32 w i ((d ++ c : BitVec 16) ++ (b ++ a : BitVec 16)) (4 * i + k) =
      [UInt8.ofBitVec a, .ofBitVec b, .ofBitVec c, .ofBitVec d].get ⟨k, hk⟩ := by
    unfold setU32 leBytes
    rw [ha, hb, hc, hd, copyIn, dif_pos (by simp; omega)]
    simp
  unfold u32
  rw [hcell (k := 3) (by decide), hcell (k := 2) (by decide), hcell (k := 1) (by decide)]
  exact congrArg _ (congrArg (b ++ ·.toBitVec) (hcell (k := 0) (by decide)))

theorem u32_setU32_of_ne {i j : Nat} (h : i ≠ j) : u32 (setU32 w j x) i = u32 w i := by
  have hcell {k : Nat} (hk : k < 4) : setU32 w j x (4 * i + k) = w (4 * i + k) := by
    have hlen : (leBytes x).length = 4 := rfl
    exact dif_neg (by rw [hlen]; omega)
  unfold u32
  rw [hcell (k := 3) (by decide), hcell (k := 2) (by decide), hcell (k := 1) (by decide)]
  exact congrArg _ (congrArg (_ ++ ·.toBitVec) (hcell (k := 0) (by decide)))

end

theorem u32_swapWords (w : Nat → UInt8) {t : Nat} (h : t < 16) : u32 (swapWords w) t = htobe32 (u32 w t) := by
  have hstep (n : Nat) : u32 ((List.range n).foldl (fun w i => setU32 w i (htobe32 (u32 w i))) w) t =
      if t < n then htobe32 (u32 w t) else u32 w t := by
    induction n with
    | zero => rfl
    | succ n ih =>
        rw [List.range_succ, List.foldl_append, List.foldl_cons, List.foldl_nil]
        by_cases hn : t = n
        · subst hn
          rw [u32_setU32_self, ih, if_neg (Nat.lt_irrefl t), if_pos (Nat.lt_succ_self t)]
        · rw [u32_setU32_of_ne _ _ hn, ih]
          exact if_congr (by omega) rfl rfl
  exact (hstep 16).trans (if_pos h)

/-- The words that are taken in are those of the bytes. -/
theorem block_copyOut (w : Nat → UInt8) : block (copyOut w 0 64) = fun t : Fin 16 => u32 (swapWords w) t := by
  funext t
  have hcell {k : Nat} (hk : k < 4) : (copyOut w 0 64).getD (4 * t + k) 0 = w (4 * t + k) := by
    rw [List.getD_eq_getElem?_getD, copyOut, List.getElem?_map, List.getElem?_range (by omega), Option.map_some]
    exact congrArg w (Nat.zero_add _)
  rw [u32_swapWords w t.isLt]
  unfold block u32
  dsimp only
  rw [htobe32_append, hcell (k := 0) (by decide), hcell (k := 1) (by decide), hcell (k := 2) (by decide),
    hcell (k := 3) (by decide)]
  rfl

/-! ## Schedules -/

/-- A schedule that begins with the words of the block, and goes on as `next` says, which looks back only. -/
theorem schedule_eq {n : Nat} {next : (Nat → Word) → Nat → Word} {input : Block} {words : Nat → Word}
    (hinput : ∀ t : Fin 16, words t = input t) (hnext : ∀ t, 16 ≤ t → words t = next words t)
    (hback : ∀ out out' t, 16 ≤ t → (∀ j < t, out j = out' j) → next out t = next out' t) {t : Nat} (ht : t < n) :
    schedule n next input t = words t := by
  have hstep (k : Nat) : ∀ j < 16 + k,
      (List.range' 16 k).foldl (fun out i => fun j => if j = i then next out i else out j)
        (fun j => if h : j < 16 then input ⟨j, h⟩ else 0) j = words j := by
    induction k with
    | zero => exact fun j hj => (dif_pos hj).trans (hinput ⟨j, hj⟩).symm
    | succ k ih =>
        intro j hj
        rw [List.range'_concat, List.foldl_append, List.foldl_cons, List.foldl_nil, Nat.one_mul]
        by_cases hjk : j = 16 + k
        · rw [if_pos hjk, hjk, hnext _ (Nat.le_add_right 16 k)]
          exact hback _ _ _ (Nat.le_add_right 16 k) ih
        · rw [if_neg hjk]
          exact ih j (by omega)
  exact hstep (n - 16) t (by omega)

/-! ## The passes of the loop -/

section

variable {n : Nat} {compress : Vector Word n → Block → Vector Word n} {s : DigestState n} {h : Vector Word n}
variable {r p : List UInt8} {totalLen : BitVec 32} {finalized final : Int}

/-- A block of bytes. -/
def takeIn (compress : Vector Word n → Block → Vector Word n) (h : Vector Word n) (bytes : List UInt8) : Vector Word n :=
  compress h (block bytes)

/-- The bytes `r` are waiting in the buffer. -/
structure Buffers (s : DigestState n) (h : Vector Word n) (r : List UInt8) (totalLen : BitVec 32) (finalized : Int) :
    Prop where
  h : s.h = h
  wLen : s.wLen = r.length
  w : copyOut s.w 0 r.length = r
  totalLen : s.totalLen = totalLen
  finalized : s.finalized = finalized

theorem Buffers.fill (hs : Buffers s h r totalLen finalized) (p : List UInt8) :
    Buffers (s.fill p) h (r ++ p) totalLen finalized where
  h := hs.h
  wLen := by
    show s.wLen + p.length = _
    rw [hs.wLen, List.length_append]
  w := by
    show copyOut (copyIn s.w s.wLen p) 0 _ = _
    rw [hs.wLen, List.length_append, Ring.copyOut_copyIn, hs.w]
  totalLen := hs.totalLen
  finalized := hs.finalized

theorem fill_of_length (s : DigestState n) (k : Nat) (p : List UInt8) :
    (if k ≠ 0 then s.fill (p.take k) else s) = s.fill (p.take k) := by
  by_cases hk : k = 0
  · rw [if_neg (not_not.2 hk), hk, List.take_zero]
    unfold DigestState.fill
    rw [Ring.copyIn_nil]
    rfl
  · rw [if_pos hk]

/-- The bytes of a full buffer are taken in. -/
theorem Buffers.process {bytes : List UInt8} (hh : s.h = h) (hw : copyOut s.w 0 64 = bytes) (htotal : s.totalLen = totalLen)
    (hfinal : s.finalized = finalized) : Buffers (s.process compress) (takeIn compress h bytes) [] totalLen finalized where
  h := by
    show compress s.h _ = compress h (block bytes)
    rw [← hw, block_copyOut, hh]
  wLen := rfl
  w := rfl
  totalLen := htotal
  finalized := hfinal

/-- What is behind the bytes is cleared, but for the one that ends the message. -/
theorem Buffers.clear (hs : Buffers s h r totalLen finalized) {k : Nat} (hk : r.length + (k + 1) = 64) (trailing : Bool) :
    copyOut (s.clear (k + 1) trailing).w 0 64 = r ++ (if trailing then 0 else 0x80) :: List.replicate k 0 := by
  have hend (c : UInt8) : copyOut (copyIn s.w s.wLen (c :: List.replicate k 0)) 0 64 = r ++ c :: List.replicate k 0 := by
    have hlen : (c :: List.replicate k 0).length = k + 1 := by rw [List.length_cons, List.length_replicate]
    rw [← hk, ← hlen, hs.wLen, Ring.copyOut_copyIn, hs.w]
  have hzeros : List.replicate (k + 1) (0 : UInt8) = 0 :: List.replicate k 0 := rfl
  unfold DigestState.clear
  dsimp only
  rw [hzeros]
  cases trailing with
  | true => exact hend 0
  | false =>
      show copyOut (copyIn (copyIn s.w s.wLen (0 :: List.replicate k 0)) s.wLen [0x80]) 0 64 = _
      rw [Ring.copyIn_head]
      exact hend 0x80

/-- The length takes the place of the last eight bytes. -/
theorem copyOut_putLength (s : DigestState n) {xs ys : List UInt8} (hxs : xs.length = 56) (hw : copyOut s.w 0 64 = xs ++ ys) :
    copyOut s.putLength.w 0 64 = xs ++ lengthBytes (s.totalLen.zeroExtend 64 * 8) := by
  have hhigh (x : BitVec 64) : (x >>> 32).truncate 32 = x.extractLsb' 32 32 := by
    apply BitVec.eq_of_getLsbD_eq
    intro i hi
    simp [hi]
  have hlow (x : BitVec 64) : x.truncate 32 = x.extractLsb' 0 32 := by
    apply BitVec.eq_of_getLsbD_eq
    intro i hi
    simp [hi]
  have hfront : copyOut s.w 0 56 = xs := by
    rw [show 64 = 56 + 8 by decide, Ring.copyOut_add] at hw
    exact (List.append_inj hw (by rw [Ring.length_copyOut, hxs])).1
  unfold DigestState.putLength setU32
  dsimp only
  rw [leBytes_htobe32, leBytes_htobe32, hhigh, hlow]
  generalize s.totalLen.zeroExtend 64 * 8 = l
  have hlast := Ring.copyOut_copyIn (copyIn s.w 56 (wordBytes (l.extractLsb' 32 32))) 60 (wordBytes (l.extractLsb' 0 32))
  have hnext := Ring.copyOut_copyIn s.w 56 (wordBytes (l.extractLsb' 32 32))
  refine hlast.trans ?_
  rw [show 60 = 56 + (wordBytes (l.extractLsb' 32 32)).length from rfl, hnext, hfront, List.append_assoc]
  rfl

variable (compress)

/-- The buffer gets full. -/
theorem digestLoop_block (hs : Buffers s h r totalLen finalized) (hr : r.length < 64) (hp : 64 ≤ r.length + p.length)
    (final : Int) (trailing : Bool) :
    ∃ s', digestLoop compress final s p trailing = digestLoop compress final s' (p.drop (64 - r.length)) trailing ∧
      Buffers s' (takeIn compress h (r ++ p.take (64 - r.length))) [] totalLen finalized := by
  have hcopy : min (64 - s.wLen) p.length = 64 - r.length := by
    rw [hs.wLen]
    omega
  have hleft : 64 - s.wLen - (64 - r.length) = 0 := by
    rw [hs.wLen]
    omega
  have hfull := hs.fill (p.take (64 - r.length))
  have hlen : (r ++ p.take (64 - r.length)).length = 64 := by
    rw [List.length_append, List.length_take]
    omega
  have hw := hfull.w
  rw [hlen] at hw
  refine ⟨(s.fill (p.take (64 - r.length))).process compress, ?_, .process hfull.h hw hfull.totalLen hfull.finalized⟩
  rw [digestLoop]
  dsimp only
  rw [hcopy, hleft, fill_of_length, if_neg fun hne => hne.1 rfl, if_neg (not_not.2 rfl), if_neg (by decide)]
  exact congrArg _ (Bool.or_false trailing)

/-- It does not, and more chunks are to come. -/
theorem digestLoop_rest (hs : Buffers s h r totalLen finalized) (hp : r.length + p.length < 64) (trailing : Bool) :
    ∃ s', digestLoop compress 0 s p trailing = (false, s') ∧ Buffers s' h (r ++ p) totalLen finalized := by
  have hcopy : min (64 - s.wLen) p.length = p.length := by
    rw [hs.wLen]
    omega
  have hleft : 64 - s.wLen - p.length ≠ 0 := by
    rw [hs.wLen]
    omega
  refine ⟨s.fill p, ?_, hs.fill p⟩
  rw [digestLoop]
  dsimp only
  rw [hcopy, fill_of_length, List.take_length, if_pos ⟨hleft, rfl⟩]

/-- The message ends here, and its length has no room in this block. -/
theorem digestLoop_full (hs : Buffers s h r totalLen finalized) (hfinal : final ≠ 0) {k : Nat}
    (hp : (r ++ p).length + (k + 1) = 64) (hk : k < 8) :
    ∃ s', digestLoop compress final s p false = digestLoop compress final s' [] true ∧
      Buffers s' (takeIn compress h (r ++ p ++ 0x80 :: List.replicate k 0)) [] totalLen finalized := by
  have hlen := hp
  rw [List.length_append] at hlen
  have hcopy : min (64 - s.wLen) p.length = p.length := by
    rw [hs.wLen]
    omega
  have hleft : 64 - s.wLen - p.length = k + 1 := by
    rw [hs.wLen]
    omega
  have hfull := hs.fill p
  refine ⟨((s.fill p).clear (k + 1) false).process compress, ?_,
    .process hfull.h (hfull.clear hp false) hfull.totalLen hfull.finalized⟩
  rw [digestLoop]
  dsimp only
  rw [hcopy, hleft, fill_of_length, List.take_length, List.drop_length, if_neg fun hzero => hfinal hzero.2,
    if_pos (Nat.succ_ne_zero k), if_neg (by omega)]
  rfl

/-- The message ends in this block, with its length. -/
theorem digestLoop_end (hs : Buffers s h r totalLen finalized) (hfinal : final ≠ 0) {k : Nat}
    (hp : (r ++ p).length + (k + 1) = 56) (trailing : Bool) :
    ∃ s', digestLoop compress final s p trailing = (true, s') ∧ s'.finalized = finalized ∧
      s'.h = takeIn compress h (r ++ p ++ (if trailing then 0 else 0x80) :: List.replicate k 0 ++
        lengthBytes (totalLen.zeroExtend 64 * 8)) := by
  have hlen := hp
  rw [List.length_append] at hlen
  have hcopy : min (64 - s.wLen) p.length = p.length := by
    rw [hs.wLen]
    omega
  have hleft : 64 - s.wLen - p.length = k + 8 + 1 := by
    rw [hs.wLen]
    omega
  have hfull := hs.fill p
  have hw := hfull.clear (k := k + 8) (by omega) trailing
  rw [List.replicate_add, ← List.cons_append, ← List.append_assoc] at hw
  have hlength : (r ++ p ++ (if trailing then 0 else 0x80) :: List.replicate k (0 : UInt8)).length = 56 := by
    rw [List.length_append, List.length_cons, List.length_replicate]
    exact hp
  have hput := copyOut_putLength ((s.fill p).clear (k + 8 + 1) trailing) hlength hw
  have htotal : ((s.fill p).clear (k + 8 + 1) trailing).totalLen = totalLen := hfull.totalLen
  rw [htotal] at hput
  have hprocess : Buffers (((s.fill p).clear (k + 8 + 1) trailing).putLength.process compress) _ _ _ _ :=
    .process hfull.h hput hfull.totalLen hfull.finalized
  refine ⟨_, ?_, hprocess.finalized, hprocess.h⟩
  rw [digestLoop]
  dsimp only
  rw [hcopy, hleft, fill_of_length, List.take_length, if_neg fun hzero => hfinal hzero.2, if_pos (Nat.succ_ne_zero _),
    if_pos (by omega)]

end

/-! ## Messages -/

section

variable {n : Nat} {compress : Vector Word n → Block → Vector Word n} {iv : Vector Word n} {s : DigestState n}
variable {totalLen : BitVec 32} {finalized : Int}

/-- The complete blocks are taken in, however many there are. -/
theorem digestLoop_blocks (final : Int) (trailing : Bool) (p : List UInt8) {s : DigestState n} {h : Vector Word n}
    {r : List UInt8} (hs : Buffers s h r totalLen finalized) (hr : r.length < 64) :
    ∃ s' r' p', digestLoop compress final s p trailing = digestLoop compress final s' p' trailing ∧
      Buffers s' (foldBlocks 64 (takeIn compress) h (r ++ p)) r' totalLen finalized ∧ r' ++ p' = remainder 64 (r ++ p) := by
  induction hn : p.length using Nat.strong_induction_on generalizing s h r p with
  | _ m ih =>
      rcases Nat.lt_or_ge (r ++ p).length 64 with hlt | hge
      · refine ⟨s, r, p, rfl, ?_, (remainder_of_lt hlt).symm⟩
        rwa [foldBlocks_of_lt h hlt]
      · rw [List.length_append] at hge
        obtain ⟨s₁, hloop, hs₁⟩ := digestLoop_block compress hs hr hge final trailing
        have hdrop : (p.drop (64 - r.length)).length < m := by
          rw [List.length_drop]
          omega
        obtain ⟨s', r', p', hloop', hs', hrest⟩ := ih _ hdrop _ hs₁ (by decide) rfl
        have hsplit : r ++ p = (r ++ p.take (64 - r.length)) ++ p.drop (64 - r.length) := by
          rw [List.append_assoc, List.take_append_drop]
        have hlen : (r ++ p.take (64 - r.length)).length = 64 := by
          rw [List.length_append, List.length_take]
          omega
        refine ⟨s', r', p', hloop.trans hloop', ?_, ?_⟩
        · rw [hsplit, foldBlocks_block_append h (by decide) hlen]
          exact hs'
        · rw [hsplit, remainder_append (by decide) (by rw [hlen])]
          exact hrest

/-- The state has absorbed a message. -/
def Absorbed (compress : Vector Word n → Block → Vector Word n) (iv : Vector Word n) (s : DigestState n) (msg : List UInt8) :
    Prop :=
  Buffers s (foldBlocks 64 (takeIn compress) iv msg) (remainder 64 msg) (BitVec.ofNat 32 msg.length) 0

theorem absorbed_initState (compress : Vector Word n → Block → Vector Word n) (iv : Vector Word n) :
    Absorbed compress iv (initState iv) [] := ⟨rfl, rfl, rfl, rfl, rfl⟩

/-- What a call begins with. -/
theorem Absorbed.start {msg : List UInt8} (hs : Absorbed compress iv s msg) (final : Int) (p : List UInt8) :
    Buffers { s with totalLen := s.totalLen + BitVec.ofNat 32 p.length, finalized := final }
      (foldBlocks 64 (takeIn compress) iv msg) (remainder 64 msg) (BitVec.ofNat 32 (msg ++ p).length) final := by
  refine ⟨hs.h, hs.wLen, hs.w, ?_, rfl⟩
  show s.totalLen + _ = _
  rw [hs.totalLen, List.length_append, BitVec.ofNat_add]

theorem length_remainder_lt (msg : List UInt8) : (remainder 64 msg).length < 64 := by
  rw [length_remainder]
  exact Nat.mod_lt _ (by decide)

/-- A chunk with more to come. -/
theorem digest_chunk {msg : List UInt8} (hs : Absorbed compress iv s msg) (p : List UInt8) :
    (digest compress s 0 p).1 = .eok ∧ Absorbed compress iv (digest compress s 0 p).2 (msg ++ p) := by
  obtain ⟨hfold, hrest⟩ := foldBlocks_remainder (f := takeIn compress) iv (show 0 < 64 by decide) msg p
  obtain ⟨s₁, r, p', hloop, hs₁, hrp⟩ :=
    digestLoop_blocks 0 false p (hs.start 0 p) (length_remainder_lt msg)
  have hlen : r.length + p'.length < 64 := by
    rw [← List.length_append, hrp]
    exact length_remainder_lt _
  obtain ⟨s', hend, hs'⟩ := digestLoop_rest compress hs₁ hlen false
  have hdigest : digest compress s 0 p = (.eok, s') := by
    unfold digest
    rw [if_neg (not_not.2 hs.finalized)]
    dsimp only
    rw [hloop, hend]
  rw [hdigest]
  refine ⟨rfl, ?_⟩
  show Buffers s' (foldBlocks 64 (takeIn compress) iv (msg ++ p)) (remainder 64 (msg ++ p)) _ 0
  rw [hfold, hrest, ← hrp]
  exact hs'

/-- The message with what is behind it: in one block more, or in two. -/
theorem hash_eq (compress : Vector Word n → Block → Vector Word n) (iv : Vector Word n) (msg : List UInt8) :
    Fips180.hash compress iv msg =
      let h := foldBlocks 64 (takeIn compress) iv msg
      let rest := remainder 64 msg
      let bits := lengthBytes (BitVec.ofNat 64 (8 * msg.length))
      if rest.length < 56 then takeIn compress h (rest ++ 0x80 :: List.replicate (55 - rest.length) 0 ++ bits)
      else
        takeIn compress (takeIn compress h (rest ++ 0x80 :: List.replicate (63 - rest.length) 0))
          (0 :: List.replicate 55 0 ++ bits) := by
  have hlen := length_remainder 64 msg
  have hlt := length_remainder_lt msg
  have hhash : Fips180.hash compress iv msg = foldBlocks 64 (takeIn compress) iv (msg ++ (0x80 ::
      (List.replicate (Fips180.zeros msg.length) 0 ++ lengthBytes (BitVec.ofNat 64 (8 * msg.length))))) := rfl
  rw [hhash, (foldBlocks_remainder iv (by decide) msg _).1]
  dsimp only
  generalize foldBlocks 64 (takeIn compress) iv msg = h
  generalize hbits : lengthBytes (BitVec.ofNat 64 (8 * msg.length)) = bits
  have hbitslen : bits.length = 8 := by rw [← hbits]; rfl
  generalize remainder 64 msg = rest at *
  by_cases hroom : rest.length < 56
  · have hzeros : Fips180.zeros msg.length = 55 - rest.length := by
      unfold Fips180.zeros
      omega
    rw [if_pos hroom, hzeros, List.append_assoc, List.cons_append]
    refine foldBlocks_block h (by decide) ?_
    rw [List.length_append, List.length_cons, List.length_append, List.length_replicate, hbitslen]
    omega
  · have hzeros : Fips180.zeros msg.length = (63 - rest.length) + 56 := by
      unfold Fips180.zeros
      omega
    have hsplit : rest ++ 0x80 :: (List.replicate (63 - rest.length + 56) 0 ++ bits) =
        (rest ++ 0x80 :: List.replicate (63 - rest.length) 0) ++ (0 :: List.replicate 55 0 ++ bits) := by
      have hcons : (0 : UInt8) :: List.replicate 55 0 = List.replicate 56 0 := rfl
      rw [hcons, List.replicate_add, List.append_assoc, List.append_assoc, List.cons_append]
    rw [if_neg hroom, hzeros, hsplit, foldBlocks_block_append h (by decide)]
    · refine foldBlocks_block _ (by decide) ?_
      rw [List.length_append, List.length_cons, List.length_replicate, hbitslen]
    · rw [List.length_append, List.length_cons, List.length_replicate]
      omega

theorem totalBits_eq {l : Nat} (hl : l < 2 ^ 32) : (BitVec.ofNat 32 l).zeroExtend 64 * 8 = BitVec.ofNat 64 (8 * l) := by
  refine BitVec.eq_of_toNat_eq ?_
  rw [BitVec.toNat_mul, BitVec.toNat_setWidth, BitVec.toNat_ofNat, BitVec.toNat_ofNat, Nat.mod_eq_of_lt hl,
    Nat.mod_eq_of_lt (Nat.lt_trans hl (by decide)), Nat.mul_comm]
  rfl

/-- The last chunk. -/
theorem digest_last {msg : List UInt8} (hs : Absorbed compress iv s msg) (p : List UInt8) (hlen : (msg ++ p).length < 2 ^ 32)
    {final : Int} (hfinal : final ≠ 0) :
    (digest compress s final p).1 = .eok ∧ (digest compress s final p).2.finalized = final ∧
      (digest compress s final p).2.h = (Fips180.hash compress iv (msg ++ p)).map htobe32 := by
  obtain ⟨hfold, hrest⟩ := foldBlocks_remainder (f := takeIn compress) iv (show 0 < 64 by decide) msg p
  obtain ⟨s₁, r, p', hloop, hs₁, hrp⟩ :=
    digestLoop_blocks final false p (hs.start final p) (length_remainder_lt msg)
  rw [← hfold] at hs₁
  rw [← hrest] at hrp
  have hlt := length_remainder_lt (msg ++ p)
  have hend : ∃ s', digestLoop compress final s₁ p' false = (true, s') ∧ s'.finalized = final ∧
      s'.h = Fips180.hash compress iv (msg ++ p) := by
    rw [hash_eq]
    dsimp only
    rw [← hrp, ← totalBits_eq hlen]
    rw [← hrp] at hlt
    by_cases hroom : (r ++ p').length < 56
    · have hlast := digestLoop_end compress hs₁ hfinal (p := p') (k := 55 - (r ++ p').length) (by omega) false
      rw [if_neg Bool.false_ne_true] at hlast
      rw [if_pos hroom]
      exact hlast
    · have hlen' : (r ++ p').length + (63 - (r ++ p').length + 1) = 64 := by omega
      obtain ⟨s₂, hfull, hs₂⟩ := digestLoop_full compress hs₁ hfinal hlen' (by omega)
      have hlast := digestLoop_end compress hs₂ hfinal (p := []) (k := 55) rfl true
      rw [if_pos rfl, List.append_nil, List.nil_append] at hlast
      rw [if_neg hroom, hfull]
      exact hlast
  obtain ⟨s', hlast, hfinalized, hh⟩ := hend
  have hdigest : digest compress s final p = (.eok, { s' with h := s'.h.map htobe32 }) := by
    unfold digest
    rw [if_neg (not_not.2 hs.finalized)]
    dsimp only
    rw [hloop, hlast]
  rw [hdigest, ← hh]
  exact ⟨rfl, hfinalized, rfl⟩

/-! ## All calls -/

/-- The calls for all chunks but the last, and what each returned. -/
def feed (compress : Vector Word n → Block → Vector Word n) (s : DigestState n) : List (List UInt8) → List Err × DigestState n
  | [] => ([], s)
  | p :: ps => ((digest compress s 0 p).1 :: (feed compress (digest compress s 0 p).2 ps).1,
      (feed compress (digest compress s 0 p).2 ps).2)

theorem feed_absorbed {msg : List UInt8} (hs : Absorbed compress iv s msg) (ps : List (List UInt8)) :
    (∀ e ∈ (feed compress s ps).1, e = .eok) ∧ Absorbed compress iv (feed compress s ps).2 (msg ++ ps.flatten) := by
  induction ps generalizing s msg with
  | nil =>
      refine ⟨fun e he => absurd he List.not_mem_nil, ?_⟩
      rw [List.flatten_nil, List.append_nil]
      exact hs
  | cons p ps ih =>
      obtain ⟨hrc, hchunk⟩ := digest_chunk hs p
      obtain ⟨hrcs, hrest⟩ := ih hchunk
      rw [List.flatten_cons, ← List.append_assoc]
      refine ⟨fun e he => ?_, hrest⟩
      rcases List.mem_cons.1 he with rfl | he
      · exact hrc
      · exact hrcs e he

/-- The bytes of the hash value, in memory. -/
theorem flatMap_leBytes (h : Vector Word n) : (h.map htobe32).toList.flatMap leBytes = h.toList.flatMap wordBytes := by
  rw [Vector.toList_map, List.flatMap_map]
  exact List.flatMap_congr fun x _ => leBytes_htobe32 x

theorem length_flatMap {f : Word → List UInt8} (hf : ∀ x, (f x).length = 4) (h : Vector Word n) :
    (h.toList.flatMap f).length = n * 4 := by
  simp [List.length_flatMap, hf]

/-- The memory of a state begins with its hash words. -/
theorem take_bytes (s : DigestState n) {size : Nat} (h : size ≤ n * 4) :
    s.bytes.take size = (s.h.toList.flatMap leBytes).take size := by
  have hlen := length_flatMap (f := leBytes) (fun _ => rfl) s.h
  unfold DigestState.bytes
  rw [List.append_assoc, List.append_assoc, List.append_assoc, List.take_append_of_le_length (by omega)]

/-- As much of the hash words as there is room for. -/
theorem getHashVal_of_le {byteCnt : Nat} (hne : s.finalized ≠ 0) (hcnt : byteCnt ≤ n * 4) (size : Nat) :
    getHashVal s byteCnt size = (.ok (min size byteCnt), (s.h.toList.flatMap leBytes).take (min size byteCnt)) := by
  unfold getHashVal
  rw [if_neg hne, take_bytes s (Nat.le_trans (Nat.min_le_right size byteCnt) hcnt)]

/-- **A message in chunks**: every call returns `EOK`, and the state that the last one leaves has the hash value of the message
in its memory; no call changes that state. -/
theorem hashed (compress : Vector Word n → Block → Vector Word n) (iv : Vector Word n) (ps : List (List UInt8))
    (p : List UInt8) (hlen : (ps.flatten ++ p).length < 2 ^ 32) {final : Int} (hfinal : final ≠ 0) :
    let fed := feed compress (initState iv) ps
    let last := digest compress fed.2 final p
    (∀ e ∈ fed.1, e = .eok) ∧ last.1 = .eok ∧ last.2.finalized ≠ 0 ∧
      last.2.h.toList.flatMap leBytes = (Fips180.hash compress iv (ps.flatten ++ p)).toList.flatMap wordBytes ∧
      ∀ final' p', digest compress last.2 final' p' = (.eargval, last.2) := by
  obtain ⟨hrcs, hfed⟩ := feed_absorbed (absorbed_initState compress iv) ps
  rw [List.nil_append] at hfed
  obtain ⟨hrc, hfinalized, hh⟩ := digest_last hfed p hlen hfinal
  have hne : (digest compress (feed compress (initState iv) ps).2 final p).2.finalized ≠ 0 := by rwa [hfinalized]
  refine ⟨hrcs, hrc, hne, ?_, fun final' p' => if_pos hne⟩
  rw [hh, flatMap_leBytes]

end

end YieldStm32.Digest
