import YieldStm32.Util.DigestRun

/-!
# SHA-1 (`util/src/sha1.c`)

* `SHA1.rounds` : a block, with its schedule;
* `SHA1.initState`, `SHA1.digest`, `SHA1.getHashVal`, `SHA1.getHashStr` : the interface;
* `rounds_eq` : a block is taken in as the standard says;
* `SHA1.hashes_sha1` : messages in chunks have the digests of the standard.
-/

namespace YieldStm32.Digest

open Fips180 (Word Block wordBytes)

theorem lrot32_eq (x : Word) {bits : Nat} (h : bits < 32) : lrot32 x bits = x.rotateLeft bits := by
  rw [BitVec.rotateLeft_def, Nat.mod_eq_of_lt h]
  rfl

namespace SHA1

/-- `SHA1_F` -/
def f (round : Nat) (b c d : Word) : Word :=
  if round ≤ 19 then (b &&& c) ||| (~~~ b &&& d)
  else if round ≤ 39 then b ^^^ c ^^^ d
  else if round ≤ 59 then (b &&& c) ||| (b &&& d) ||| (c &&& d)
  else b ^^^ c ^^^ d

/-- The body of the loop of `SHA1_ScheduleMessage`. -/
def next (out : Nat → Word) (i : Nat) : Word :=
  lrot32 (out (i - 3) ^^^ out (i - 8) ^^^ out (i - 14) ^^^ out (i - 16)) 1

/-- `SHA1_ScheduleMessage` -/
def scheduleMessage (input : Block) : Nat → Word := schedule 80 next input

/-- The variables of `SHA1_Rounds`. -/
structure Vars where
  a : Word
  b : Word
  c : Word
  d : Word
  e : Word

/-- A round. -/
def round (w : Nat → Word) (v : Vars) (round : Nat) : Vars :=
  let k : Word :=
    if round ≤ 19 then 0x5A827999 else if round ≤ 39 then 0x6ED9EBA1 else if round ≤ 59 then 0x8F1BBCDC else 0xCA62C1D6
  let t := lrot32 v.a 5 + f round v.b v.c v.d + v.e + k + w round
  { a := t, b := v.a, c := lrot32 v.b 30, d := v.c, e := v.d }

/-- All of them. -/
def loop (w : Nat → Word) (v : Vars) : Vars := (List.range 80).foldl (round w) v

/-- `SHA1_Rounds`, with the schedule. -/
def rounds (h : Vector Word 5) (input : Block) : Vector Word 5 :=
  let v := loop (scheduleMessage input) ⟨h[0], h[1], h[2], h[3], h[4]⟩
  #v[h[0] + v.a, h[1] + v.b, h[2] + v.c, h[3] + v.d, h[4] + v.e]

/-- `SHA1_InitState` -/
def initState : DigestState 5 := Digest.initState
  (#v[0x67452301, 0xEFCDAB89, 0x98BADCFE, 0x10325476, 0xC3D2E1F0] : Vector (BitVec 32) 5)

/-- `SHA1_Digest` -/
def digest (s : DigestState 5) (final : Int) (p : List UInt8) : Err × DigestState 5 := Digest.digest rounds s final p

/-- `SHA1_GetHashVal` -/
def getHashVal (s : DigestState 5) (size : Nat) : Except Err Nat × List UInt8 := Digest.getHashVal s 20 size

/-- `SHA1_GetHashStr` -/
def getHashStr (s : DigestState 5) (size : Nat) : Except Err Nat × List UInt8 := Digest.getHashStr s (5 * 4 * 2) size

/-! ## The standard -/

theorem f_eq (t : Nat) (x y z : Word) : f t x y z = Fips180.Sha1.f t x y z := by
  have hch : (x &&& y) ||| (~~~ x &&& z) = Fips180.ch x y z := by
    unfold Fips180.ch
    apply BitVec.eq_of_getLsbD_eq
    intro i hi
    simp only [BitVec.getLsbD_or, BitVec.getLsbD_and, BitVec.getLsbD_xor, BitVec.getLsbD_not, hi]
    cases x.getLsbD i <;> cases y.getLsbD i <;> cases z.getLsbD i <;> rfl
  have hmaj : (x &&& y) ||| (x &&& z) ||| (y &&& z) = Fips180.maj x y z := by
    unfold Fips180.maj
    apply BitVec.eq_of_getLsbD_eq
    intro i hi
    simp only [BitVec.getLsbD_or, BitVec.getLsbD_and, BitVec.getLsbD_xor]
    cases x.getLsbD i <;> cases y.getLsbD i <;> cases z.getLsbD i <;> rfl
  unfold f Fips180.Sha1.f
  rw [hch, hmaj]
  refine if_congr (by omega) rfl (if_congr (by omega) rfl (if_congr (by omega) rfl rfl))

theorem scheduleMessage_eq (input : Block) {t : Nat} (ht : t < 80) :
    scheduleMessage input t = Fips180.Sha1.schedule input t := by
  refine schedule_eq (fun t => ?_) (fun t ht => ?_) (fun out out' t ht hback => ?_) ht
  · rw [Fips180.Sha1.schedule, dif_pos t.isLt]
  · rw [Fips180.Sha1.schedule, dif_neg (by omega)]
    exact (lrot32_eq _ (by decide)).symm
  · unfold next
    rw [hback (t - 3) (by omega), hback (t - 8) (by omega), hback (t - 14) (by omega), hback (t - 16) (by omega)]

/-- The variables of the standard. -/
def Vars.standard (v : Vars) : Fips180.Sha1.Vars := ⟨v.a, v.b, v.c, v.d, v.e⟩

theorem round_eq (input : Block) (v : Vars) {t : Nat} (ht : t < 80) :
    (round (scheduleMessage input) v t).standard = Fips180.Sha1.step input v.standard t := by
  have hk : (if t ≤ 19 then 0x5A827999 else if t ≤ 39 then 0x6ED9EBA1 else if t ≤ 59 then 0x8F1BBCDC else 0xCA62C1D6 : Word) =
      Fips180.Sha1.k t :=
    if_congr (by omega) rfl (if_congr (by omega) rfl (if_congr (by omega) rfl rfl))
  unfold round Vars.standard Fips180.Sha1.step
  dsimp only
  rw [lrot32_eq v.a (by decide), lrot32_eq v.b (by decide), f_eq, hk, scheduleMessage_eq input ht]

theorem loop_eq (input : Block) (v : Vars) :
    (loop (scheduleMessage input) v).standard = Fips180.Sha1.steps input v.standard := by
  refine List.foldl_rel (r := fun (v : Vars) v' => v.standard = v') rfl fun t ht v v' hv => ?_
  rw [round_eq input v (List.mem_range.1 ht), hv]

/-- The hash words, with the variables added to them. -/
theorem add_standard (h : Vector Word 5) {v : Vars} {v' : Fips180.Sha1.Vars} (hv : v.standard = v') :
    #v[h[0] + v.a, h[1] + v.b, h[2] + v.c, h[3] + v.d, h[4] + v.e] =
      #v[v'.a + h[0], v'.b + h[1], v'.c + h[2], v'.d + h[3], v'.e + h[4]] := by
  subst hv
  rw [BitVec.add_comm h[0], BitVec.add_comm h[1], BitVec.add_comm h[2], BitVec.add_comm h[3], BitVec.add_comm h[4]]
  rfl

/-- A block is taken in as the standard says. -/
theorem rounds_eq : rounds = Fips180.Sha1.compress := by
  funext h input
  exact add_standard h (loop_eq input ⟨h[0], h[1], h[2], h[3], h[4]⟩)

theorem length_digest (msg : List UInt8) : (Fips180.Sha1.digest msg).length = 20 :=
  length_flatMap (fun _ => rfl) (Fips180.hash Fips180.Sha1.compress Fips180.Sha1.iv msg)

/-- As much of the digest as there is room for. -/
theorem getHashVal_digest (ps : List (List UInt8)) (p : List UInt8) (hlen : (ps.flatten ++ p).length < 2 ^ 32) {final : Int}
    (hfinal : final ≠ 0) (size : Nat) : getHashVal (digest (feed rounds initState ps).2 final p).2 size =
      (.ok (min size 20), (Fips180.Sha1.digest (ps.flatten ++ p)).take (min size 20)) := by
  obtain ⟨-, -, hne, hbytes, -⟩ := hashed rounds _ ps p hlen hfinal
  have hdigest : (Fips180.hash rounds Fips180.Sha1.iv (ps.flatten ++ p)).toList.flatMap wordBytes =
      Fips180.Sha1.digest (ps.flatten ++ p) := by
    rw [rounds_eq]
    rfl
  refine (getHashVal_of_le hne (Nat.le_refl 20) size).trans ?_
  exact congrArg (fun bytes => (Except.ok (min size 20), bytes.take (min size 20))) (hbytes.trans hdigest)

/-- **Messages in chunks have the digest of the standard**: every call returns `EOK`, the hash value is the digest, as much of it
as there is room for, and no call behind the last one changes the state. -/
theorem hashes_sha1 (ps : List (List UInt8)) (p : List UInt8) (hlen : (ps.flatten ++ p).length < 2 ^ 32) {final : Int}
    (hfinal : final ≠ 0) :
    let fed := feed rounds initState ps
    let last := digest fed.2 final p
    (∀ e ∈ fed.1, e = .eok) ∧ last.1 = .eok ∧
      (∀ size, getHashVal last.2 size =
        (.ok (min size 20), (Fips180.Sha1.digest (ps.flatten ++ p)).take (min size 20))) ∧
      ∀ final' p', digest last.2 final' p' = (.eargval, last.2) := by
  obtain ⟨hrcs, hrc, -, -, hfinished⟩ := hashed rounds _ ps p hlen hfinal
  exact ⟨hrcs, hrc, getHashVal_digest ps p hlen hfinal, hfinished⟩

theorem hashes_sha1_sample :
    let fed := feed rounds initState [[], [0x61]]
    let last := digest fed.2 1 [0x62, 0x63]
    last.1 = .eok ∧ getHashVal last.2 20 = (.ok 20, (Fips180.Sha1.digest [0x61, 0x62, 0x63]).take 20) := by
  have hsample := hashes_sha1 [[], [0x61]] [0x62, 0x63] (by decide) (show (1 : Int) ≠ 0 by decide)
  exact ⟨hsample.2.1, hsample.2.2.1 20⟩

end SHA1

end YieldStm32.Digest
