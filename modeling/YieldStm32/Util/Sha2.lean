import YieldStm32.Util.DigestRun

/-!
# SHA-224 and SHA-256 (`util/src/sha2.c`)

* `SHA2.rounds` : a block, with its schedule and the round constants;
* `SHA2.State`, `SHA2.initState`, `SHA2.digest`, `SHA2.getHashVal`, `SHA2.getHashStr` : the interface;
* `k_eq`, `iv256_eq`, `iv224_eq` : the constants are bits of roots of primes;
* `rounds_eq` : a block is taken in as the standard says;
* `SHA2.hashes_sha2` : messages in chunks have the digests of the standard.
-/

namespace YieldStm32.Digest

open Fips180 (Word Block wordBytes)

theorem rrot32_eq (x : Word) {bits : Nat} (h : bits < 32) : rrot32 x bits = x.rotateRight bits := by
  rw [BitVec.rotateRight_def, Nat.mod_eq_of_lt h]
  rfl

namespace SHA2

/-- `sha2_k` -/
def k : List Word :=
  [0x428a2f98, 0x71374491, 0xb5c0fbcf, 0xe9b5dba5,
   0x3956c25b, 0x59f111f1, 0x923f82a4, 0xab1c5ed5,
   0xd807aa98, 0x12835b01, 0x243185be, 0x550c7dc3,
   0x72be5d74, 0x80deb1fe, 0x9bdc06a7, 0xc19bf174,
   0xe49b69c1, 0xefbe4786, 0x0fc19dc6, 0x240ca1cc,
   0x2de92c6f, 0x4a7484aa, 0x5cb0a9dc, 0x76f988da,
   0x983e5152, 0xa831c66d, 0xb00327c8, 0xbf597fc7,
   0xc6e00bf3, 0xd5a79147, 0x06ca6351, 0x14292967,
   0x27b70a85, 0x2e1b2138, 0x4d2c6dfc, 0x53380d13,
   0x650a7354, 0x766a0abb, 0x81c2c92e, 0x92722c85,
   0xa2bfe8a1, 0xa81a664b, 0xc24b8b70, 0xc76c51a3,
   0xd192e819, 0xd6990624, 0xf40e3585, 0x106aa070,
   0x19a4c116, 0x1e376c08, 0x2748774c, 0x34b0bcb5,
   0x391c0cb3, 0x4ed8aa4a, 0x5b9cca4f, 0x682e6ff3,
   0x748f82ee, 0x78a5636f, 0x84c87814, 0x8cc70208,
   0x90befffa, 0xa4506ceb, 0xbef9a3f7, 0xc67178f2]

/-- The body of the loop of `SHA2_ScheduleMessage`. -/
def next (out : Nat → Word) (i : Nat) : Word :=
  let o2 := out (i - 2)
  let o15 := out (i - 15)
  let s0 := rrot32 o15 7 ^^^ rrot32 o15 18 ^^^ o15 >>> 3
  let s1 := rrot32 o2 17 ^^^ rrot32 o2 19 ^^^ o2 >>> 10
  out (i - 16) + s0 + out (i - 7) + s1

/-- `SHA2_ScheduleMessage` -/
def scheduleMessage (input : Block) : Nat → Word := schedule 64 next input

/-- The variables of `SHA2_Rounds`. -/
structure Vars where
  a : Word
  b : Word
  c : Word
  d : Word
  e : Word
  f : Word
  g : Word
  h : Word

/-- A round. -/
def round (w : Nat → Word) (v : Vars) (round : Nat) : Vars :=
  let s1 := rrot32 v.e 6 ^^^ rrot32 v.e 11 ^^^ rrot32 v.e 25
  let ch := (v.e &&& v.f) ^^^ (~~~ v.e &&& v.g)
  let t1 := v.h + s1 + ch + k.getD round 0 + w round
  let s0 := rrot32 v.a 2 ^^^ rrot32 v.a 13 ^^^ rrot32 v.a 22
  let ma := (v.a &&& v.b) ^^^ (v.a &&& v.c) ^^^ (v.b &&& v.c)
  let t2 := s0 + ma
  { a := t1 + t2, b := v.a, c := v.b, d := v.c, e := v.d + t1, f := v.e, g := v.f, h := v.g }

/-- All of them. -/
def loop (w : Nat → Word) (v : Vars) : Vars := (List.range 64).foldl (round w) v

/-- `SHA2_Rounds`, with the schedule. -/
def rounds (h : Vector Word 8) (input : Block) : Vector Word 8 :=
  let v := loop (scheduleMessage input) ⟨h[0], h[1], h[2], h[3], h[4], h[5], h[6], h[7]⟩
  #v[h[0] + v.a, h[1] + v.b, h[2] + v.c, h[3] + v.d, h[4] + v.e, h[5] + v.f, h[6] + v.g, h[7] + v.h]

/-- `sha2_type_t`, with the values that are none of it. -/
inductive Kind where
  | type224
  | type256
  | unsupported
deriving DecidableEq

/-- `sha2_state_t` -/
structure State extends DigestState 8 where
  type : Kind

/-- The hash words of `SHA2_InitState`. -/
def iv256 : Vector Word 8 :=
  #v[0x6a09e667, 0xbb67ae85, 0x3c6ef372, 0xa54ff53a, 0x510e527f, 0x9b05688c, 0x1f83d9ab, 0x5be0cd19]

def iv224 : Vector Word 8 :=
  #v[0xc1059ed8, 0x367cd507, 0x3070dd17, 0xf70e5939, 0xffc00b31, 0x68581511, 0x64f98fa7, 0xbefa4fa4]

/-- `SHA2_InitState` -/
def initState (s : State) (type : Kind) : Err × State :=
  match type with
  | .type256 => (.eok, { Digest.initState iv256 with type })
  | .type224 => (.eok, { Digest.initState iv224 with type })
  | .unsupported => (.eargval, s)

/-- `SHA2_Digest` -/
def digest (s : State) (final : Int) (p : List UInt8) : Err × State :=
  let r := Digest.digest rounds s.toDigestState final p
  (r.1, { r.2 with type := s.type })

/-- `byte_cnt`, `char_cnt` : the functions below have the same values. -/
def cnt : Kind → Option Nat
  | .type224 => some (7 * 4 * 2)
  | .type256 => some (8 * 4 * 2)
  | .unsupported => none

/-- `SHA2_GetHashVal` -/
def getHashVal (s : State) (size : Nat) : Except Err Nat × List UInt8 :=
  match cnt s.type with
  | some byteCnt => Digest.getHashVal s.toDigestState byteCnt size
  | none => (.error .eargval, [])

/-- `SHA2_GetHashStr` -/
def getHashStr (s : State) (size : Nat) : Except Err Nat × List UInt8 :=
  match cnt s.type with
  | some charCnt => Digest.getHashStr s.toDigestState charCnt size
  | none => (.error .eargval, [])

/-! ## The constants -/

theorem k_eq {t : Nat} (ht : t < 64) : k.getD t 0 = Fips180.Sha2.k t := by
  have hroots : ∀ t < 64, ∃ i < 7,
      (i * 2 ^ 32 + (k.getD t 0).toNat) ^ 3 ≤ Fips180.Sha2.primes.getD t 0 * 2 ^ (3 * 32) ∧
        Fips180.Sha2.primes.getD t 0 * 2 ^ (3 * 32) < (i * 2 ^ 32 + (k.getD t 0).toNat + 1) ^ 3 := by
    decide
  obtain ⟨i, -, hle, hlt⟩ := hroots t ht
  exact (Fips180.Sha2.rootBits_eq (by decide) hle hlt).symm

theorem iv256_eq : iv256 = Fips180.Sha2.iv256 := by
  have hroots : ∀ i : Fin 8, ∃ j < 5,
      (j * 2 ^ 32 + iv256[i].toNat) ^ 2 ≤ Fips180.Sha2.primes.getD i 0 * 2 ^ (2 * 32) ∧
        Fips180.Sha2.primes.getD i 0 * 2 ^ (2 * 32) < (j * 2 ^ 32 + iv256[i].toNat + 1) ^ 2 := by
    decide
  refine Vector.ext fun i hi => ?_
  obtain ⟨j, -, hle, hlt⟩ := hroots ⟨i, hi⟩
  rw [Fips180.Sha2.iv256, Vector.getElem_ofFn]
  exact (Fips180.Sha2.rootBits_eq (by decide) hle hlt).symm

/-- The roots, with the bits behind the point that SHA-224 leaves out. -/
def fronts224 : List Nat :=
  [0x4cbbb9d5d, 0x5629a292a, 0x59159015a, 0x6152fecd8, 0x667332667, 0x68eb44a87, 0x6db0c2e0d, 0x747b5481d]

theorem iv224_eq : iv224 = Fips180.Sha2.iv224 := by
  have hroots : ∀ i : Fin 8,
      (fronts224.getD i 0 * 2 ^ 32 + iv224[i].toNat) ^ 2 ≤ Fips180.Sha2.primes.getD (8 + i) 0 * 2 ^ (2 * 64) ∧
        Fips180.Sha2.primes.getD (8 + i) 0 * 2 ^ (2 * 64) < (fronts224.getD i 0 * 2 ^ 32 + iv224[i].toNat + 1) ^ 2 := by
    decide
  refine Vector.ext fun i hi => ?_
  obtain ⟨hle, hlt⟩ := hroots ⟨i, hi⟩
  rw [Fips180.Sha2.iv224, Vector.getElem_ofFn]
  exact (Fips180.Sha2.rootBits_eq (by decide) hle hlt).symm

/-! ## The standard -/

theorem scheduleMessage_eq (input : Block) {t : Nat} (ht : t < 64) :
    scheduleMessage input t = Fips180.Sha2.schedule input t := by
  have hnext (out : Nat → Word) (t : Nat) : next out t = Fips180.Sha2.smallSigma1 (out (t - 2)) + out (t - 7) +
      Fips180.Sha2.smallSigma0 (out (t - 15)) + out (t - 16) := by
    unfold next Fips180.Sha2.smallSigma0 Fips180.Sha2.smallSigma1
    dsimp only
    rw [rrot32_eq _ (show 7 < 32 by decide), rrot32_eq _ (show 18 < 32 by decide), rrot32_eq _ (show 17 < 32 by decide),
      rrot32_eq _ (show 19 < 32 by decide)]
    ac_rfl
  refine schedule_eq (fun t => ?_) (fun t ht => ?_) (fun out out' t ht hback => ?_) ht
  · rw [Fips180.Sha2.schedule, dif_pos t.isLt]
  · rw [Fips180.Sha2.schedule, dif_neg (by omega)]
    exact (hnext _ t).symm
  · rw [hnext, hnext, hback (t - 2) (by omega), hback (t - 7) (by omega), hback (t - 15) (by omega),
      hback (t - 16) (by omega)]

/-- The variables of the standard. -/
def Vars.standard (v : Vars) : Fips180.Sha2.Vars := ⟨v.a, v.b, v.c, v.d, v.e, v.f, v.g, v.h⟩

theorem round_eq (input : Block) (v : Vars) {t : Nat} (ht : t < 64) :
    (round (scheduleMessage input) v t).standard = Fips180.Sha2.step input v.standard t := by
  unfold round Vars.standard Fips180.Sha2.step Fips180.Sha2.bigSigma0 Fips180.Sha2.bigSigma1
  dsimp only
  rw [rrot32_eq v.e (show 6 < 32 by decide), rrot32_eq v.e (show 11 < 32 by decide), rrot32_eq v.e (show 25 < 32 by decide),
    rrot32_eq v.a (show 2 < 32 by decide), rrot32_eq v.a (show 13 < 32 by decide), rrot32_eq v.a (show 22 < 32 by decide),
    k_eq ht, scheduleMessage_eq input ht]
  rfl

theorem loop_eq (input : Block) (v : Vars) :
    (loop (scheduleMessage input) v).standard = Fips180.Sha2.steps input v.standard := by
  refine List.foldl_rel (r := fun (v : Vars) v' => v.standard = v') rfl fun t ht v v' hv => ?_
  rw [round_eq input v (List.mem_range.1 ht), hv]

/-- The hash words, with the variables added to them. -/
theorem add_standard (h : Vector Word 8) {v : Vars} {v' : Fips180.Sha2.Vars} (hv : v.standard = v') :
    #v[h[0] + v.a, h[1] + v.b, h[2] + v.c, h[3] + v.d, h[4] + v.e, h[5] + v.f, h[6] + v.g, h[7] + v.h] =
      #v[v'.a + h[0], v'.b + h[1], v'.c + h[2], v'.d + h[3], v'.e + h[4], v'.f + h[5], v'.g + h[6], v'.h + h[7]] := by
  subst hv
  rw [BitVec.add_comm h[0], BitVec.add_comm h[1], BitVec.add_comm h[2], BitVec.add_comm h[3], BitVec.add_comm h[4],
    BitVec.add_comm h[5], BitVec.add_comm h[6], BitVec.add_comm h[7]]
  rfl

/-- A block is taken in as the standard says. -/
theorem rounds_eq : rounds = Fips180.Sha2.compress := by
  funext h input
  exact add_standard h (loop_eq input ⟨h[0], h[1], h[2], h[3], h[4], h[5], h[6], h[7]⟩)

/-! ## Messages -/

/-- The calls for all chunks but the last, and what each returned. -/
def feed (s : State) : List (List UInt8) → List Err × State
  | [] => ([], s)
  | p :: ps => ((digest s 0 p).1 :: (feed (digest s 0 p).2 ps).1, (feed (digest s 0 p).2 ps).2)

theorem feed_eq (s : State) (ps : List (List UInt8)) :
    feed s ps = ((Digest.feed rounds s.toDigestState ps).1, { (Digest.feed rounds s.toDigestState ps).2 with type := s.type }) := by
  induction ps generalizing s with
  | nil => rfl
  | cons p ps ih =>
      unfold feed Digest.feed
      rw [ih]
      rfl

/-- The length of a digest, and the digest of the standard. -/
def Kind.standard : Kind → Option (Nat × (List UInt8 → List UInt8))
  | .type224 => some (28, Fips180.Sha2.digest224)
  | .type256 => some (32, Fips180.Sha2.digest256)
  | .unsupported => none

/-- The calls for a message, for hash words to begin with. -/
theorem hashed_start (iv : Vector Word 8) (type : Kind) (ps : List (List UInt8)) (p : List UInt8)
    (hlen : (ps.flatten ++ p).length < 2 ^ 32) {final : Int} (hfinal : final ≠ 0) :
    let fed := feed { Digest.initState iv with type } ps
    let last := digest fed.2 final p
    (∀ e ∈ fed.1, e = .eok) ∧ last.1 = .eok ∧ last.2.finalized ≠ 0 ∧ last.2.type = type ∧
      last.2.h.toList.flatMap leBytes =
        (Fips180.hash Fips180.Sha2.compress iv (ps.flatten ++ p)).toList.flatMap wordBytes ∧
      ∀ final' p', digest last.2 final' p' = (.eargval, last.2) := by
  obtain ⟨hrcs, hrc, hne, hbytes, hfinished⟩ := hashed rounds iv ps p hlen hfinal
  rw [feed_eq]
  refine ⟨hrcs, hrc, hne, rfl, hbytes.trans (by rw [rounds_eq]), fun final' p' => ?_⟩
  unfold digest
  dsimp only
  rw [hfinished]

/-- The bytes of the hash words that a hash value begins with. -/
theorem take_getHashVal {s : DigestState 8} (hne : s.finalized ≠ 0) {byteCnt length : Nat} (hcnt : length ≤ byteCnt)
    (hlength : length ≤ 8 * 4) (size : Nat) :
    ∃ cnt bytes, Digest.getHashVal s byteCnt size = (.ok cnt, bytes) ∧
      bytes.take length = ((s.h.toList.flatMap leBytes).take length).take size := by
  refine ⟨min size byteCnt, s.bytes.take (min size byteCnt), if_neg hne, ?_⟩
  rw [← take_bytes s hlength, List.take_take, List.take_take]
  exact congrArg s.bytes.take (by omega)

theorem digest256_eq (msg : List UInt8) : Fips180.Sha2.digest256 msg =
    ((Fips180.hash Fips180.Sha2.compress iv256 msg).toList.flatMap wordBytes).take 32 := by
  have hlen := length_flatMap (f := wordBytes) (fun _ => rfl) (Fips180.hash Fips180.Sha2.compress iv256 msg)
  rw [List.take_of_length_le hlen.le, iv256_eq]
  rfl

theorem digest224_eq (msg : List UInt8) : Fips180.Sha2.digest224 msg =
    ((Fips180.hash Fips180.Sha2.compress iv224 msg).toList.flatMap wordBytes).take 28 := by
  rw [iv224_eq]
  rfl

/-- **Messages in chunks have the digests of the standard**: every call returns `EOK`, the first bytes of the hash value are the
digest of the type, as much of it as there is room for, and no call behind the last one changes the state. -/
theorem hashes_sha2 (s : State) {type : Kind} {length : Nat} {standard : List UInt8 → List UInt8}
    (htype : type.standard = some (length, standard)) (ps : List (List UInt8)) (p : List UInt8)
    (hlen : (ps.flatten ++ p).length < 2 ^ 32) {final : Int} (hfinal : final ≠ 0) :
    let init := initState s type
    let fed := feed init.2 ps
    let last := digest fed.2 final p
    init.1 = .eok ∧ (∀ e ∈ fed.1, e = .eok) ∧ last.1 = .eok ∧
      (∀ size, ∃ cnt bytes, getHashVal last.2 size = (.ok cnt, bytes) ∧
        bytes.take length = (standard (ps.flatten ++ p)).take size) ∧
      ∀ final' p', digest last.2 final' p' = (.eargval, last.2) := by
  cases type with
  | unsupported => exact absurd htype nofun
  | type256 =>
      cases htype
      obtain ⟨hrcs, hrc, hne, htype, hbytes, hfinished⟩ := hashed_start iv256 .type256 ps p hlen hfinal
      refine ⟨rfl, hrcs, hrc, fun size => ?_, hfinished⟩
      obtain ⟨cnt, bytes, hval, htake⟩ := take_getHashVal hne (show 32 ≤ 64 by decide) (by decide) size
      refine ⟨cnt, bytes, ?_, ?_⟩
      · unfold getHashVal
        dsimp only [initState]
        rw [htype]
        exact hval
      · rw [htake, hbytes, digest256_eq]
  | type224 =>
      cases htype
      obtain ⟨hrcs, hrc, hne, htype, hbytes, hfinished⟩ := hashed_start iv224 .type224 ps p hlen hfinal
      refine ⟨rfl, hrcs, hrc, fun size => ?_, hfinished⟩
      obtain ⟨cnt, bytes, hval, htake⟩ := take_getHashVal hne (show 28 ≤ 56 by decide) (by decide) size
      refine ⟨cnt, bytes, ?_, ?_⟩
      · unfold getHashVal
        dsimp only [initState]
        rw [htype]
        exact hval
      · rw [htake, hbytes, digest224_eq]

theorem hashes_sha2_sample :
    let init := initState { Digest.initState iv256 with type := .unsupported } .type224
    let fed := feed init.2 [[], [0x61]]
    let last := digest fed.2 1 [0x62, 0x63]
    init.1 = .eok ∧ last.1 = .eok ∧ ∃ cnt bytes, getHashVal last.2 28 = (.ok cnt, bytes) ∧
      bytes.take 28 = (Fips180.Sha2.digest224 [0x61, 0x62, 0x63]).take 28 := by
  have hsample := hashes_sha2 { Digest.initState iv256 with type := .unsupported } (show Kind.type224.standard = _ from rfl)
    [[], [0x61]] [0x62, 0x63] (by decide) (show (1 : Int) ≠ 0 by decide)
  exact ⟨hsample.1, hsample.2.2.1, hsample.2.2.2.1 28⟩

end SHA2

end YieldStm32.Digest
