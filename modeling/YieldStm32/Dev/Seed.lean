import YieldStm32.Util.Lfsr32

/-!
# Random numbers (`dev/src/seed.c`, `util/src/jenkins.c`)

* `jenkinsOaat`, `init`, `getRand`, `getRandInt` : the functions of the source;
* `calls` : so many calls of `Seed_GetRand`, one after the other;
* `getRand_nodup_iff` : when the numbers of a run are all different.
-/

namespace YieldStm32.Seed

open Lfsr32

/-- `Jenkins_OAAT` -/
def jenkinsOaat (iv : BitVec 32) (key : List UInt8) : BitVec 32 :=
  let hash := key.foldl (fun (hash : BitVec 32) k =>
    let hash := hash + k.toBitVec.setWidth 32
    let hash := hash + hash <<< 10
    hash ^^^ hash >>> 6) iv
  let hash := hash + hash <<< 3
  let hash := hash ^^^ hash >>> 11
  hash + hash <<< 15

/-- The variables of the module. -/
structure State where
  seed : BitVec 32
  generated : Bool
  rand : BitVec 32

/-- `Seed_Init`. `vals` are the bytes of the readings; `uid` are as many, of which the first twelve are the identifier of
the device, since the size of the readings is passed for both. -/
def init (vals uid : List UInt8) : State :=
  let seed := jenkinsOaat 0 vals
  let seed := jenkinsOaat seed uid
  { seed := seed, generated := true, rand := seed }

/-- `Seed_GetSeed`, `none` where the assertion fails. -/
def getSeed (s : State) : Option (BitVec 32) := if s.generated then some s.seed else none

/-- `Seed_GetRand` -/
def getRand (s : State) : Option (BitVec 32 × State) :=
  if s.generated then
    let rand := next s.rand
    some (rand, { s with rand := rand })
  else none

/-- `Seed_GetRandInt` -/
def getRandInt (a b : BitVec 32) (s : State) : Option (BitVec 32 × State) :=
  if b.slt a then some (0, s)
  else (getRand s).map fun r => (a + r.1 % (b - a + 1), r.2)

/-- A number from the range, wherever an `int` holds the size of the range. -/
theorem getRandInt_bounds {a b : BitVec 32} (hle : a.toInt ≤ b.toInt) (hsize : b.toInt - a.toInt + 1 < 2 ^ 31) {s s' : State}
    {r : BitVec 32} (h : getRandInt a b s = some (r, s')) : a.toInt ≤ r.toInt ∧ r.toInt ≤ b.toInt := by
  have hslt : ¬ b.slt a = true := by
    rw [BitVec.slt_iff_toInt_lt]
    omega
  unfold getRandInt at h
  rw [if_neg hslt] at h
  obtain ⟨⟨w, t⟩, -, h⟩ := Option.map_eq_some_iff.1 h
  obtain ⟨rfl, -⟩ := Prod.mk.inj h
  have hone : (1 : BitVec 32).toNat = 1 := rfl
  have hn : (b - a + 1).toNat = (b.toInt - a.toInt + 1).toNat := by
    simp only [BitVec.toInt_eq_toNat_cond, BitVec.toNat_add, BitVec.toNat_sub] at *
    split_ifs at * <;> omega
  have hlt : (w % (b - a + 1)).toNat < (b - a + 1).toNat := by
    rw [BitVec.toNat_umod]
    exact Nat.mod_lt _ (by omega)
  rw [hn] at hlt
  generalize w % (b - a + 1) = d at hlt
  simp only [BitVec.toInt_eq_toNat_cond, BitVec.toNat_add] at *
  split_ifs at * <;> omega

/-- `n` calls of `Seed_GetRand`: what they return, and the state after them. -/
def calls : Nat → State → Option (List (BitVec 32) × State)
  | 0, s => some ([], s)
  | n + 1, s => (getRand s).bind fun r => (calls n r.2).map fun rs => (r.1 :: rs.1, rs.2)

theorem calls_eq (n : Nat) {s : State} (hs : s.generated = true) :
    calls n s = some ((List.range n).map fun i => next^[i + 1] s.rand, { s with rand := next^[n] s.rand }) := by
  induction n generalizing s with
  | zero => rfl
  | succ n ih =>
      unfold calls getRand
      have ih' := ih (s := { s with rand := next s.rand }) hs
      rw [if_pos hs, Option.bind_some, ih', Option.map_some, List.range_succ_eq_map, List.map_cons, List.map_map]
      rfl

/-- **The numbers repeat no sooner than they have to**: those of the calls after `Seed_Init` are all different as long as
there are fewer than `2 ^ 32`, unless the seed is zero; and then every number but zero has been returned. -/
theorem getRand_nodup_iff (vals uid : List UInt8) (n : Nat) :
    ∃ ws s', calls n (init vals uid) = some (ws, s') ∧
      (ws.Nodup ↔ n ≤ 1 ∨ (init vals uid).seed ≠ 0 ∧ n ≤ 2 ^ 32 - 1) ∧
      (n = 2 ^ 32 - 1 → (init vals uid).seed ≠ 0 → ∀ y, y ∈ ws ↔ y ≠ 0) := by
  generalize hs : init vals uid = s
  have hgen : s.generated = true := hs ▸ rfl
  have hrand : s.seed = s.rand := hs ▸ rfl
  rw [hrand]
  refine ⟨_, _, calls_eq n hgen, ?_, fun hn hseed y => ?_⟩
  · rw [List.nodup_map_iff_inj_on List.nodup_range]
    simp only [List.mem_range]
    constructor
    · intro h
      by_cases hn : n ≤ 1
      · exact .inl hn
      · have hseed : s.rand ≠ 0 := by
          intro h0
          rw [h0] at h
          exact absurd (h 0 (by omega) 1 (by omega) (by decide)) (by decide)
        refine .inr ⟨hseed, Nat.le_of_not_lt fun hlt => ?_⟩
        have hperiod := iterate_next_period hseed
        generalize hN : 2 ^ 32 - 1 = N at hperiod hlt
        have hback : next^[0 + 1] s.rand = next^[N + 1] s.rand := by
          rw [Function.iterate_succ_apply' next N, hperiod]
          rfl
        have hzero := h 0 (by omega) N hlt hback
        omega
    · rintro (hn | ⟨hseed, hn⟩) i hi j hj h
      · omega
      · rw [Function.iterate_succ_apply, Function.iterate_succ_apply] at h
        exact iterate_next_inj (iterate_next_ne hseed 1) (by omega) (by omega) h
  · rw [List.mem_map]
    constructor
    · rintro ⟨i, -, rfl⟩
      exact iterate_next_ne hseed (i + 1)
    · intro hy
      obtain ⟨k, hk, hky⟩ := exists_iterate_next (iterate_next_ne hseed 1) hy
      refine ⟨k, List.mem_range.2 (hn ▸ hk), ?_⟩
      rw [Function.iterate_succ_apply]
      exact hky

/-- Readings of zero, and an identifier of zeros. -/
example : (init (List.replicate 38 0) (List.replicate 38 0)).seed = 0 := by decide +kernel

end YieldStm32.Seed
