import Mathlib.Algebra.Group.Nat.Defs
import YieldStm32.Lib.Loop
import YieldStm32.Lib.Ring

/-!
# Duff's device (`util/src/string.c`)

`memcpy` copies eight bytes in each round of a loop, and comes into its first round by a `switch` on `size % 8`. It is
modelled statement by statement: a state holds the variables and the label of the next statement, `step` runs it.

* `left t` : the bytes that are still to be copied from the state `t`;
* `step_byte`, `step_test` : what one statement does to them;
* `returns_of_left` : the loop, from any label, in regions that do not overlap;
* `memcpy_copies` : the whole function is one copy, as the models of its callers have it.
-/

namespace YieldStm32.Memcpy

open Loop

/-- The next statement: the test of `size`, the line of a `case`, or the end of the loop. -/
inductive Label
  | entry | case0 | case7 | case6 | case5 | case4 | case3 | case2 | case1 | test
deriving DecidableEq

/-- What is read from memory and written to it. -/
inductive Access
  | read (addr : Nat)
  | write (addr : Nat)
deriving DecidableEq

/-- The variables of `memcpy`, memory, and the accesses made so far. -/
structure State (α : Type*) where
  dst : Nat
  size : BitVec 32
  d : Nat
  s : Nat
  n : BitVec 32
  pc : Label
  mem : Nat → α
  log : List Access

variable {α : Type*}

/-- The label `switch (size % 8)` goes to. -/
def switch (size : BitVec 32) : Label :=
  match (size % 8).toNat with
  | 0 => .case0
  | 7 => .case7
  | 6 => .case6
  | 5 => .case5
  | 4 => .case4
  | 3 => .case3
  | 2 => .case2
  | _ => .case1

/-- `*d++ = *s++;`, on to the next label. -/
def State.copyByte (t : State α) (next : Label) : State α :=
  { t with
    d := t.d + 1
    s := t.s + 1
    pc := next
    mem := Function.update t.mem t.d (t.mem t.s)
    log := t.log ++ [.read t.s, .write t.d] }

/-- One statement: `memcpy` returns, or goes on. -/
def step (t : State α) : Option Nat × State α :=
  match t.pc with
  | .entry => if t.size = 0 then (some t.dst, t) else (none, { t with pc := switch t.size })
  | .case0 => (none, t.copyByte .case7)
  | .case7 => (none, t.copyByte .case6)
  | .case6 => (none, t.copyByte .case5)
  | .case5 => (none, t.copyByte .case4)
  | .case4 => (none, t.copyByte .case3)
  | .case3 => (none, t.copyByte .case2)
  | .case2 => (none, t.copyByte .case1)
  | .case1 => (none, t.copyByte .test)
  | .test => if 0 < t.n - 1 then (none, { t with n := t.n - 1, pc := .case0 }) else (some t.dst, { t with n := t.n - 1 })

/-- `memcpy(dst, src, size)`, before its first statement. -/
def memcpy (m : Nat → α) (dst src : Nat) (size : BitVec 32) : State α :=
  { dst := dst, size := size, d := dst, s := src, n := (size + 7) / 8, pc := .entry, mem := m, log := [] }

/-- The bytes copied from a label to the end of the round. -/
def Label.bytes : Label → Nat
  | .case0 => 8
  | .case7 => 7
  | .case6 => 6
  | .case5 => 5
  | .case4 => 4
  | .case3 => 3
  | .case2 => 2
  | .case1 => 1
  | .test => 0
  | .entry => 0

/-- The bytes still to be copied inside the loop: the rest of this round, and the rounds behind it. -/
def left (t : State α) : Nat := t.pc.bytes + 8 * (t.n.toNat - 1)

/-- The accesses of a copy of `k` bytes, in order. -/
def accesses (dst src k : Nat) : List Access := (List.range k).flatMap fun i => [.read (src + i), .write (dst + i)]

theorem accesses_succ (dst src k : Nat) :
    accesses dst src (k + 1) = [.read src, .write dst] ++ accesses (dst + 1) (src + 1) k := by
  have hshift : ∀ a i : Nat, a + i.succ = a + 1 + i := by
    intro a i
    omega
  rw [accesses, List.range_succ_eq_map, List.flatMap_cons, List.flatMap_map]
  refine congrArg ([Access.read src, Access.write dst] ++ ·) (List.flatMap_congr fun i _ => ?_)
  rw [hshift src, hshift dst]

/-! ## One statement -/

theorem bytes_switch (size : BitVec 32) : (switch size).bytes % 8 = size.toNat % 8 ∧ 0 < (switch size).bytes ∧
    (switch size).bytes ≤ 8 ∧ switch size ≠ .test ∧ switch size ≠ .entry := by
  have hlt : size.toNat % 8 < 8 := Nat.mod_lt _ (by decide)
  have hmod : (size % 8).toNat = size.toNat % 8 := BitVec.toNat_umod
  rw [switch, hmod]
  generalize size.toNat % 8 = r at hlt ⊢
  revert r
  decide

/-- Inside a round a statement copies one byte. -/
theorem step_byte {t : State α} (hentry : t.pc ≠ .entry) (htest : t.pc ≠ .test) :
    ∃ next, step t = (none, t.copyByte next) ∧ next ≠ .entry ∧ left (t.copyByte next) + 1 = left t := by
  unfold step left State.copyByte
  cases hpc : t.pc with
  | entry => exact absurd hpc hentry
  | test => exact absurd hpc htest
  | case0 => exact ⟨_, rfl, nofun, by simp only [Label.bytes]; omega⟩
  | case7 => exact ⟨_, rfl, nofun, by simp only [Label.bytes]; omega⟩
  | case6 => exact ⟨_, rfl, nofun, by simp only [Label.bytes]; omega⟩
  | case5 => exact ⟨_, rfl, nofun, by simp only [Label.bytes]; omega⟩
  | case4 => exact ⟨_, rfl, nofun, by simp only [Label.bytes]; omega⟩
  | case3 => exact ⟨_, rfl, nofun, by simp only [Label.bytes]; omega⟩
  | case2 => exact ⟨_, rfl, nofun, by simp only [Label.bytes]; omega⟩
  | case1 => exact ⟨_, rfl, nofun, by simp only [Label.bytes]; omega⟩

/-- At its end another round begins, and the same bytes are left. -/
theorem step_test {t : State α} (hpc : t.pc = .test) (hn : 1 < t.n.toNat) :
    step t = (none, { t with n := t.n - 1, pc := .case0 }) ∧ (t.n - 1).toNat = t.n.toNat - 1 := by
  have hlt : 0 < t.n - 1 := by bv_omega
  refine ⟨?_, by bv_omega⟩
  unfold step
  rw [hpc]
  exact if_pos hlt

/-- After the last round the loop ends. -/
theorem step_last {t : State α} (hpc : t.pc = .test) (hn : t.n.toNat = 1) :
    step t = (some t.dst, { t with n := t.n - 1 }) := by
  have hge : ¬ 0 < t.n - 1 := by bv_omega
  unfold step
  rw [hpc]
  exact if_neg hge

/-! ## The loop -/

/-- The first byte, then the others: one copy. -/
theorem copyIn_byte (m : Nat → α) {d s k : Nat} (h : d + (k + 1) ≤ s ∨ s + (k + 1) ≤ d) :
    Ring.copyIn (Function.update m d (m s)) (d + 1) (Ring.copyOut (Function.update m d (m s)) (s + 1) k) =
      Ring.copyIn m d (Ring.copyOut m s (k + 1)) := by
  have hsrc : Ring.copyOut (Function.update m d (m s)) (s + 1) k = Ring.copyOut m (s + 1) k :=
    Ring.copyOut_congr fun i hi => Function.update_of_ne (by omega) ..
  have hcons : Ring.copyOut m s (k + 1) = m s :: Ring.copyOut m (s + 1) k := by
    rw [Nat.add_comm, Ring.copyOut_add]
    rfl
  rw [hsrc, hcons, Ring.copyIn_update]

/-- From any label inside the loop, the bytes that are left are copied one by one, and the loop ends. -/
theorem returns_of_left (k : Nat) {t : State α} (hpc : t.pc ≠ .entry) (hn : 0 < t.n.toNat) (hleft : left t = k)
    (hdis : t.d + k ≤ t.s ∨ t.s + k ≤ t.d) :
    ∃ t', Returns step t t.dst t' ∧ t'.mem = Ring.copyIn t.mem t.d (Ring.copyOut t.mem t.s k) ∧
      t'.log = t.log ++ accesses t.d t.s k := by
  induction k generalizing t with
  | zero =>
      -- nothing is left only at the end of the last round
      have hzero : t.pc.bytes = 0 ∧ t.n.toNat = 1 := by
        unfold left at hleft
        omega
      have htest : t.pc = .test := by
        cases h : t.pc <;> simp_all [Label.bytes]
      refine ⟨_, .of_ends (step_last htest hzero.2), ?_, ?_⟩
      · exact (Ring.copyIn_nil ..).symm
      · exact (List.append_nil _).symm
  | succ k ih =>
      -- one byte, from a state inside a round
      have hround : ∀ u : State α, u.pc ≠ .entry → u.pc ≠ .test → 0 < u.n.toNat → left u = k + 1 →
          u.d + (k + 1) ≤ u.s ∨ u.s + (k + 1) ≤ u.d →
          ∃ t', Returns step u u.dst t' ∧ t'.mem = Ring.copyIn u.mem u.d (Ring.copyOut u.mem u.s (k + 1)) ∧
            t'.log = u.log ++ accesses u.d u.s (k + 1) := by
        intro u hentry htest hnu hlu hdu
        obtain ⟨next, hstep, hnext, hdec⟩ := step_byte hentry htest
        have hdu' : u.d + 1 + k ≤ u.s + 1 ∨ u.s + 1 + k ≤ u.d + 1 := by omega
        obtain ⟨t', hret, hmem, hlog⟩ := @ih (u.copyByte next) hnext hnu (by omega) hdu'
        refine ⟨t', .of_goes hstep hret, ?_, ?_⟩
        · rw [hmem]
          exact copyIn_byte u.mem hdu
        · rw [hlog, accesses_succ, ← List.append_assoc]
          rfl
      by_cases htest : t.pc = .test
      · have hmore : 1 < t.n.toNat := by
          unfold left at hleft
          rw [htest] at hleft
          simp only [Label.bytes] at hleft
          omega
        obtain ⟨hstep, hpred⟩ := step_test htest hmore
        have hsame : left { t with n := t.n - 1, pc := .case0 } = k + 1 := by
          rw [← hleft]
          unfold left
          rw [hpred, htest]
          simp only [Label.bytes]
          omega
        obtain ⟨t', hret, hrest⟩ := hround { t with n := t.n - 1, pc := .case0 } nofun nofun
          (by show 0 < (t.n - 1).toNat; omega) hsame hdis
        exact ⟨t', .of_goes hstep hret, hrest⟩
      · exact hround t hpc htest hn hleft hdis

/-- Rounds and entry point together make up `size`. -/
theorem left_switch {size : BitVec 32} (hsize : size ≠ 0) (hle : size.toNat ≤ 2 ^ 32 - 8) :
    0 < ((size + 7) / 8).toNat ∧ (switch size).bytes + 8 * (((size + 7) / 8).toNat - 1) = size.toNat := by
  obtain ⟨hmod, hpos, hbytes, -, -⟩ := bytes_switch size
  have hn : ((size + 7) / 8).toNat = (size.toNat + 7) / 8 := by
    rw [BitVec.toNat_udiv, BitVec.toNat_add]
    show (size.toNat + 7) % 2 ^ 32 / 8 = _
    rw [Nat.mod_eq_of_lt (by omega)]
  have hne : size.toNat ≠ 0 := fun h => hsize (BitVec.eq_of_toNat_eq h)
  rw [hn]
  omega

/-- The copy the models of its callers have in place of a call. -/
theorem memcpy_copies (m : Nat → α) {dst src : Nat} {size : BitVec 32} (hle : size.toNat ≤ 2 ^ 32 - 8)
    (hdis : dst + size.toNat ≤ src ∨ src + size.toNat ≤ dst) :
    ∃ t, Returns step (memcpy m dst src size) dst t ∧ t.mem = Ring.copyIn m dst (Ring.copyOut m src size.toNat) ∧
      t.log = accesses dst src size.toNat := by
  by_cases hsize : size = 0
  · subst hsize
    exact ⟨_, .of_ends rfl, (Ring.copyIn_nil ..).symm, rfl⟩
  · obtain ⟨hn, hleft⟩ := left_switch hsize hle
    obtain ⟨-, -, -, -, hentry⟩ := bytes_switch size
    have hstep : step (memcpy m dst src size) = (none, { memcpy m dst src size with pc := switch size }) :=
      if_neg hsize
    obtain ⟨t, hret, hmem, hlog⟩ := @returns_of_left α size.toNat { memcpy m dst src size with pc := switch size }
      hentry hn hleft hdis
    exact ⟨t, .of_goes hstep hret, hmem, hlog⟩

/-- **`memcpy` is a byte copy**: in regions that do not overlap its loop ends and it returns its destination; byte `i` of the
source is byte `i` of the destination for `i < size`, memory is otherwise as it was, and each byte is read and written once,
in order, and nothing else. -/
theorem memcpy_bytes (m : Nat → α) {dst src : Nat} {size : BitVec 32} (hle : size.toNat ≤ 2 ^ 32 - 8)
    (hdis : dst + size.toNat ≤ src ∨ src + size.toNat ≤ dst) :
    ∃ t, Returns step (memcpy m dst src size) dst t ∧
      (∀ i < size.toNat, t.mem (dst + i) = m (src + i)) ∧
      (∀ a, (∀ i < size.toNat, a ≠ dst + i) → t.mem a = m a) ∧
      t.log = (List.range size.toNat).flatMap fun i => [.read (src + i), .write (dst + i)] := by
  obtain ⟨t, hret, hmem, hlog⟩ := memcpy_copies m hle hdis
  refine ⟨t, hret, fun i hi => ?_, fun a ha => ?_, hlog⟩
  · rw [hmem, Ring.copyIn_apply, if_pos (Nat.le_add_right ..), Nat.add_sub_cancel_left, Ring.copyOut, List.getElem?_map,
      List.getElem?_range hi]
    rfl
  · rw [hmem]
    refine dif_neg fun h => ?_
    rw [Ring.length_copyOut] at h
    exact ha (a - dst) h.2 (by omega)

/-- Eleven bytes: three in the first round, eight in the second. -/
theorem memcpy_bytes_eleven :
    ∃ t, Returns step (memcpy (fun a => a) 100 3 11) 100 t ∧ t.mem 103 = 6 ∧ t.mem 111 = 111 := by
  obtain ⟨t, hret, hin, hout, -⟩ := @memcpy_bytes _ (fun a => a) 100 3 11 (by decide) (by decide)
  exact ⟨t, hret, hin 3 (by decide), hout 111 (by decide)⟩

end YieldStm32.Memcpy
