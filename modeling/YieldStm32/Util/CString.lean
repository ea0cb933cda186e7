import YieldStm32.Lib.Ring
import YieldStm32.Lib.Traced
import YieldStm32.Util.Stdio

/-!
# Strings in memory (`util/src/string.c`)

* `StringAt` : a string in a memory, with the terminator behind it;
* `strcmpAt` : `strcmp`, with the bytes it reads of its first argument, `strcmpAt_val`, `strcmpAt_safe`.
-/

namespace YieldStm32.Stdio

open Traced

/-- A string at an address, which is not null. -/
structure StringAt (m : Nat → UInt8) (p : Nat) (s : List UInt8) : Prop where
  chars : ∀ i (h : i < s.length), m (p + i) = s[i]
  terminator : m (p + s.length) = 0
  nonzero : 0 ∉ s

namespace StringAt

variable {m : Nat → UInt8} {p : Nat} {s : List UInt8}

theorem ne_zero (h : StringAt m p s) {i : Nat} (hi : i < s.length) : m (p + i) ≠ 0 := by
  intro hzero
  rw [h.chars i hi] at hzero
  exact h.nonzero (hzero ▸ List.getElem_mem hi)

/-- What is behind the first characters is a string too. -/
theorem drop (h : StringAt m p s) {k : Nat} (hk : k ≤ s.length) : StringAt m (p + k) (s.drop k) where
  chars i hi := by
    rw [List.length_drop] at hi
    rw [List.getElem_drop, Nat.add_assoc, h.chars (k + i) (by omega)]
  terminator := by
    rw [List.length_drop, Nat.add_assoc, Nat.add_sub_cancel' hk]
    exact h.terminator
  nonzero hmem := h.nonzero (List.mem_of_mem_drop hmem)

theorem cons {c : UInt8} (h : StringAt m p (c :: s)) : m p = c ∧ c ≠ 0 ∧ StringAt m (p + 1) s := by
  refine ⟨h.chars 0 (by simp), fun hzero => h.nonzero (by simp [hzero]), ?_⟩
  simpa using h.drop (k := 1) (by simp)

/-- Only the bytes up to the terminator matter. -/
theorem getElem? (h : StringAt m p s) {i : Nat} (hi : i ≤ s.length) : s[i]? = if m (p + i) = 0 then none else some (m (p + i)) := by
  rcases Nat.lt_or_eq_of_le hi with hlt | rfl
  · rw [if_neg (h.ne_zero hlt), h.chars i hlt, List.getElem?_eq_getElem hlt]
  · rw [if_pos h.terminator, List.getElem?_eq_none (Nat.le_refl _)]

end StringAt

/-- A string that is copied with its terminator. -/
theorem stringAt_copyIn (m : Nat → UInt8) {s : List UInt8} (h : 0 ∉ s) : StringAt (Ring.copyIn m 0 (s ++ [0])) 0 s where
  chars i hi := by simp [Ring.copyIn_apply, List.getElem?_append_left hi, List.getElem?_eq_getElem hi]
  terminator := by simp [Ring.copyIn_apply]
  nonzero := h

/-- A string with zeros behind it. -/
theorem stringAt_getD {s : List UInt8} (h : 0 ∉ s) : StringAt (fun i => s.getD i 0) 0 s where
  chars i hi := by simp [List.getElem?_eq_getElem hi]
  terminator := by simp
  nonzero := h

/-- `strcmp(a, t) == 0` for a constant `t`, noting the bytes of `a` that are read. -/
def strcmpAt (m : Nat → UInt8) : List UInt8 → Nat → Traced Nat Bool
  | [], a => do
      let c ← note a (m a)
      pure (c == 0)
  | t :: ts, a => do
      let c ← note a (m a)
      if c = t then strcmpAt m ts (a + 1) else pure false

theorem strcmpAt_nil (m : Nat → UInt8) (a : Nat) : strcmpAt m [] a = note a (m a) >>= fun c => pure (c == 0) := rfl

theorem strcmpAt_cons (m : Nat → UInt8) (b : UInt8) (t : List UInt8) (a : Nat) : strcmpAt m (b :: t) a =
    note a (m a) >>= fun c => if c = b then strcmpAt m t (a + 1) else pure false := rfl

theorem strcmpAt_val {m : Nat → UInt8} {a : Nat} {s : List UInt8} (hs : StringAt m a s) {t : List UInt8} (ht : 0 ∉ t) :
    (strcmpAt m t a).val = decide (s = t) := by
  induction t generalizing a s with
  | nil =>
      cases s with
      | nil => simp [strcmpAt_nil, show m a = 0 from hs.terminator]
      | cons c s => simp [strcmpAt_nil, hs.cons.1, hs.cons.2.1]
  | cons b t ih =>
      obtain ⟨hb, ht⟩ : (0 : UInt8) ≠ b ∧ 0 ∉ t := by simpa using ht
      cases s with
      | nil => simp [strcmpAt_cons, show m a = 0 from hs.terminator, hb]
      | cons c s =>
          obtain ⟨hc, -, hrest⟩ := hs.cons
          simp only [strcmpAt_cons, val_bind, val_ite, val_pure, hc, ih hrest ht, List.cons.injEq]
          by_cases heq : c = b <;> simp [heq]

/-- Nothing behind the terminator is read. -/
theorem strcmpAt_safe {m : Nat → UInt8} {a : Nat} {s : List UInt8} (hs : StringAt m a s) {t : List UInt8} (ht : 0 ∉ t) :
    Safe (fun i => a ≤ i ∧ i ≤ a + s.length) (strcmpAt m t a) := by
  induction t generalizing a s with
  | nil => simp [strcmpAt_nil]
  | cons b t ih =>
      obtain ⟨hb, ht⟩ : (0 : UInt8) ≠ b ∧ 0 ∉ t := by simpa using ht
      have hfirst : a ≤ a ∧ a ≤ a + s.length := ⟨Nat.le_refl a, Nat.le_add_right ..⟩
      simp only [strcmpAt_cons, safe_bind, safe_note, safe_ite, safe_pure]
      refine ⟨hfirst, ?_⟩
      cases s with
      | nil =>
          rw [show m a = 0 from hs.terminator, if_neg hb]
          trivial
      | cons c s =>
          split
          · intro i hi
            obtain ⟨hlo, hhi⟩ := ih hs.cons.2.2 ht i hi
            rw [List.length_cons]
            omega
          · trivial

end YieldStm32.Stdio
