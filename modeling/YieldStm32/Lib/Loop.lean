import Mathlib.Data.Fintype.Card
import Mathlib.Data.Set.Finite.Basic
import Mathlib.Logic.Relation

/-!
# Loops that may go on for ever

The body of a loop is `pass : σ → Option ρ × σ`: it ends the loop with a result, or leaves the state of the next pass.

* `passes pass k s` : at most `k` passes, with the state they leave;
* `Ends pass s` : some number of passes is enough;
* `Returns pass s r s'` : it ends with this result, and leaves this state;
* `passes_induction` : the invariant rule, for any number of passes;
* `ends_iff_acc` : a loop ends if and only if its state is accessible under `Goes pass`;
* `acc_iff_acyclic` : on finitely many states, that is so where no cycle can be reached.
-/

namespace Loop

open Relation

variable {σ ρ : Type*} (pass : σ → Option ρ × σ)

/-- The first `k` passes: a result if they end the loop, and the state they leave. -/
def passes : Nat → σ → Option ρ × σ
  | 0, s => (none, s)
  | k + 1, s =>
      match pass s with
      | (none, s') => passes k s'
      | (some r, s') => (some r, s')

def Ends (s : σ) : Prop := ∃ k, (passes pass k s).1.isSome

/-- The loop ends with `r`, and leaves `s'`. -/
def Returns (s : σ) (r : ρ) (s' : σ) : Prop := ∃ k, passes pass k s = (some r, s')

/-- The loop goes on from `s` to `s'`. -/
def Goes (s' s : σ) : Prop := pass s = (none, s')

variable {pass} {s s' t : σ} {r : ρ} {k : Nat}

theorem passes_of_goes (k : Nat) (h : pass s = (none, s')) : passes pass (k + 1) s = passes pass k s' := by
  rw [passes, h]

theorem passes_of_ends (k : Nat) (h : pass s = (some r, s')) : passes pass (k + 1) s = (some r, s') := by
  rw [passes, h]

/-- What every pass that goes on keeps holds as long as the loop goes on, and `Q` of what the last one leaves. -/
theorem passes_induction {I : σ → Prop} {Q : ρ → σ → Prop} (hgo : ∀ s s', I s → pass s = (none, s') → I s')
    (hend : ∀ s s' r, I s → pass s = (some r, s') → Q r s') (k : Nat) {s : σ} (hs : I s) :
    ((passes pass k s).1 = none → I (passes pass k s).2) ∧ ∀ r ∈ (passes pass k s).1, Q r (passes pass k s).2 := by
  induction k generalizing s with
  | zero => exact ⟨fun _ => hs, fun r hr => by cases hr⟩
  | succ k ih =>
      obtain ⟨o, s', h⟩ : ∃ o s', pass s = (o, s') := ⟨_, _, rfl⟩
      cases o with
      | none =>
          rw [passes_of_goes k h]
          exact ih (hgo s s' hs h)
      | some r =>
          rw [passes_of_ends k h]
          refine ⟨fun hnone => absurd hnone (Option.some_ne_none r), fun r' hr' => ?_⟩
          cases hr'
          exact hend s s' r hs h

/-- More passes change nothing once the loop has ended. -/
theorem passes_mono {j : Nat} (hjk : j ≤ k) (h : passes pass j s = (some r, s')) : passes pass k s = (some r, s') := by
  induction j generalizing k s with
  | zero => cases h
  | succ j ih =>
      obtain ⟨k, rfl⟩ := Nat.exists_eq_add_of_le' hjk
      obtain ⟨o, t, hp⟩ : ∃ o t, pass s = (o, t) := ⟨_, _, rfl⟩
      cases o with
      | none =>
          rw [passes_of_goes j hp] at h
          rw [← Nat.add_assoc, passes_of_goes (k + j) hp]
          exact ih (Nat.le_add_left j k) h
      | some r' =>
          rw [passes_of_ends j hp] at h
          rw [← Nat.add_assoc, passes_of_ends (k + j) hp, h]

theorem Returns.of_ends (h : pass s = (some r, s')) : Returns pass s r s' := ⟨1, passes_of_ends 0 h⟩

theorem Returns.of_goes (h : pass s = (none, t)) (ht : Returns pass t r s') : Returns pass s r s' := by
  obtain ⟨k, hk⟩ := ht
  exact ⟨k + 1, (passes_of_goes k h).trans hk⟩

/-- There is one result. -/
theorem Returns.unique {r' : ρ} (h : Returns pass s r s') (ht : Returns pass s r' t) : r = r' ∧ s' = t := by
  obtain ⟨j, hj⟩ := h
  obtain ⟨k, hk⟩ := ht
  have heq := (passes_mono (Nat.le_max_left j k) hj).symm.trans (passes_mono (Nat.le_max_right j k) hk)
  cases heq
  exact ⟨rfl, rfl⟩

/-! ## Ending -/

theorem ends_iff_acc : Ends pass s ↔ Acc (Goes pass) s := by
  constructor
  · rintro ⟨k, hk⟩
    induction k generalizing s with
    | zero => cases hk
    | succ k ih =>
        refine Acc.intro s fun t ht => ih ?_
        rwa [passes_of_goes k ht] at hk
  · intro h
    induction h with
    | intro s _ ih =>
        obtain ⟨o, t, hp⟩ : ∃ o t, pass s = (o, t) := ⟨_, _, rfl⟩
        cases o with
        | none =>
            obtain ⟨k, hk⟩ := ih t hp
            exact ⟨k + 1, by rwa [passes_of_goes k hp]⟩
        | some r => exact ⟨1, by rw [passes_of_ends 0 hp]; rfl⟩

/-! ## Relations on finitely many elements -/

section Acyclic

variable {α : Type*} {r : α → α → Prop} {a b : α}

theorem acc_of_reflTransGen (h : Acc (flip r) a) (hab : ReflTransGen r a b) : Acc (flip r) b := by
  induction hab with
  | refl => exact h
  | tail _ hbc ih => exact ih.inv hbc

theorem not_transGen_self_of_acc (h : Acc (flip r) a) : ¬ TransGen r a a := by
  induction h with
  | intro a _ ih =>
      intro hcycle
      obtain ⟨b, hab, hba⟩ := TransGen.head'_iff.1 hcycle
      exact ih b hab (TransGen.tail' hba hab)

/-- Where finitely many elements can be reached, each way from one to the next is finite if and only if none of them can be
reached from itself. -/
theorem acc_iff_acyclic (hfin : {b | ReflTransGen r a b}.Finite) :
    Acc (flip r) a ↔ ∀ b, ReflTransGen r a b → ¬ TransGen r b b := by
  constructor
  · intro h b hab
    exact not_transGen_self_of_acc (acc_of_reflTransGen h hab)
  · intro h
    have hfinite : Finite {b // ReflTransGen r a b} := hfin
    let below : {b // ReflTransGen r a b} → {b // ReflTransGen r a b} → Prop := fun c b => TransGen r b.1 c.1
    have htrans : IsTrans _ below := ⟨fun _ _ _ hcb hba => hba.trans hcb⟩
    have hirrefl : Std.Irrefl below := ⟨fun b => h b.1 b.2⟩
    have hwf : WellFounded below := Finite.wellFounded_of_trans_of_irrefl below
    have hacc : ∀ b : {b // ReflTransGen r a b}, Acc (flip r) b.1 := by
      intro b
      induction b using hwf.induction with
      | _ b ih => exact Acc.intro b.1 fun c hbc => ih ⟨c, b.2.tail hbc⟩ (TransGen.single hbc)
    exact hacc ⟨a, .refl⟩

end Acyclic

end Loop
