import Mathlib.Algebra.GroupWithZero.Nat
import Mathlib.Data.List.Basic
import Mathlib.Data.List.Forall2

/-!
# Runs of a step function that may fault

A system is a step function `step : σ → ε → Option σ`; `none` is a step that faults or is not enabled.

* `run step s es` : the state after the events `es`, `none` if one of them has no successor;
* `Meets step G s es` : the guard `G` holds of every state and event the run comes to;
* `Along step P s es` : the relation `P` holds of every step the run takes;
* `trace step out s es` : what its steps put out;
* `tableStep step target ss e` : a table of systems, of which each event moves one.

`run_keeps`, `keeps_of_meets`, `run_of_meets` and `along_of_meets` are the invariant rules; `along_iff_meets` turns a
guard that is exact for one step into one that is exact for a whole run; `run_of_simulates` is the rule for a run of
another system, `runs_of_simulates` for one whose steps are a relation, and `trace_balance` for what goes in, comes out
and is kept.
-/

namespace Transition

variable {σ ε : Type*} (step : σ → ε → Option σ)

/-- The state after a list of events. -/
def run : σ → List ε → Option σ
  | s, [] => some s
  | s, e :: es => (step s e).bind fun s' => run s' es

/-- `G` holds of each state and the event taken in it. -/
def Meets (G : σ → ε → Prop) : σ → List ε → Prop
  | _, [] => True
  | s, e :: es => G s e ∧ ∀ s', step s e = some s' → Meets G s' es

/-- `P` holds of each step `(s, e, s')` the run takes. -/
def Along (P : σ → ε → σ → Prop) : σ → List ε → Prop
  | _, [] => True
  | s, e :: es => ∀ s', step s e = some s' → P s e s' ∧ Along P s' es

variable {step} {I : σ → Prop} {G : σ → ε → Prop} {P : σ → ε → σ → Prop}

theorem run_cons {s s' : σ} {e : ε} (es : List ε) (h : step s e = some s') :
    run step s (e :: es) = run step s' es := by
  rw [run, h, Option.bind_some]

theorem Meets.cons {s s' : σ} {e : ε} {es : List ε} (h : Meets step G s (e :: es))
    (hs : step s e = some s') : Meets step G s' es := h.2 s' hs

/-- A decidable guard can be checked along a run. -/
instance decidableMeets [∀ s e, Decidable (G s e)] : ∀ s es, Decidable (Meets step G s es)
  | _, [] => isTrue trivial
  | s, e :: es =>
    match h : step s e with
    | none => decidable_of_iff (G s e) ⟨fun g => ⟨g, fun s' hs => by rw [h] at hs; cases hs⟩, And.left⟩
    | some s' =>
      have := decidableMeets s' es
      decidable_of_iff (G s e ∧ Meets step G s' es)
        ⟨fun g => ⟨g.1, fun s'' hs => by rw [h] at hs; cases hs; exact g.2⟩, fun g => ⟨g.1, g.2 s' h⟩⟩

theorem Meets.mono {G' : σ → ε → Prop} (h : ∀ s e, G s e → G' s e) {s : σ} {es : List ε}
    (hm : Meets step G s es) : Meets step G' s es := by
  induction es generalizing s with
  | nil => trivial
  | cons e es ih => exact ⟨h s e hm.1, fun s' hs => ih (hm.2 s' hs)⟩

theorem Meets.and {G' : σ → ε → Prop} {s : σ} {es : List ε} (h : Meets step G s es) (h' : Meets step G' s es) :
    Meets step (fun s e => G s e ∧ G' s e) s es := by
  induction es generalizing s with
  | nil => trivial
  | cons e es ih => exact ⟨⟨h.1, h'.1⟩, fun s' hs => ih (h.2 s' hs) (h'.2 s' hs)⟩

/-- The second part of a run begins where the first one ends. -/
theorem meets_append {s s' : σ} {es fs : List ε} (hr : run step s es = some s') :
    Meets step G s (es ++ fs) ↔ Meets step G s es ∧ Meets step G s' fs := by
  induction es generalizing s with
  | nil =>
      obtain rfl := Option.some.inj hr
      exact ⟨fun h => ⟨True.intro, h⟩, And.right⟩
  | cons e es ih =>
      obtain ⟨t, ht, hr⟩ := Option.bind_eq_some_iff.1 hr
      simp only [List.cons_append, Meets, ht, Option.some.injEq, forall_eq', ih hr, and_assoc]

/-- What every step keeps holds after a run. -/
theorem run_keeps (hstep : ∀ s e s', I s → step s e = some s' → I s') {s s' : σ} {es : List ε} (hs : I s)
    (hr : run step s es = some s') : I s' := by
  induction es generalizing s with
  | nil =>
      obtain rfl := Option.some.inj hr
      exact hs
  | cons e es ih =>
      obtain ⟨t, ht, hr⟩ := Option.bind_eq_some_iff.1 hr
      exact ih (hstep s e t hs ht) hr

/-- What the steps of a run take off a measure, together. -/
theorem run_spends {left : σ → Nat} {cost : ε → Nat} (hstep : ∀ s e s', step s e = some s' → left s = left s' + cost e)
    {s s' : σ} {es : List ε} (hr : run step s es = some s') : left s = left s' + (es.map cost).sum := by
  induction es generalizing s with
  | nil =>
      obtain rfl := Option.some.inj hr
      rfl
  | cons e es ih =>
      obtain ⟨t, ht, hr⟩ := Option.bind_eq_some_iff.1 hr
      rw [hstep s e t ht, ih hr, List.map_cons, List.sum_cons, Nat.add_assoc, Nat.add_comm (cost e)]

/-- What every step keeps where the guard holds, holds after a guarded run. -/
theorem keeps_of_meets (hstep : ∀ s e s', I s → G s e → step s e = some s' → I s') {s s' : σ} {es : List ε} (hs : I s)
    (hm : Meets step G s es) (hr : run step s es = some s') : I s' := by
  induction es generalizing s with
  | nil =>
      obtain rfl := Option.some.inj hr
      exact hs
  | cons e es ih =>
      obtain ⟨t, ht, hr⟩ := Option.bind_eq_some_iff.1 hr
      exact ih (hstep s e t hs hm.1 ht) (hm.cons ht) hr

/-- A step that keeps `I` wherever the guard holds, and does not fault there, never faults along a guarded run. -/
theorem run_of_meets (hstep : ∀ s e, I s → G s e → ∃ s', step s e = some s' ∧ I s') {s : σ} {es : List ε}
    (hs : I s) (hm : Meets step G s es) : ∃ s', run step s es = some s' ∧ I s' := by
  induction es generalizing s with
  | nil => exact ⟨s, rfl, hs⟩
  | cons e es ih =>
      obtain ⟨s', he, hs'⟩ := hstep s e hs hm.1
      rw [run_cons es he]
      exact ih hs' (hm.cons he)

/-- The same rule for what each step does. -/
theorem along_of_meets (hstep : ∀ s e s', I s → G s e → step s e = some s' → I s' ∧ P s e s') {s : σ}
    {es : List ε} (hs : I s) (hm : Meets step G s es) : Along step P s es := by
  induction es generalizing s with
  | nil => trivial
  | cons e es ih =>
      intro s' he
      obtain ⟨hs', hp⟩ := hstep s e s' hs hm.1 he
      exact ⟨hp, ih hs' (hm.cons he)⟩

/-- What holds along a run holds of its last step. -/
theorem Along.last {s s' s'' : σ} {e : ε} {es : List ε} (h : Along step P s (es ++ [e]))
    (hr : run step s es = some s') (hs : step s' e = some s'') : P s' e s'' := by
  induction es generalizing s with
  | nil =>
      obtain rfl := Option.some.inj hr
      exact (h s'' hs).1
  | cons e' es ih =>
      obtain ⟨t, ht, hr⟩ := Option.bind_eq_some_iff.1 hr
      exact ih (h t ht).2 hr

/-- Where a guard is exact for one step within a domain `D`, and keeps `I`, it is exact for a whole run in `D`. -/
theorem along_iff_meets_within {D : σ → ε → Prop} (hnone : ∀ s e, I s → D s e → step s e = none → G s e)
    (hstep : ∀ s e s', I s → D s e → step s e = some s' → (P s e s' ↔ G s e) ∧ (G s e → I s')) {s : σ} {es : List ε}
    (hs : I s) (hd : Meets step D s es) : Along step P s es ↔ Meets step G s es := by
  induction es generalizing s with
  | nil => exact Iff.rfl
  | cons e es ih =>
      cases he : step s e with
      | none =>
          exact ⟨fun _ => ⟨hnone s e hs hd.1 he, fun s' hs' => by simp [he] at hs'⟩, fun _ s' hs' => by simp [he] at hs'⟩
      | some s' =>
          obtain ⟨hiff, hkeep⟩ := hstep s e s' hs hd.1 he
          simp only [Along, Meets, he, Option.some.injEq, forall_eq']
          constructor
          · rintro ⟨hp, hrest⟩
            exact ⟨hiff.1 hp, (ih (hkeep (hiff.1 hp)) (hd.cons he)).1 hrest⟩
          · rintro ⟨hg, hrest⟩
            exact ⟨hiff.2 hg, (ih (hkeep hg) (hd.cons he)).2 hrest⟩

theorem Meets.of_forall (h : ∀ s e, G s e) (s : σ) (es : List ε) : Meets step G s es := by
  induction es generalizing s with
  | nil => trivial
  | cons e es ih => exact ⟨h s e, fun s' _ => ih s'⟩

/-- Where a guard is exact for one step, and keeps `I`, it is exact for a whole run. -/
theorem along_iff_meets (hnone : ∀ s e, I s → step s e = none → G s e)
    (hstep : ∀ s e s', I s → step s e = some s' → (P s e s' ↔ G s e) ∧ (G s e → I s')) {s : σ} {es : List ε}
    (hs : I s) : Along step P s es ↔ Meets step G s es :=
  along_iff_meets_within (fun s e hs _ => hnone s e hs) (fun s e s' hs _ => hstep s e s' hs) hs
    (Meets.of_forall (fun _ _ => True.intro) s es)

/-- A run of a system whose steps are a relation. -/
inductive Runs {τ : Type*} (R : τ → ε → τ → Prop) : τ → List ε → τ → Prop
  | nil (t : τ) : Runs R t [] t
  | cons {t t' t'' : τ} {e : ε} {es : List ε} : R t e t' → Runs R t' es t'' → Runs R t (e :: es) t''

/-- Where each guarded step is one of such a system, so is each guarded run. -/
theorem runs_of_simulates {τ : Type*} {R : τ → ε → τ → Prop} {Rel : σ → τ → Prop}
    (hstep : ∀ s e s' t, Rel s t → G s e → step s e = some s' → ∃ t', R t e t' ∧ Rel s' t') {s s' : σ} {t : τ}
    {es : List ε} (hs : Rel s t) (hm : Meets step G s es) (hr : run step s es = some s') :
    ∃ t', Runs R t es t' ∧ Rel s' t' := by
  induction es generalizing s t with
  | nil =>
      obtain rfl := Option.some.inj hr
      exact ⟨t, .nil t, hs⟩
  | cons e es ih =>
      obtain ⟨u, hu, hr⟩ := Option.bind_eq_some_iff.1 hr
      obtain ⟨t₁, ht₁, hs₁⟩ := hstep s e u t hs hm.1 hu
      obtain ⟨t', ht', hs'⟩ := ih hs₁ (hm.cons hu) hr
      exact ⟨t', .cons ht₁ ht', hs'⟩

/-! ## What a run puts out -/

section Trace

variable {ο : Type*}

/-- The outputs of the steps a run takes. -/
def trace (step : σ → ε → Option σ) (out : σ → ε → σ → List ο) : σ → List ε → List ο
  | _, [] => []
  | s, e :: es => (step s e).elim [] fun s' => out s e s' ++ trace step out s' es

variable {out : σ → ε → σ → List ο}

theorem trace_cons {s s' : σ} {e : ε} (es : List ε) (h : step s e = some s') :
    trace step out s (e :: es) = out s e s' ++ trace step out s' es := by
  rw [trace, h, Option.elim_some]

theorem run_append {s s' : σ} {es : List ε} (fs : List ε) (hr : run step s es = some s') :
    run step s (es ++ fs) = run step s' fs := by
  induction es generalizing s with
  | nil =>
      obtain rfl := Option.some.inj hr
      rfl
  | cons e es ih =>
      obtain ⟨t, ht, hr⟩ := Option.bind_eq_some_iff.1 hr
      rw [List.cons_append, run_cons _ ht, ih hr]

theorem trace_append {s s' : σ} {es : List ε} (fs : List ε) (hr : run step s es = some s') :
    trace step out s (es ++ fs) = trace step out s es ++ trace step out s' fs := by
  induction es generalizing s with
  | nil =>
      obtain rfl := Option.some.inj hr
      rfl
  | cons e es ih =>
      obtain ⟨t, ht, hr⟩ := Option.bind_eq_some_iff.1 hr
      rw [List.cons_append, trace_cons _ ht, trace_cons _ ht, ih hr, List.append_assoc]

/-- An output of a run is one of a step it takes, in a state with every property that steps keep. -/
theorem forall_mem_trace {Q : ο → Prop} (hstep : ∀ s e s', I s → step s e = some s' → I s' ∧ ∀ o ∈ out s e s', Q o)
    {s : σ} {es : List ε} (hs : I s) : ∀ o ∈ trace step out s es, Q o := by
  induction es generalizing s with
  | nil => exact fun o ho => absurd ho List.not_mem_nil
  | cons e es ih =>
      intro o ho
      cases he : step s e with
      | none =>
          rw [trace, he] at ho
          exact absurd ho List.not_mem_nil
      | some s' =>
          rw [trace_cons es he] at ho
          obtain ⟨hs', hout⟩ := hstep s e s' hs he
          rcases List.mem_append.1 ho with ho | ho
          · exact hout o ho
          · exact ih hs' o ho

/-- **Simulation**: where each step is some steps of a second system, with the same outputs, each run is a run of it. -/
theorem run_of_simulates {τ δ : Type*} {spec : τ → δ → Option τ} {out' : τ → δ → τ → List ο} {R : σ → τ → Prop}
    {ops : σ → ε → σ → List δ}
    (hstep : ∀ s e s' a, R s a → step s e = some s' → ∃ a', run spec a (ops s e s') = some a' ∧ R s' a' ∧
      trace spec out' a (ops s e s') = out s e s') {s s' : σ} {a : τ} {es : List ε} (hs : R s a)
    (hr : run step s es = some s') :
    ∃ a', run spec a (trace step ops s es) = some a' ∧ R s' a' ∧
      trace spec out' a (trace step ops s es) = trace step out s es := by
  induction es generalizing s a with
  | nil =>
      obtain rfl := Option.some.inj hr
      exact ⟨a, rfl, hs, rfl⟩
  | cons e es ih =>
      obtain ⟨t, ht, hr⟩ := Option.bind_eq_some_iff.1 hr
      obtain ⟨b, hb, hRb, hout⟩ := hstep s e t a hs ht
      obtain ⟨a', ha', hRa', houts⟩ := ih hRb hr
      refine ⟨a', ?_, hRa', ?_⟩
      · rw [trace_cons es ht, run_append _ hb, ha']
      · rw [trace_cons es ht, trace_cons es ht, trace_append _ hb, hout, houts]

/-- **A stream in blocks**: where each step passes on the elements that came in, in blocks that its outputs carry, and
keeps the rest in store, so does a whole run. -/
theorem trace_balance {β ι : Type*} {store : σ → List β} {inp : σ → ε → σ → List β} {out : σ → ε → σ → List ι}
    {D : ι → List β → Prop}
    (hstep : ∀ s e s', I s → step s e = some s' → I s' ∧ ∃ bss : List (List β), List.Forall₂ D (out s e s') bss ∧
      store s ++ inp s e s' = bss.flatten ++ store s')
    {s s' : σ} {es : List ε} (hs : I s) (hr : run step s es = some s') :
    ∃ bss : List (List β), List.Forall₂ D (trace step out s es) bss ∧
      store s ++ trace step inp s es = bss.flatten ++ store s' := by
  induction es generalizing s with
  | nil =>
      obtain rfl := Option.some.inj hr
      exact ⟨[], .nil, List.append_nil _⟩
  | cons e es ih =>
      obtain ⟨t, ht, hr⟩ := Option.bind_eq_some_iff.1 hr
      obtain ⟨hi, bss, hD, hbal⟩ := hstep s e t hs ht
      obtain ⟨bss', hD', hbal'⟩ := ih hi hr
      refine ⟨bss ++ bss', ?_, ?_⟩
      · rw [trace_cons es ht]
        exact List.rel_append hD hD'
      · rw [trace_cons es ht, ← List.append_assoc, hbal, List.append_assoc, hbal', List.flatten_append,
          List.append_assoc]

end Trace

/-! ## A table of systems, each event for at most one of them -/

section Table

variable {target : List σ → ε → Option Nat}

/-- A step of the system the event is for. -/
def tableStep (step : σ → ε → Option σ) (target : List σ → ε → Option Nat) (ss : List σ) (e : ε) : Option (List σ) :=
  match target ss e with
  | none => some ss
  | some i => ss[i]?.bind fun s => (step s e).map fun s' => ss.set i s'

/-- The guard of the system the event is for. -/
def TableGuard (G : σ → ε → Prop) (target : List σ → ε → Option Nat) (ss : List σ) (e : ε) : Prop :=
  ∀ i s, target ss e = some i → ss[i]? = some s → G s e

instance [∀ s e, Decidable (G s e)] (target : List σ → ε → Option Nat) (ss : List σ) (e : ε) :
    Decidable (TableGuard G target ss e) :=
  match h : target ss e with
  | none => isTrue fun i s hi => by rw [h] at hi; cases hi
  | some i =>
    match h' : ss[i]? with
    | none => isTrue fun j s hj hs => by rw [h] at hj; cases hj; rw [h'] at hs; cases hs
    | some s =>
      decidable_of_iff (G s e) ⟨fun g j t hj ht => by rw [h] at hj; cases hj; rw [h'] at ht; cases ht; exact g,
        fun g => g i s h h'⟩

/-- What the guarded steps of one system keep, every system of the table keeps. -/
theorem tableStep_keeps (hstep : ∀ s e s', I s → G s e → step s e = some s' → I s') {ss ss' : List σ} {e : ε}
    (hs : ∀ s ∈ ss, I s) (hg : TableGuard G target ss e) (h : tableStep step target ss e = some ss') :
    ∀ s ∈ ss', I s := by
  unfold tableStep at h
  cases ht : target ss e with
  | none =>
      rw [ht] at h
      obtain rfl := Option.some.inj h
      exact hs
  | some i =>
      rw [ht] at h
      obtain ⟨s, hsi, h⟩ := Option.bind_eq_some_iff.1 h
      obtain ⟨s', hs', rfl⟩ := Option.map_eq_some_iff.1 h
      intro t hmem
      rcases List.mem_or_eq_of_mem_set hmem with hold | rfl
      · exact hs t hold
      · exact hstep s e t (hs s (List.mem_of_getElem? hsi)) (hg i s ht hsi) hs'

/-- A system of the table is as it was, or the event was for it. -/
theorem tableStep_at {ss ss' : List σ} {e : ε} (h : tableStep step target ss e = some ss') {j : Nat} {s s' : σ}
    (hs : ss[j]? = some s) (hs' : ss'[j]? = some s') : s' = s ∨ target ss e = some j ∧ step s e = some s' := by
  unfold tableStep at h
  cases ht : target ss e with
  | none =>
      rw [ht] at h
      obtain rfl := Option.some.inj h
      exact Or.inl (Option.some.inj (hs'.symm.trans hs))
  | some i =>
      rw [ht] at h
      obtain ⟨t, hti, h⟩ := Option.bind_eq_some_iff.1 h
      obtain ⟨t', ht', rfl⟩ := Option.map_eq_some_iff.1 h
      by_cases hij : i = j
      · subst hij
        obtain ⟨hlt, -⟩ := List.getElem?_eq_some_iff.1 hs
        rw [List.getElem?_set_self hlt] at hs'
        obtain rfl := Option.some.inj hs'
        obtain rfl := Option.some.inj (hti.symm.trans hs)
        exact Or.inr ⟨rfl, ht'⟩
      · rw [List.getElem?_set_ne hij] at hs'
        exact Or.inl (Option.some.inj (hs'.symm.trans hs))

end Table

end Transition
