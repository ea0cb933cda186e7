import Mathlib.Data.List.Nodup
import YieldStm32.Lib.Run

/-!
# Round robin

A queue whose head has its turn. A turn ends with the head at the end of the queue, or gone, and the next one is served.

* `step` : joining the queue at its end, ending a turn, leaving;
* `served` : who is served, in order;
* `served_between` : between two turns of `T` all others in the queue are served, once each and in their order;
* `not_served` : who is gone is not served again;
* `Before` : who has its turn before whom.
-/

namespace RoundRobin

open Transition

variable {τ : Type*}

inductive Op (τ : Type*) where
  | join (t : τ)
  | turn
  | leave

/-- The queue after an operation. The last one cannot leave. -/
def step : List τ → Op τ → Option (List τ)
  | q, .join t => some (q ++ [t])
  | x :: q, .turn => some (q ++ [x])
  | _ :: y :: q, .leave => some (y :: q)
  | _, _ => none

/-- Who is served: the new head, after a turn has ended. -/
def serves (_ : List τ) : Op τ → List τ → List τ
  | .join _, _ => []
  | _, q => q.take 1

/-- Who is served along a run. -/
def served : List τ → List (Op τ) → List τ := trace step serves

variable {T U x t : τ} {q q' F B as : List τ} {ops : List (Op τ)}

theorem served_join : served q (.join t :: ops) = served (q ++ [t]) ops := by
  cases q <;> rfl

theorem served_turn : served (x :: q) (.turn :: ops) = (q ++ [x]).take 1 ++ served (q ++ [x]) ops := rfl

theorem served_leave : served (x :: t :: q) (.leave :: ops) = t :: served (t :: q) ops := rfl

/-- Who is not in the queue, and does not join it, is not served. -/
theorem not_served (hT : T ∉ q) (hjoin : Op.join T ∉ ops) : T ∉ served q ops := by
  induction ops generalizing q with
  | nil => exact List.not_mem_nil
  | cons op ops ih =>
      have hjoin' : Op.join T ∉ ops := fun h => hjoin (List.mem_cons_of_mem op h)
      cases op with
      | join t =>
          rw [served_join]
          refine ih ?_ hjoin'
          rw [List.mem_append, List.mem_singleton]
          rintro (h | rfl)
          · exact hT h
          · exact hjoin List.mem_cons_self
      | turn =>
          cases q with
          | nil => exact List.not_mem_nil
          | cons x q =>
              have hq : T ∉ q ++ [x] := fun h => hT ((List.perm_append_singleton x q).mem_iff.1 h)
              rw [served_turn, List.mem_append]
              rintro (h | h)
              · exact hq (List.mem_of_mem_take h)
              · exact ih hq hjoin' h
      | leave =>
          match q with
          | [] => exact List.not_mem_nil
          | [x] => exact List.not_mem_nil
          | x :: y :: q =>
              have hq : T ∉ y :: q := fun h => hT (List.mem_cons_of_mem x h)
              rw [served_leave, List.mem_cons]
              rintro (rfl | h)
              · exact hq List.mem_cons_self
              · exact ih hq hjoin' h

/-- One more is served before `T`. -/
theorem tail_of_served {y : τ} {rest : List τ} (hy : y ≠ T) (h : y :: rest = as ++ [T]) :
    ∃ as', as = y :: as' ∧ rest = as' ++ [T] := by
  cases as with
  | nil => exact absurd (List.cons.inj h).1 hy
  | cons a as' =>
      obtain ⟨rfl, hrest⟩ := List.cons.inj h
      exact ⟨as', rfl, hrest⟩

/-- `T` is served next. -/
theorem nil_of_served {rest : List τ} (hT : T ∉ as) (h : T :: rest = as ++ [T]) : as = [] := by
  cases as with
  | nil => rfl
  | cons a as' => exact absurd (List.mem_cons.2 (.inl (List.cons.inj h).1)) hT

/-- While `T` waits, those between the head and `T` are served, in their order. -/
theorem served_before (hF : T ∉ F) (hrun : run step (x :: F ++ T :: B) ops = some q')
    (hs : served (x :: F ++ T :: B) ops = as ++ [T]) (hT : T ∉ as) : as = F := by
  induction ops generalizing x F B as with
  | nil => exact absurd hs.symm (List.append_ne_nil_of_right_ne_nil as (List.cons_ne_nil T []))
  | cons op ops ih =>
      cases op with
      | join t =>
          have hq : x :: F ++ T :: B ++ [t] = x :: F ++ T :: (B ++ [t]) := List.append_assoc (x :: F) (T :: B) [t]
          rw [served_join, hq] at hs
          rw [run_cons ops (show step (x :: F ++ T :: B) (.join t) = some (x :: F ++ T :: (B ++ [t])) by
            rw [← hq]; rfl)] at hrun
          exact ih hF hrun hs hT
      | turn =>
          have hq : F ++ T :: B ++ [x] = F ++ T :: (B ++ [x]) := List.append_assoc F (T :: B) [x]
          rw [List.cons_append, served_turn, hq] at hs
          rw [run_cons ops (show step (x :: F ++ T :: B) .turn = some (F ++ T :: (B ++ [x])) by
            rw [← hq]; rfl)] at hrun
          cases F with
          | nil => exact nil_of_served hT hs
          | cons y F' =>
              have hy : y ≠ T := fun he => hF (he ▸ List.mem_cons_self)
              obtain ⟨as', rfl, hs'⟩ := tail_of_served hy hs
              rw [ih (fun h => hF (List.mem_cons_of_mem y h)) hrun hs' fun h => hT (List.mem_cons_of_mem y h)]
      | leave =>
          cases F with
          | nil => exact nil_of_served hT hs
          | cons y F' =>
              have hy : y ≠ T := fun he => hF (he ▸ List.mem_cons_self)
              obtain ⟨as', rfl, hs'⟩ := tail_of_served hy hs
              rw [ih (fun h => hF (List.mem_cons_of_mem y h)) hrun hs' fun h => hT (List.mem_cons_of_mem y h)]

/-- **Between two turns of `T`, the queue behind it is served in its order**, followed by those that joined it during `T`'s
turn. -/
theorem served_between (hq : T ∉ q) (hjoin : Op.join T ∉ ops) (hrun : run step (T :: q) ops = some q')
    (hs : served (T :: q) ops = as ++ [T]) (hT : T ∉ as) : ∃ J, as = q ++ J ∧ ∀ j ∈ J, Op.join j ∈ ops := by
  induction ops generalizing q with
  | nil => exact absurd hs.symm (List.append_ne_nil_of_right_ne_nil as (List.cons_ne_nil T []))
  | cons op ops ih =>
      have hjoin' : Op.join T ∉ ops := fun h => hjoin (List.mem_cons_of_mem op h)
      cases op with
      | join t =>
          have htT : T ≠ t := by
            rintro rfl
            exact hjoin List.mem_cons_self
          have hq' : T ∉ q ++ [t] := by
            rw [List.mem_append, List.mem_singleton]
            exact fun h => h.elim hq htT
          rw [served_join] at hs
          rw [run_cons ops (show step (T :: q) (.join t) = some (T :: (q ++ [t])) from rfl)] at hrun
          obtain ⟨J, rfl, hJ⟩ := ih hq' hjoin' hrun hs
          refine ⟨t :: J, by rw [List.append_assoc, List.singleton_append], fun j hj => ?_⟩
          rcases List.mem_cons.1 hj with rfl | hj
          · exact List.mem_cons_self
          · exact List.mem_cons_of_mem _ (hJ j hj)
      | turn =>
          rw [served_turn] at hs
          rw [run_cons ops (show step (T :: q) .turn = some (q ++ [T]) from rfl)] at hrun
          cases q with
          | nil => exact ⟨[], nil_of_served hT hs, fun j hj => absurd hj List.not_mem_nil⟩
          | cons y ys =>
              have hy : y ≠ T := fun he => hq (he ▸ List.mem_cons_self)
              obtain ⟨as', rfl, hs'⟩ := tail_of_served hy hs
              have hrest := served_before (fun h => hq (List.mem_cons_of_mem y h)) hrun hs' fun h =>
                hT (List.mem_cons_of_mem y h)
              exact ⟨[], by rw [hrest, List.append_nil], fun j hj => absurd hj List.not_mem_nil⟩
      | leave =>
          cases q with
          | nil => cases hrun
          | cons y ys =>
              have hno : T ∉ served (T :: y :: ys) (.leave :: ops) := by
                rw [served_leave, List.mem_cons]
                rintro (rfl | h)
                · exact hq List.mem_cons_self
                · exact not_served hq hjoin' h
              rw [hs] at hno
              exact absurd (List.mem_append_right as (List.mem_singleton.2 rfl)) hno

/-- **Fairness**: each of the others is served exactly once. -/
theorem served_once [DecidableEq τ] (hq : (T :: q).Nodup) (hjoin : ∀ t ∈ T :: q, Op.join t ∉ ops)
    (hrun : run step (T :: q) ops = some q') (hs : served (T :: q) ops = as ++ [T]) (hT : T ∉ as) (hU : U ∈ q) :
    as.count U = 1 := by
  obtain ⟨hTq, hnodup⟩ := List.nodup_cons.1 hq
  obtain ⟨J, rfl, hJ⟩ := served_between hTq (hjoin T List.mem_cons_self) hrun hs hT
  have hUJ : U ∉ J := fun h => hjoin U (List.mem_cons_of_mem T hU) (hJ U h)
  rw [List.count_append, List.count_eq_zero.2 hUJ, List.count_eq_one_of_mem hnodup hU]

/-! ## The order of two in the queue -/

/-- `w` has its turn before `t`. -/
def Before (w t : τ) (q : List τ) : Prop := [w, t].Sublist q

variable {w c : τ}

theorem Before.mem (h : Before w t q) : w ∈ q ∧ t ∈ q :=
  ⟨h.subset List.mem_cons_self, h.subset (List.mem_cons_of_mem w List.mem_cons_self)⟩

theorem Before.append (h : Before w t q) (l : List τ) : Before w t (q ++ l) := h.trans (List.sublist_append_left q l)

/-- The head ends its turn. -/
theorem Before.tail (h : Before w t (c :: q)) (hw : w ≠ c) : Before w t q := by
  cases h with
  | cons _ h => exact h
  | cons_cons _ _ => exact absurd rfl hw

/-- Who joins the queue is behind all others. -/
theorem before_last (hw : w ∈ q) : Before w t (q ++ [t]) :=
  (List.singleton_sublist.2 hw).append (List.Sublist.refl [t])

theorem not_before_head (h : t ∉ q) (hw : w ≠ t) : ¬ Before w t (t :: q) := fun hb => h (hb.tail hw).mem.2

end RoundRobin
