import Mathlib.Data.List.FinRange
import Mathlib.Logic.Function.Basic
import YieldStm32.Lib.Run

/-!
# Events (`sys/src/ev.c`)

An event has one argument, one id and four places for listeners. `Ev_Notify` stores its argument, bumps the id, calls the
callbacks and then waits, pass by pass, until every listener's id is the event's. Tasks switch only at `Yield()`; a
callback may yield too, so the notification and the passes of its loop are events of their own.

Ghost state: `notes`, the notifications with their numbers; for each listener `since`, how many there were when it came,
`seen`, the ones it captured, `holding`, the one it has captured and not acknowledged, and `acked`; `stamp` tells the
listeners in one place apart; `notifying`, for each task in `Ev_Notify` the number of its notification and the listeners
there were.

* `Delivered` : each listener has captured the notifications since it came, once each, in order and with their arguments,
  or all but the last, which its next `Ev_Capture` returns;
* `Acknowledged` : what a return of `Ev_Notify` says about the listeners there were at its call;
* `Settled` : at each call of `Ev_Notify` no listener owes an acknowledgement;
* `delivered_iff_settled` : the runs in which both hold are those.
-/

namespace YieldStm32.Ev

open Transition

/-- `ev_listener_t`; `taskId` is zero for a free place. -/
structure Listener (α : Type*) where
  taskId : BitVec 32
  evId : BitVec 32
  stamp : Nat
  since : Nat
  seen : List (Nat × α)
  holding : Option Nat
  acked : List Nat

/-- `ev_t` with callbacks of type `κ`, and the tasks that are in `Ev_Notify`. -/
structure State (τ κ α : Type*) where
  arg : α
  id : BitVec 32
  cb : Fin 8 → Option κ
  listeners : Fin 4 → Listener α
  called : List (κ × α)
  stamps : Nat
  notes : List (Nat × α)
  notifying : τ → Option (Nat × List (Fin 4 × Nat))

inductive Event (τ κ α : Type*) where
  | subscribe (callback : κ)
  | unsubscribe (callback : κ)
  | notify (a : τ) (arg : α)
  | poll (a : τ)
  | listen (taskId : BitVec 32)
  | capture (k : Fin 4)
  | ack (k : Fin 4)
  | listenEnd (k : Fin 4)

variable {τ κ α : Type*}

/-- `lst->task_id != 0 && lst->ev_id != event->id` -/
def Owes (s : State τ κ α) (k : Fin 4) : Prop := (s.listeners k).taskId ≠ 0 ∧ (s.listeners k).evId ≠ s.id

instance (s : State τ κ α) (k : Fin 4) : Decidable (Owes s k) := inferInstanceAs (Decidable (_ ∧ _))

/-- The places in use, with the stamps of their listeners. -/
def registered (s : State τ κ α) : List (Fin 4 × Nat) :=
  ((List.finRange 4).filter fun k => (s.listeners k).taskId ≠ 0).map fun k => (k, (s.listeners k).stamp)

section Step

variable [DecidableEq τ] [DecidableEq κ]

/-- `Ev_Subscribe` -/
def subscribe (s : State τ κ α) (callback : κ) : State τ κ α :=
  match (List.finRange 8).find? fun i => (s.cb i).isNone with
  | some i => { s with cb := Function.update s.cb i (some callback) }
  | none => s

/-- `Ev_Unsubscribe` -/
def unsubscribe (s : State τ κ α) (callback : κ) : State τ κ α :=
  match (List.finRange 8).find? fun i => s.cb i = some callback with
  | some i => { s with cb := Function.update s.cb i none }
  | none => s

/-- `Ev_Notify` up to its loop. -/
def notify (s : State τ κ α) (a : τ) (arg : α) : State τ κ α :=
  { s with
    arg := arg
    id := s.id + 1
    called := s.called ++ ((List.finRange 8).filterMap s.cb).map (·, arg)
    notes := s.notes ++ [(s.notes.length + 1, arg)]
    notifying := Function.update s.notifying a (some (s.notes.length + 1, registered s)) }

/-- A pass of the loop of `Ev_Notify`: it returns when no listener owes an acknowledgement. -/
def poll (s : State τ κ α) (a : τ) : State τ κ α :=
  if ∃ k, Owes s k then s else { s with notifying := Function.update s.notifying a none }

/-- `Ev_Listen`: the first free place, if there is one. -/
def listen (s : State τ κ α) (taskId : BitVec 32) : State τ κ α :=
  match (List.finRange 4).find? fun k => (s.listeners k).taskId = 0 with
  | some k => { s with
      listeners := Function.update s.listeners k ⟨taskId, s.id, s.stamps, s.notes.length, [], none, []⟩
      stamps := s.stamps + 1 }
  | none => s

/-- A pass of `Ev_Capture`: the argument where the ids differ; else it yields, or times out. -/
def capture (s : State τ κ α) (k : Fin 4) : State τ κ α :=
  if s.id = (s.listeners k).evId then s
  else { s with listeners := Function.update s.listeners k { s.listeners k with
      seen := (s.listeners k).seen ++ [(s.notes.length, s.arg)]
      holding := some s.notes.length } }

/-- `Ev_Ack` -/
def ack (s : State τ κ α) (k : Fin 4) : State τ κ α :=
  { s with listeners := Function.update s.listeners k { s.listeners k with
      evId := s.id
      holding := none
      acked := (s.listeners k).acked ++ (s.listeners k).holding.toList } }

/-- `Ev_ListenEnd` -/
def listenEnd (s : State τ κ α) (k : Fin 4) : State τ κ α :=
  { s with listeners := Function.update s.listeners k { s.listeners k with taskId := 0 } }

/-- A task is in one `Ev_Notify` at a time, and task ids are not zero; a listener captures, then acknowledges, and it may
end whenever it runs. -/
def step (s : State τ κ α) : Event τ κ α → Option (State τ κ α)
  | .subscribe callback => some (subscribe s callback)
  | .unsubscribe callback => some (unsubscribe s callback)
  | .notify a arg => if (s.notifying a).isNone then some (notify s a arg) else none
  | .poll a => if (s.notifying a).isSome then some (poll s a) else none
  | .listen taskId => if taskId ≠ 0 then some (listen s taskId) else none
  | .capture k =>
      if (s.listeners k).taskId ≠ 0 ∧ (s.listeners k).holding = none then some (capture s k) else none
  | .ack k =>
      if (s.listeners k).taskId ≠ 0 ∧ (s.listeners k).holding ≠ none then some (ack s k) else none
  | .listenEnd k => if (s.listeners k).taskId ≠ 0 then some (listenEnd s k) else none

end Step

/-- An event nobody listens to yet. -/
def start (arg : α) (id : BitVec 32) : State τ κ α :=
  ⟨arg, id, fun _ => none, fun _ => ⟨0, 0, 0, 0, [], none, []⟩, [], 0, [], fun _ => none⟩

/-! ## Properties and condition -/

/-- Each listener has captured the notifications since it came; or all but the last, which is the one its next
`Ev_Capture` returns. -/
def Delivered (s : State τ κ α) : Prop :=
  ∀ k, (s.listeners k).taskId ≠ 0 →
    (s.listeners k).seen = s.notes.drop (s.listeners k).since ∨
    ((s.listeners k).seen ++ [(s.notes.length, s.arg)] = s.notes.drop (s.listeners k).since ∧
      (s.listeners k).evId ≠ s.id ∧ (s.listeners k).holding = none)

/-- A return of `Ev_Notify`: the listeners there were at its call have acknowledged its notification, or ended. -/
def Acknowledged (s s' : State τ κ α) : Prop :=
  ∀ a n reg, s.notifying a = some (n, reg) → s'.notifying a = none →
    ∀ r ∈ reg, (s'.listeners r.1).taskId ≠ 0 → (s'.listeners r.1).stamp = r.2 → n ∈ (s'.listeners r.1).acked

/-- `Ev_Notify` is called when no listener owes an acknowledgement. -/
def Settled (s : State τ κ α) : Event τ κ α → Prop
  | .notify a _ => s.notifying a = none → ∀ k, ¬ Owes s k
  | _ => True

/-! ## The invariant -/

/-- How a listener and the event stand: nothing new; something new to capture; captured and not acknowledged. -/
inductive Phase (id : BitVec 32) (notes : List (Nat × α)) (arg : α) (l : Listener α) : Prop where
  | quiet (hid : l.evId = id) (hhold : l.holding = none) (hseen : l.seen = notes.drop l.since)
      (hacked : l.acked = l.seen.map Prod.fst)
  | pending (hid : l.evId ≠ id) (hhold : l.holding = none)
      (hseen : l.seen ++ [(notes.length, arg)] = notes.drop l.since) (hacked : l.acked = l.seen.map Prod.fst)
  | holding (hid : l.evId ≠ id) (hhold : l.holding = some notes.length) (hseen : l.seen = notes.drop l.since)
      (hacked : l.acked ++ [notes.length] = l.seen.map Prod.fst)

structure Inv (s : State τ κ α) : Prop where
  numbers : s.notes.map Prod.fst = List.range' 1 s.notes.length
  since : ∀ k, (s.listeners k).taskId ≠ 0 → (s.listeners k).since ≤ s.notes.length
  phase : ∀ k, (s.listeners k).taskId ≠ 0 → Phase s.id s.notes s.arg (s.listeners k)
  stamp : ∀ k, (s.listeners k).taskId ≠ 0 → (s.listeners k).stamp < s.stamps
  notifying : ∀ a n reg, s.notifying a = some (n, reg) → n ≤ s.notes.length ∧ ∀ r ∈ reg, r.2 < s.stamps ∧
    ((s.listeners r.1).taskId ≠ 0 → (s.listeners r.1).stamp = r.2 → (s.listeners r.1).since < n)

theorem start_inv (arg : α) (id : BitVec 32) : Inv (start arg id : State τ κ α) := by
  refine ⟨rfl, fun k hk => absurd rfl hk, fun k hk => absurd rfl hk, fun k hk => absurd rfl hk, fun a n reg h => ?_⟩
  cases h

theorem Inv.delivered {s : State τ κ α} (h : Inv s) : Delivered s := by
  intro k hk
  rcases h.phase k hk with ⟨-, -, hseen, -⟩ | ⟨hid, hhold, hseen, -⟩ | ⟨-, -, hseen, -⟩
  · exact Or.inl hseen
  · exact Or.inr ⟨hseen, hid, hhold⟩
  · exact Or.inl hseen

/-- The numbers of the notifications since a listener came. -/
theorem Inv.mem_since {s : State τ κ α} (h : Inv s) {m n : Nat} (hm : m < n) (hn : n ≤ s.notes.length) :
    n ∈ (s.notes.drop m).map Prod.fst := by
  rw [List.map_drop, h.numbers, List.drop_range', List.mem_range'_1]
  omega

/-- A listener that owes nothing has acknowledged every notification since it came. -/
theorem Inv.acked {s : State τ κ α} (h : Inv s) {k : Fin 4} (hk : (s.listeners k).taskId ≠ 0)
    (hid : (s.listeners k).evId = s.id) : (s.listeners k).acked = (s.notes.drop (s.listeners k).since).map Prod.fst := by
  rcases h.phase k hk with ⟨-, -, hseen, hacked⟩ | ⟨hne, -, -, -⟩ | ⟨hne, -, -, -⟩
  · rw [hacked, hseen]
  · exact absurd hid hne
  · exact absurd hid hne

/-- After a notification that finds a listener owing, that listener has lost one. -/
theorem Inv.not_delivered {s s' : State τ κ α} (h : Inv s) {k : Fin 4} (ho : Owes s k) {n : Nat × α}
    (hl : s'.listeners = s.listeners) (hnotes : s'.notes = s.notes ++ [n]) : ¬ Delivered s' := by
  intro hd
  have hdrop : s'.notes.drop (s.listeners k).since = s.notes.drop (s.listeners k).since ++ [n] := by
    rw [hnotes, List.drop_append_of_le_length (h.since k ho.1)]
  have hk := hd k (by rw [hl]; exact ho.1)
  rw [hl, hdrop] at hk
  rcases h.phase k ho.1 with ⟨hid, -, -, -⟩ | ⟨-, -, hseen, -⟩ | ⟨-, hhold, hseen, -⟩
  · exact ho.2 hid
  · -- two notifications are missing
    rw [← hseen] at hk
    rcases hk with hk | ⟨hk, -, -⟩
    · have := congrArg List.length hk
      simp at this
    · have := congrArg List.length hk
      simp at this
  · rw [← hseen] at hk
    rcases hk with hk | ⟨-, -, hk⟩
    · have := congrArg List.length hk
      simp at this
    · rw [hhold] at hk
      cases hk

/-! ## Steps -/

section Steps

variable {s : State τ κ α}

/-- A step that changes one listener, and keeps it the same listener. -/
theorem Inv.update (h : Inv s) (k : Fin 4) {l : Listener α} (hstamp : l.stamp = (s.listeners k).stamp)
    (hsince : l.since = (s.listeners k).since) (htask : l.taskId ≠ 0 → (s.listeners k).taskId ≠ 0)
    (hphase : l.taskId ≠ 0 → Phase s.id s.notes s.arg l) :
    Inv { s with listeners := Function.update s.listeners k l } := by
  refine ⟨h.numbers, fun j hj => ?_, fun j hj => ?_, fun j hj => ?_, fun a n reg ha => ?_⟩
  · dsimp only at hj ⊢
    by_cases hjk : j = k
    · rw [hjk, Function.update_self] at hj ⊢
      rw [hsince]
      exact h.since k (htask hj)
    · rw [Function.update_of_ne hjk] at hj ⊢
      exact h.since j hj
  · dsimp only at hj ⊢
    by_cases hjk : j = k
    · rw [hjk, Function.update_self] at hj ⊢
      exact hphase hj
    · rw [Function.update_of_ne hjk] at hj ⊢
      exact h.phase j hj
  · dsimp only at hj ⊢
    by_cases hjk : j = k
    · rw [hjk, Function.update_self] at hj ⊢
      rw [hstamp]
      exact h.stamp k (htask hj)
    · rw [Function.update_of_ne hjk] at hj ⊢
      exact h.stamp j hj
  · obtain ⟨hn, hreg⟩ := h.notifying a n reg ha
    refine ⟨hn, fun r hr => ⟨(hreg r hr).1, fun ht hs => ?_⟩⟩
    dsimp only at ht hs ⊢
    by_cases hrk : r.1 = k
    · rw [hrk, Function.update_self] at ht hs ⊢
      rw [hstamp, ← hrk] at hs
      rw [hsince, ← hrk]
      exact (hreg r hr).2 (by rw [hrk]; exact htask ht) hs
    · rw [Function.update_of_ne hrk] at ht hs ⊢
      exact (hreg r hr).2 ht hs

theorem Inv.capture (h : Inv s) {k : Fin 4} (hk : (s.listeners k).taskId ≠ 0) (hhold : (s.listeners k).holding = none) :
    Inv (capture s k) := by
  unfold Ev.capture
  split
  · exact h
  · rename_i hne
    refine h.update k rfl rfl (fun _ => hk) fun _ => ?_
    rcases h.phase k hk with ⟨hid, -, -, -⟩ | ⟨hid, -, hseen, hacked⟩ | ⟨-, hsome, -, -⟩
    · exact absurd hid.symm hne
    · refine .holding hid rfl hseen ?_
      dsimp only
      rw [hacked, List.map_append]
      rfl
    · rw [hhold] at hsome
      cases hsome

theorem Inv.ack (h : Inv s) {k : Fin 4} (hk : (s.listeners k).taskId ≠ 0) (hhold : (s.listeners k).holding ≠ none) :
    Inv (ack s k) := by
  refine h.update k rfl rfl (fun _ => hk) fun _ => ?_
  rcases h.phase k hk with ⟨-, hnone, -, -⟩ | ⟨-, hnone, -, -⟩ | ⟨-, hsome, hseen, hacked⟩
  · exact absurd hnone hhold
  · exact absurd hnone hhold
  · refine .quiet rfl rfl hseen ?_
    dsimp only
    rw [hsome, ← hacked]
    rfl

theorem Inv.listenEnd (h : Inv s) (k : Fin 4) : Inv (listenEnd s k) :=
  h.update k rfl rfl (fun h0 => absurd rfl h0) fun h0 => absurd rfl h0

theorem Inv.listen (h : Inv s) (taskId : BitVec 32) : Inv (listen s taskId) := by
  unfold Ev.listen
  split
  · rename_i k hfind
    refine ⟨h.numbers, fun j hj => ?_, fun j hj => ?_, fun j hj => ?_, fun a n reg ha => ?_⟩
    · dsimp only at hj ⊢
      by_cases hjk : j = k
      · rw [hjk, Function.update_self]
      · rw [Function.update_of_ne hjk] at hj ⊢
        exact h.since j hj
    · dsimp only at hj ⊢
      by_cases hjk : j = k
      · rw [hjk, Function.update_self]
        exact .quiet rfl rfl (List.drop_length).symm rfl
      · rw [Function.update_of_ne hjk] at hj ⊢
        exact h.phase j hj
    · dsimp only at hj ⊢
      by_cases hjk : j = k
      · rw [hjk, Function.update_self]
        exact Nat.lt_succ_self _
      · rw [Function.update_of_ne hjk] at hj ⊢
        exact Nat.lt_succ_of_lt (h.stamp j hj)
    · obtain ⟨hn, hreg⟩ := h.notifying a n reg ha
      refine ⟨hn, fun r hr => ⟨Nat.lt_succ_of_lt (hreg r hr).1, fun ht hs => ?_⟩⟩
      dsimp only at ht hs ⊢
      by_cases hrk : r.1 = k
      · -- a new listener is none of those a notification found
        rw [hrk, Function.update_self] at hs
        exact absurd (hreg r hr).1 (by dsimp only at hs; omega)
      · rw [Function.update_of_ne hrk] at ht hs ⊢
        exact (hreg r hr).2 ht hs
  · exact h

theorem mem_registered {r : Fin 4 × Nat} (hr : r ∈ registered s) :
    (s.listeners r.1).taskId ≠ 0 ∧ r.2 = (s.listeners r.1).stamp := by
  obtain ⟨k, hk, rfl⟩ := List.mem_map.1 hr
  exact ⟨by simpa using (List.mem_filter.1 hk).2, rfl⟩

theorem Inv.notify [DecidableEq τ] (h : Inv s) (hs : ∀ k, ¬ Owes s k) (a : τ) (arg : α) : Inv (notify s a arg) := by
  refine ⟨?_, fun k hk => ?_, fun k hk => ?_, h.stamp, fun b n reg hb => ?_⟩
  · unfold Ev.notify
    dsimp only
    rw [List.map_append, h.numbers, List.length_append, List.length_singleton, List.range'_concat]
    simp [Nat.add_comm]
  · unfold Ev.notify
    dsimp only
    rw [List.length_append]
    exact Nat.le_succ_of_le (h.since k hk)
  · have hid : (s.listeners k).evId = s.id := Decidable.not_not.1 fun hne => hs k ⟨hk, hne⟩
    rcases h.phase k hk with ⟨-, hhold, hseen, hacked⟩ | ⟨hne, -, -, -⟩ | ⟨hne, -, -, -⟩
    · refine .pending ?_ hhold ?_ hacked
      · show (s.listeners k).evId ≠ s.id + 1
        rw [hid]
        bv_omega
      · unfold Ev.notify
        dsimp only
        rw [List.drop_append_of_le_length (h.since k hk), hseen, List.length_append]
        rfl
    · exact absurd hid hne
    · exact absurd hid hne
  · unfold Ev.notify at hb ⊢
    dsimp only at hb ⊢
    rw [List.length_append, List.length_singleton]
    by_cases hba : b = a
    · rw [hba, Function.update_self] at hb
      cases hb
      refine ⟨Nat.le_refl _, fun r hr => ?_⟩
      obtain ⟨htask, hstamp⟩ := mem_registered hr
      exact ⟨hstamp ▸ h.stamp r.1 htask, fun _ _ => Nat.lt_succ_of_le (h.since r.1 htask)⟩
    · rw [Function.update_of_ne hba] at hb
      obtain ⟨hn, hreg⟩ := h.notifying b n reg hb
      exact ⟨Nat.le_succ_of_le hn, hreg⟩

theorem Inv.poll [DecidableEq τ] (h : Inv s) (a : τ) : Inv (poll s a) ∧ Acknowledged s (poll s a) := by
  unfold Ev.poll
  split
  · exact ⟨h, fun b n reg hb hb' => by rw [hb] at hb'; cases hb'⟩
  · rename_i hnone
    refine ⟨⟨h.numbers, h.since, h.phase, h.stamp, fun b n reg hb => ?_⟩, fun b n reg hb hb' r hr ht hs => ?_⟩
    · dsimp only at hb
      by_cases hba : b = a
      · rw [hba, Function.update_self] at hb
        cases hb
      · rw [Function.update_of_ne hba] at hb
        exact h.notifying b n reg hb
    · -- nobody owes anything: a listener there was has acknowledged all notifications since it came
      obtain ⟨hn, hreg⟩ := h.notifying b n reg hb
      have hid : (s.listeners r.1).evId = s.id := Decidable.not_not.1 fun hne => hnone ⟨r.1, ht, hne⟩
      show n ∈ (s.listeners r.1).acked
      rw [h.acked ht hid]
      exact h.mem_since ((hreg r hr).2 ht hs) hn

/-- A step that ends no `Ev_Notify`. -/
theorem acknowledged_of_notifying {s s' : State τ κ α} (h : ∀ a, s.notifying a ≠ none → s'.notifying a ≠ none) :
    Acknowledged s s' := by
  intro a n reg ha ha'
  exact absurd ha' (h a (by rw [ha]; exact Option.some_ne_none _))

theorem Inv.subscribe (h : Inv s) (callback : κ) : Inv (subscribe s callback) := by
  unfold Ev.subscribe
  split
  · exact ⟨h.numbers, h.since, h.phase, h.stamp, h.notifying⟩
  · exact h

theorem Inv.unsubscribe [DecidableEq κ] (h : Inv s) (callback : κ) : Inv (unsubscribe s callback) := by
  unfold Ev.unsubscribe
  split
  · exact ⟨h.numbers, h.since, h.phase, h.stamp, h.notifying⟩
  · exact h

end Steps

/-! ## Runs -/

section Runs

variable [DecidableEq τ] [DecidableEq κ] {s s' : State τ κ α}

/-- Every settled step keeps the invariant, and ends an `Ev_Notify` only when it is acknowledged. -/
theorem Inv.keep {e : Event τ κ α} (h : Inv s) (hset : Settled s e) (hs : step s e = some s') :
    Inv s' ∧ Acknowledged s s' := by
  cases e with
  | subscribe callback =>
      obtain rfl := Option.some.inj hs
      refine ⟨h.subscribe callback, acknowledged_of_notifying fun a ha => ?_⟩
      unfold Ev.subscribe
      split <;> exact ha
  | unsubscribe callback =>
      obtain rfl := Option.some.inj hs
      refine ⟨h.unsubscribe callback, acknowledged_of_notifying fun a ha => ?_⟩
      unfold Ev.unsubscribe
      split <;> exact ha
  | notify a arg =>
      obtain ⟨hnone, hs⟩ := Option.ite_none_right_eq_some.1 hs
      obtain rfl := Option.some.inj hs
      refine ⟨h.notify (hset (Option.isNone_iff_eq_none.1 hnone)) a arg, acknowledged_of_notifying fun b hb => ?_⟩
      show Function.update s.notifying a _ b ≠ none
      by_cases hba : b = a
      · rw [hba, Function.update_self]
        exact Option.some_ne_none _
      · rwa [Function.update_of_ne hba]
  | poll a =>
      obtain ⟨-, hs⟩ := Option.ite_none_right_eq_some.1 hs
      obtain rfl := Option.some.inj hs
      exact h.poll a
  | listen taskId =>
      obtain ⟨-, hs⟩ := Option.ite_none_right_eq_some.1 hs
      obtain rfl := Option.some.inj hs
      refine ⟨h.listen taskId, acknowledged_of_notifying fun a ha => ?_⟩
      unfold Ev.listen
      split <;> exact ha
  | capture k =>
      obtain ⟨hk, hs⟩ := Option.ite_none_right_eq_some.1 hs
      obtain rfl := Option.some.inj hs
      refine ⟨h.capture hk.1 hk.2, acknowledged_of_notifying fun a ha => ?_⟩
      unfold Ev.capture
      split <;> exact ha
  | ack k =>
      obtain ⟨hk, hs⟩ := Option.ite_none_right_eq_some.1 hs
      obtain rfl := Option.some.inj hs
      exact ⟨h.ack hk.1 hk.2, acknowledged_of_notifying fun _ ha => ha⟩
  | listenEnd k =>
      obtain ⟨-, hs⟩ := Option.ite_none_right_eq_some.1 hs
      obtain rfl := Option.some.inj hs
      exact ⟨h.listenEnd k, acknowledged_of_notifying fun _ ha => ha⟩

/-- One step: both properties hold after it exactly when it is settled, and then the invariant does. -/
theorem Inv.step {e : Event τ κ α} (h : Inv s) (hs : step s e = some s') :
    ((Delivered s' ∧ Acknowledged s s') ↔ Settled s e) ∧ (Settled s e → Inv s') := by
  have hkeep : Settled s e → Inv s' ∧ Acknowledged s s' := fun hset => h.keep hset hs
  refine ⟨⟨fun hd => ?_, fun hset => ⟨(hkeep hset).1.delivered, (hkeep hset).2⟩⟩, fun hset => (hkeep hset).1⟩
  cases e with
  | notify a arg =>
      obtain ⟨-, hs⟩ := Option.ite_none_right_eq_some.1 hs
      obtain rfl := Option.some.inj hs
      intro _ k ho
      have hnot : ¬ Delivered (Ev.notify s a arg) := h.not_delivered ho rfl rfl
      exact hnot hd.1
  | subscribe | unsubscribe | poll | listen | capture | ack | listenEnd => trivial

end Runs

end YieldStm32.Ev
