import Mathlib.Data.List.Nodup
import Mathlib.Data.List.FinRange
import YieldStm32.Lib.Run

/-!
# The transmit buffers (`net/tcpip/src/rxtx.c`)

Tasks switch only at `Yield()`, so an event is what one task does up to its next one. `TCPIPRxTx_Alloc` always yields
between finding a slot and marking it; `TCPIPRxTx_TxTask` yields inside `USBEEM_Send`, between choosing a slot and
clearing it. Ghost state: the frames returned by `TCPIPRxTx_Alloc` and not yet dropped or consumed.

* `Exclusive` : no two such frames share a buffer, and only the owner of a buffer writes to it;
* `exclusive_iff` : this holds along a run exactly when every slot marked by `TCPIPRxTx_Alloc` is still free.
-/

namespace YieldStm32.RxTx

open Transition

/-- `struct tx_buf` -/
structure TxBuf (β : Type*) where
  size : Nat
  allocated : Bool
  buf : β

/-- A `tcpip_frame_t` with the task that allocated it. -/
structure Frame (τ : Type*) where
  task : τ
  bufid : Fin 4
  sent : Bool
deriving DecidableEq

variable {τ β : Type*}

/-- `alloc a` is `none` outside `TCPIPRxTx_Alloc`, `some t` at its `Yield()` with `t` found; `tx` is the slot that
`TCPIPRxTx_TxTask` is sending. -/
structure State (τ β : Type*) where
  txBuf : Fin 4 → TxBuf β
  alloc : τ → Option (Option (Fin 4))
  tx : Option (Fin 4)
  frames : List (Frame τ)

inductive Event (τ β : Type*) where
  | alloc (a : τ)
  | write (a : τ) (k : Fin 4) (b : β)
  | send (a : τ) (k : Fin 4) (size : Nat)
  | drop (a : τ) (k : Fin 4)
  | txTask

/-- The first element that is not occupied. -/
def findFree (txBuf : Fin 4 → TxBuf β) : Option (Fin 4) :=
  (List.finRange 4).find? fun k => !(txBuf k).allocated

/-- The first element from `i` on that is ready to be sent. -/
def findReady (txBuf : Fin 4 → TxBuf β) (i : Nat) : Option (Fin 4) :=
  (List.finRange 4).find? fun k => decide (i ≤ k.val) && (txBuf k).allocated && decide ((txBuf k).size ≠ 0)

/-- `TCPIPRxTx_TxTask` from one yield to the next: it clears the slot just sent and goes on with the next ready one. -/
def txTask (s : State τ β) : State τ β :=
  match s.tx with
  | none => { s with tx := findReady s.txBuf 0 }
  | some k =>
    let txBuf := Function.update s.txBuf k { s.txBuf k with size := 0, allocated := false }
    { s with
      txBuf := txBuf
      tx := findReady txBuf (k.val + 1)
      frames := s.frames.filter fun f => ¬ (f.bufid = k ∧ f.sent = true) }

/-- No buffer in use. -/
def start (buf : Fin 4 → β) : State τ β := ⟨fun k => ⟨0, false, buf k⟩, fun _ => none, none, []⟩

/-- A task writes, sends and drops only a frame it has been given and has not passed on. -/
def Holds (s : State τ β) (a : τ) (k : Fin 4) : Prop := s.alloc a = none ∧ ⟨a, k, false⟩ ∈ s.frames

section Step

variable [DecidableEq τ]

/-- `TCPIPRxTx_Alloc` from its call, or from its `Yield()`, to its next `Yield()` or its return. -/
def allocStep (s : State τ β) (a : τ) : State τ β :=
  match s.alloc a with
  | some (some k) =>
    { s with
      txBuf := Function.update s.txBuf k { s.txBuf k with allocated := true }
      alloc := Function.update s.alloc a none
      frames := ⟨a, k, false⟩ :: s.frames }
  | _ => { s with alloc := Function.update s.alloc a (some (findFree s.txBuf)) }

/-- `TCPIPRxTx_Send` -/
def send (s : State τ β) (a : τ) (k : Fin 4) (size : Nat) : State τ β :=
  { s with
    txBuf := Function.update s.txBuf k { s.txBuf k with size := size }
    frames := s.frames.map fun f => if f = ⟨a, k, false⟩ then ⟨a, k, true⟩ else f }

/-- `TCPIPRxTx_Drop` -/
def drop (s : State τ β) (a : τ) (k : Fin 4) : State τ β :=
  { s with
    txBuf := Function.update s.txBuf k { s.txBuf k with size := 0, allocated := false }
    frames := s.frames.filter (· ≠ ⟨a, k, false⟩) }

instance (s : State τ β) (a : τ) (k : Fin 4) : Decidable (Holds s a k) := inferInstanceAs (Decidable (_ ∧ _))

def step (s : State τ β) : Event τ β → Option (State τ β)
  | .alloc a => some (allocStep s a)
  | .write a k b =>
    if Holds s a k then some { s with txBuf := Function.update s.txBuf k { s.txBuf k with buf := b } } else none
  | .send a k size => if Holds s a k then some (send s a k size) else none
  | .drop a k => if Holds s a k then some (drop s a k) else none
  | .txTask => some (txTask s)

end Step

/-! ## Ownership -/

/-- The frame is the task's, and no other one carries its buffer. -/
def Owns (s : State τ β) (a : τ) (k : Fin 4) : Prop :=
  ⟨a, k, false⟩ ∈ s.frames ∧ ∀ f ∈ s.frames, f.bufid = k → f = ⟨a, k, false⟩

/-- What a step must keep: the frames returned and not dropped or consumed have different buffers; a buffer changes only
by a write of its owner. -/
structure Exclusive (s : State τ β) (e : Event τ β) (s' : State τ β) : Prop where
  distinct : (s'.frames.map Frame.bufid).Nodup
  owned : ∀ a k b, e = .write a k b → Owns s a k
  kept : ∀ k, (∀ a b, e ≠ .write a k b) → (s'.txBuf k).buf = (s.txBuf k).buf

/-- The slot found before the `Yield()` is still free after it. -/
def StillFree (s : State τ β) : Event τ β → Prop
  | .alloc a => ∀ k, s.alloc a = some (some k) → (s.txBuf k).allocated = false
  | _ => True

/-- A slot is allocated exactly when a frame carries it; it is filled only after the frame is sent. -/
structure Inv (s : State τ β) : Prop where
  distinct : (s.frames.map Frame.bufid).Nodup
  held : ∀ k, (s.txBuf k).allocated = true ↔ k ∈ s.frames.map Frame.bufid
  filled : ∀ k, (s.txBuf k).size ≠ 0 → ∃ f ∈ s.frames, f.bufid = k ∧ f.sent = true
  sending : ∀ k, s.tx = some k → ∃ f ∈ s.frames, f.bufid = k ∧ f.sent = true

theorem buf_update {txBuf : Fin 4 → TxBuf β} {k : Fin 4} {t : TxBuf β} (ht : t.buf = (txBuf k).buf) (j : Fin 4) :
    (Function.update txBuf k t j).buf = (txBuf j).buf := by
  by_cases hj : j = k
  · rw [hj, Function.update_self, ht]
  · rw [Function.update_of_ne hj]

variable {s : State τ β}

theorem Inv.unique (h : Inv s) {f g : Frame τ} (hf : f ∈ s.frames) (hg : g ∈ s.frames) (hfg : f.bufid = g.bufid) :
    f = g :=
  List.inj_on_of_nodup_map h.distinct hf hg hfg

theorem inv_start (buf : Fin 4 → β) : Inv (start buf : State τ β) :=
  ⟨List.nodup_nil, fun k => by simp [start], fun k hk => absurd rfl hk, fun k hk => by simp [start] at hk⟩

/-- What the transmit task picks is a frame that was sent. -/
theorem Inv.ready (h : Inv s) {i : Nat} {k : Fin 4} (hk : findReady s.txBuf i = some k) :
    ∃ f ∈ s.frames, f.bufid = k ∧ f.sent = true := by
  have hready := List.find?_some hk
  simp only [Bool.and_eq_true, decide_eq_true_eq] at hready
  exact h.filled k hready.2

/-- Clearing the slot of a frame `g` that is taken off the list. -/
theorem inv_clear (h : Inv s) {g : Frame τ} (hg : g ∈ s.frames) {s' : State τ β}
    (hbuf : s'.txBuf = Function.update s.txBuf g.bufid { s.txBuf g.bufid with size := 0, allocated := false })
    (hframes : ∀ f, f ∈ s'.frames ↔ f ∈ s.frames ∧ f ≠ g) (hsub : s'.frames.Sublist s.frames)
    (htx : ∀ k, s'.tx = some k → ∃ f ∈ s'.frames, f.bufid = k ∧ f.sent = true) : Inv s' := by
  have hother : ∀ f ∈ s.frames, f ≠ g ↔ f.bufid ≠ g.bufid := fun f hf =>
    ⟨fun hne hid => hne (h.unique hf hg hid), fun hid hfg => hid (by rw [hfg])⟩
  refine ⟨(hsub.map Frame.bufid).nodup h.distinct, fun j => ?_, fun j hj => ?_, htx⟩
  · have hmem : j ∈ s'.frames.map Frame.bufid ↔ j ∈ s.frames.map Frame.bufid ∧ j ≠ g.bufid := by
      simp only [List.mem_map, hframes]
      constructor
      · rintro ⟨f, ⟨hf, hne⟩, rfl⟩
        exact ⟨⟨f, hf, rfl⟩, (hother f hf).1 hne⟩
      · rintro ⟨⟨f, hf, rfl⟩, hne⟩
        exact ⟨f, ⟨hf, (hother f hf).2 hne⟩, rfl⟩
    rw [hmem, ← h.held, hbuf]
    by_cases hj : j = g.bufid
    · simp [hj]
    · simp [hj]
  · have hjk : j ≠ g.bufid := by
      rintro rfl
      simp [hbuf] at hj
    obtain ⟨f, hf, hfj, hsent⟩ := h.filled j (by simpa [hbuf, hjk] using hj)
    exact ⟨f, (hframes f).2 ⟨hf, (hother f hf).2 (hfj ▸ hjk)⟩, hfj, hsent⟩

theorem inv_txTask (h : Inv s) : Inv (txTask s) := by
  unfold txTask
  split
  · exact ⟨h.distinct, h.held, h.filled, fun k hk => h.ready hk⟩
  · rename_i k hk
    obtain ⟨g, hg, rfl, hsent⟩ := h.sending k hk
    have hclear : Inv { s with
        txBuf := Function.update s.txBuf g.bufid { s.txBuf g.bufid with size := 0, allocated := false }
        tx := none
        frames := s.frames.filter fun f => ¬ (f.bufid = g.bufid ∧ f.sent = true) } := by
      refine inv_clear h hg rfl (fun f => ?_) List.filter_sublist nofun
      simp only [List.mem_filter, decide_eq_true_eq]
      refine and_congr_right fun hf => not_congr ⟨fun hfg => h.unique hf hg hfg.1, fun hfg => ?_⟩
      rw [hfg]
      exact ⟨rfl, hsent⟩
    exact ⟨hclear.distinct, hclear.held, hclear.filled, fun k hk => hclear.ready (i := g.bufid.val + 1) hk⟩

theorem inv_write (h : Inv s) (k : Fin 4) (b : β) :
    Inv { s with txBuf := Function.update s.txBuf k { s.txBuf k with buf := b } } := by
  have hslot : ∀ j, (Function.update s.txBuf k { s.txBuf k with buf := b } j).allocated = (s.txBuf j).allocated ∧
      (Function.update s.txBuf k { s.txBuf k with buf := b } j).size = (s.txBuf j).size := by
    intro j
    by_cases hj : j = k
    · simp [hj]
    · simp [hj]
  refine ⟨h.distinct, fun j => ?_, fun j hj => ?_, h.sending⟩
  · rw [(hslot j).1]
    exact h.held j
  · rw [(hslot j).2] at hj
    exact h.filled j hj

/-- A step that writes to no buffer. -/
theorem exclusive_of_kept {s' : State τ β} {e : Event τ β} (hnodup : (s'.frames.map Frame.bufid).Nodup)
    (he : ∀ a k b, e ≠ .write a k b) (hkept : ∀ k, (s'.txBuf k).buf = (s.txBuf k).buf) : Exclusive s e s' :=
  ⟨hnodup, fun a k b h => absurd h (he a k b), fun k _ => hkept k⟩

theorem txTask_buf (k : Fin 4) : ((txTask s).txBuf k).buf = (s.txBuf k).buf := by
  unfold txTask
  split
  · rfl
  · refine buf_update ?_ k
    rfl

variable [DecidableEq τ]

/-- Marking a slot that is still free keeps the invariant; a slot that is not gives it a second frame. -/
theorem inv_alloc (h : Inv s) (a : τ) (k : Fin 4) (hk : s.alloc a = some (some k)) :
    (((allocStep s a).frames.map Frame.bufid).Nodup ↔ (s.txBuf k).allocated = false) ∧
      ((s.txBuf k).allocated = false → Inv (allocStep s a)) := by
  have hiff : ((allocStep s a).frames.map Frame.bufid).Nodup ↔ (s.txBuf k).allocated = false := by
    rw [allocStep, hk]
    dsimp only
    rw [List.map_cons, List.nodup_cons, ← h.held, Bool.not_eq_true]
    exact and_iff_left h.distinct
  refine ⟨hiff, fun hfree => ⟨hiff.2 hfree, ?_, ?_, ?_⟩⟩ <;> rw [allocStep, hk] <;> dsimp only
  · intro j
    rw [List.map_cons, List.mem_cons, ← h.held]
    by_cases hj : j = k
    · simp [hj]
    · simp [hj]
  · intro j hj
    have hsize : (s.txBuf j).size ≠ 0 := by
      by_cases hjk : j = k
      · simpa [hjk] using hj
      · simpa [hjk] using hj
    obtain ⟨f, hf, hfj⟩ := h.filled j hsize
    exact ⟨f, List.mem_cons_of_mem _ hf, hfj⟩
  · intro j hj
    obtain ⟨f, hf, hfj⟩ := h.sending j hj
    exact ⟨f, List.mem_cons_of_mem _ hf, hfj⟩

theorem inv_send (h : Inv s) {a : τ} {k : Fin 4} (hold : Holds s a k) (size : Nat) : Inv (send s a k size) := by
  have hids : (send s a k size).frames.map Frame.bufid = s.frames.map Frame.bufid := by
    rw [send, List.map_map]
    refine List.map_congr_left fun f _ => ?_
    by_cases hf : f = ⟨a, k, false⟩ <;> simp [hf]
  have hkeep : ∀ j, (∃ f ∈ s.frames, f.bufid = j ∧ f.sent = true) →
      ∃ f ∈ (send s a k size).frames, f.bufid = j ∧ f.sent = true := by
    rintro j ⟨f, hf, hfj, hsent⟩
    refine ⟨f, List.mem_map.2 ⟨f, hf, if_neg fun hfa => ?_⟩, hfj, hsent⟩
    rw [hfa] at hsent
    cases hsent
  refine ⟨hids ▸ h.distinct, fun j => ?_, fun j hj => ?_, fun j hj => hkeep j (h.sending j hj)⟩
  · rw [hids, ← h.held]
    by_cases hj : j = k
    · simp [send, hj]
    · simp [send, hj]
  · by_cases hjk : j = k
    · exact ⟨⟨a, k, true⟩, List.mem_map.2 ⟨_, hold.2, if_pos rfl⟩, hjk.symm, rfl⟩
    · exact hkeep j (h.filled j (by simpa [send, hjk] using hj))

theorem inv_drop (h : Inv s) {a : τ} {k : Fin 4} (hold : Holds s a k) : Inv (drop s a k) := by
  refine inv_clear h hold.2 rfl (fun f => ?_) List.filter_sublist fun j hj => ?_
  · simp [drop]
  · obtain ⟨f, hf, hfj, hsent⟩ := h.sending j hj
    refine ⟨f, List.mem_filter.2 ⟨hf, decide_eq_true fun hfa => ?_⟩, hfj, hsent⟩
    rw [hfa] at hsent
    cases hsent

theorem allocStep_buf (a : τ) (k : Fin 4) : ((allocStep s a).txBuf k).buf = (s.txBuf k).buf := by
  unfold allocStep
  split
  · refine buf_update ?_ k
    rfl
  · rfl

/-- One step: the guard is exact, and where it holds the invariant is kept. -/
theorem inv_step {s' : State τ β} {e : Event τ β} (h : Inv s) (hs : step s e = some s') :
    (Exclusive s e s' ↔ StillFree s e) ∧ (StillFree s e → Inv s') := by
  have hsafe : Inv s' → Exclusive s e s' → (Exclusive s e s' ↔ True) ∧ (True → Inv s') := fun hinv hex =>
    ⟨iff_true_intro hex, fun _ => hinv⟩
  cases e with
  | alloc a =>
      obtain rfl := Option.some.inj hs
      have hex := fun hn => exclusive_of_kept (e := .alloc a) hn (fun _ _ _ => nofun) (allocStep_buf (s := s) a)
      by_cases hk : ∃ k, s.alloc a = some (some k)
      · obtain ⟨k, hk⟩ := hk
        obtain ⟨hiff, hinv⟩ := inv_alloc h a k hk
        have hfree : StillFree s (.alloc a : Event τ β) ↔ (s.txBuf k).allocated = false := by simp [StillFree, hk]
        rw [hfree]
        exact ⟨⟨fun he => hiff.1 he.distinct, fun hf => hex (hiff.2 hf)⟩, hinv⟩
      · have hscan : allocStep s a = { s with alloc := Function.update s.alloc a (some (findFree s.txBuf)) } := by
          unfold allocStep
          split
          · exact absurd ⟨_, ‹_›⟩ hk
          · rfl
        have hfree : StillFree s (.alloc a : Event τ β) := fun k hk' => absurd ⟨k, hk'⟩ hk
        have hinv : Inv (allocStep s a) := by
          rw [hscan]
          exact ⟨h.distinct, h.held, h.filled, h.sending⟩
        exact ⟨⟨fun _ => hfree, fun _ => hex hinv.distinct⟩, fun _ => hinv⟩
  | write a k b =>
      obtain ⟨hold, heq⟩ := Option.ite_none_right_eq_some.1 hs
      obtain rfl := Option.some.inj heq
      refine hsafe (inv_write h k b) ⟨h.distinct, fun a' k' b' he => ?_, fun j hj => ?_⟩
      · cases he
        exact ⟨hold.2, fun f hf hid => h.unique hf hold.2 hid⟩
      · have hjk : j ≠ k := by
          rintro rfl
          exact hj a b rfl
        simp [hjk]
  | send a k size =>
      obtain ⟨hold, heq⟩ := Option.ite_none_right_eq_some.1 hs
      obtain rfl := Option.some.inj heq
      have hinv := inv_send h hold size
      exact hsafe hinv (exclusive_of_kept hinv.distinct (fun _ _ _ => nofun) (buf_update rfl))
  | drop a k =>
      obtain ⟨hold, heq⟩ := Option.ite_none_right_eq_some.1 hs
      obtain rfl := Option.some.inj heq
      have hinv := inv_drop h hold
      exact hsafe hinv (exclusive_of_kept hinv.distinct (fun _ _ _ => nofun) (buf_update rfl))
  | txTask =>
      obtain rfl := Option.some.inj hs
      have hinv := inv_txTask h
      exact hsafe hinv (exclusive_of_kept hinv.distinct (fun _ _ _ => nofun) txTask_buf)

/-- **Transmit buffers are exclusive** along a run exactly when each slot that `TCPIPRxTx_Alloc` marks is still free
after its `Yield()`. -/
theorem exclusive_iff (buf : Fin 4 → β) (es : List (Event τ β)) :
    Along step Exclusive (start buf) es ↔ Meets step StillFree (start buf) es := by
  refine along_iff_meets (fun s e _ hs => ?_) (fun _ _ _ => inv_step) (inv_start buf)
  -- a step that is not enabled is no allocation
  cases e with
  | alloc a => cases hs
  | _ => trivial

/-- Two tasks that enter `TCPIPRxTx_Alloc` one after the other both return with buffer 0. -/
theorem alloc_twice :
    ¬ ∀ (buf : Fin 4 → Unit) (es : List (Event Bool Unit)), Along step Exclusive (start buf) es := by
  intro h
  have hrun := h (fun _ => ()) [.alloc false, .alloc true, .alloc false, .alloc true]
  obtain ⟨-, hrun⟩ := hrun _ rfl
  obtain ⟨-, hrun⟩ := hrun _ rfl
  obtain ⟨-, hrun⟩ := hrun _ rfl
  obtain ⟨hex, -⟩ := hrun _ rfl
  exact absurd hex.distinct (by decide)

end YieldStm32.RxTx
