import Mathlib.Logic.Function.Iterate
import YieldStm32.Dev.Usb.Core
import YieldStm32.Lib.Packets

/-!
# The data stage to the host (`dev/src/usb_core.c`)

The stage begins with one packet, and each completion hands over the next one, or ends the stage.

* `handed` : the packets handed to `USB_StartINTransfer`;
* `Sending` : the packet at offset `o` is in progress;
* `Sending.more`, `Sending.last` : its completion;
* `Sending.handed_run`, `Sending.ends` : all completions, by the pieces that are left.
-/

namespace YieldStm32.Usb.Core

open Packets

variable {σ : Type*} (subscribers : σ → ReqEvArg → σ × ReqEvArg) (descs : DescSet)

/-- The packets of the calls that start a transfer to the host. -/
def handed (m : Block → Nat → UInt8) (calls : List DriverCall) : List (List UInt8) :=
  calls.filterMap fun d =>
    match d with
    | .startIN ptr size _ => some (Ring.copyOut (m ptr.block) ptr.offs size.toNat)
    | _ => none

/-- A packet is sent without an error. -/
def sent (c : Core σ) : Core σ := inDone subscribers descs eok c

/-- The packet at offset `o` is in progress. -/
structure Sending (ptr : Ptr) (o : Nat) (c : Core σ) : Prop where
  pointer : c.ctlPtr = ptr
  offset : c.ctlOffset.toNat = o
  inside : o ≤ c.ctlSize.toNat
  transfer : c.epIn = some ⟨ptr.add o, min ctrlepSize (c.ctlSize - c.ctlOffset), .dataIN⟩

/-- The pieces from offset `o` on. -/
def piecesFrom (c : Core σ) (o : Nat) : List (List UInt8) :=
  pieces 64 (c.mem c.ctlPtr.block) (c.ctlPtr.offs + o) (c.ctlSize.toNat - o)

variable {subscribers descs} {ptr : Ptr} {o : Nat} {c : Core σ}

theorem Sending.rest (h : Sending ptr o c) : (c.ctlSize - c.ctlOffset).toNat = c.ctlSize.toNat - o :=
  toNat_rest h.offset h.inside

theorem Sending.sent_eq (h : Sending ptr o c) : sent subscribers descs c = dataINCallback eok { c with epIn := none } := by
  rw [sent, inDone, h.transfer]
  rfl

/-- The packet at `o` was a full one: the next is handed over. -/
theorem Sending.more (h : Sending ptr o c) (hrest : 64 ≤ c.ctlSize.toNat - o) :
    let c' := sent subscribers descs c
    Sending ptr (o + 64) c' ∧ c'.ctlSize = c.ctlSize ∧ c'.mem = c.mem ∧ c'.epOut = c.epOut ∧
      c'.calls = c.calls ++ [.startIN (ptr.add (o + 64)) (min ctrlepSize (c.ctlSize - c'.ctlOffset)) .dataIN] := by
  have hfull : ctrlepSize ≤ c.ctlSize - c.ctlOffset := by
    rw [UInt32.le_iff_toNat_le, h.rest]
    exact hrest
  have hmin : min ctrlepSize (c.ctlSize - c.ctlOffset) = ctrlepSize := if_pos hfull
  have hoffset : (c.ctlOffset + ctrlepSize).toNat = o + 64 := by
    have hlt := c.ctlSize.toNat_lt
    rw [UInt32.toNat_add, h.offset]
    exact Nat.mod_eq_of_lt (show o + 64 < 2 ^ 32 by omega)
  have hsent : sent subscribers descs c =
      startINTransfer (c.ctlPtr.add (c.ctlOffset + ctrlepSize).toNat)
        (min ctrlepSize (c.ctlSize - (c.ctlOffset + ctrlepSize))) .dataIN
        { c with epIn := none, ctlOffset := c.ctlOffset + ctrlepSize } := by
    rw [h.sent_eq]
    unfold dataINCallback
    rw [if_neg (by decide), if_pos hfull]
    dsimp only
    rw [hmin]
  intro c'
  have hc' : c' = _ := hsent
  rw [hc', hoffset, h.pointer]
  refine ⟨⟨rfl, hoffset, ?_, rfl⟩, rfl, rfl, rfl, rfl⟩
  show o + 64 ≤ c.ctlSize.toNat
  have := h.inside
  omega

/-- The packet at `o` was a short one: the status stage follows. -/
theorem Sending.last (h : Sending ptr o c) (hrest : c.ctlSize.toNat - o < 64) :
    let c' := sent subscribers descs c
    c'.epIn = none ∧ c'.mem = c.mem ∧ (∀ t, c.epOut = some t → c'.epOut = some t) ∧
      c'.calls = c.calls ++ [.startOUT .null 0 .statusOUT] := by
  have hshort : ¬ ctrlepSize ≤ c.ctlSize - c.ctlOffset := by
    rw [UInt32.le_iff_toNat_le, h.rest]
    exact Nat.not_le.2 hrest
  have hsent : sent subscribers descs c = startStatusOUTStage { c with epIn := none } := by
    rw [h.sent_eq]
    unfold dataINCallback
    rw [if_neg (by decide), if_neg hshort]
  intro c'
  have hc' : c' = _ := hsent
  rw [hc']
  refine ⟨rfl, rfl, fun t ht => ?_, rfl⟩
  show c.epOut.or _ = some t
  rw [ht]
  rfl

/-! ## All completions -/

theorem sent_of_none (h : c.epIn = none) (k : Nat) : (sent subscribers descs)^[k] c = c := by
  refine Function.iterate_fixed ?_ k
  rw [sent, inDone, h]

/-- The pieces from the packet in progress on. -/
theorem Sending.pieces_more (h : Sending ptr o c) (hrest : 64 ≤ c.ctlSize.toNat - o) :
    piecesFrom c o = Ring.copyOut (c.mem ptr.block) (ptr.offs + o) 64 :: piecesFrom (sent subscribers descs c) (o + 64) := by
  obtain ⟨hsending, hsize, hmem, -, -⟩ := @Sending.more _ subscribers descs _ _ _ h hrest
  rw [piecesFrom, piecesFrom, pieces_of_le _ _ (by decide) hrest, hsize, hmem, hsending.pointer, h.pointer, Nat.add_assoc,
    Nat.sub_add_eq]

theorem Sending.pieces_last (h : Sending ptr o c) (hrest : c.ctlSize.toNat - o < 64) :
    piecesFrom c o = [Ring.copyOut (c.mem ptr.block) (ptr.offs + o) (c.ctlSize.toNat - o)] := by
  rw [piecesFrom, pieces_of_lt _ _ hrest, h.pointer]

/-- The packet in progress is the first of the pieces that are left. -/
theorem Sending.head (h : Sending ptr o c) : ∃ ps, piecesFrom c o =
    Ring.copyOut (c.mem ptr.block) (ptr.offs + o) (min ctrlepSize (c.ctlSize - c.ctlOffset)).toNat :: ps := by
  rw [toNat_min, h.rest, piecesFrom, h.pointer]
  show ∃ ps, _ = Ring.copyOut _ _ (min 64 _) :: ps
  rcases Nat.lt_or_ge (c.ctlSize.toNat - o) 64 with hrest | hrest
  · rw [pieces_of_lt _ _ hrest, Nat.min_eq_right (Nat.le_of_lt hrest)]
    exact ⟨[], rfl⟩
  · rw [pieces_of_le _ _ (by decide) hrest, Nat.min_eq_left hrest]
    exact ⟨_, rfl⟩

/-- The packets handed over by the first `k` completions. -/
theorem Sending.handed_run (h : Sending ptr o c) (k : Nat) :
    handed c.mem ((sent subscribers descs)^[k] c).calls = handed c.mem c.calls ++ (piecesFrom c o).tail.take k ∧
      ((sent subscribers descs)^[k] c).mem = c.mem ∧
      ∀ t, c.epOut = some t → ((sent subscribers descs)^[k] c).epOut = some t := by
  induction k generalizing c o with
  | zero => exact ⟨(List.append_nil _).symm, rfl, fun _ ht => ht⟩
  | succ k ih =>
      rw [Function.iterate_succ_apply]
      rcases Nat.lt_or_ge (c.ctlSize.toNat - o) 64 with hrest | hrest
      · obtain ⟨hnone, hmem, hout, hcalls⟩ := @Sending.last _ subscribers descs _ _ _ h hrest
        rw [sent_of_none hnone, hmem, hcalls, h.pieces_last hrest, handed, List.filterMap_append]
        exact ⟨rfl, rfl, hout⟩
      · obtain ⟨hsending, hsize, hmem, hout, hcalls⟩ := @Sending.more _ subscribers descs _ _ _ h hrest
        obtain ⟨hhanded, hkeep, hstatus⟩ := ih hsending
        rw [hmem] at hhanded hkeep
        refine ⟨?_, hkeep, fun t ht => hstatus t (hout.trans ht)⟩
        obtain ⟨ps, hps⟩ := hsending.head
        rw [@Sending.pieces_more _ subscribers descs _ _ _ h hrest, hhanded, hcalls, handed, List.filterMap_append,
          List.append_assoc, hps, hmem, hsize]
        rfl

/-- The last completion of all, and the stage behind it. -/
theorem Sending.ends (h : Sending ptr o c) : ∃ k, (piecesFrom c o).length = k + 1 ∧
    ((sent subscribers descs)^[k + 1] c).epIn = none ∧
    ((sent subscribers descs)^[k + 1] c).calls = ((sent subscribers descs)^[k] c).calls ++ [.startOUT .null 0 .statusOUT] := by
  generalize hlen : c.ctlSize.toNat - o = len
  induction len using Nat.strongRecOn generalizing c o with
  | _ len ih =>
      subst hlen
      rcases Nat.lt_or_ge (c.ctlSize.toNat - o) 64 with hrest | hrest
      · obtain ⟨hnone, -, -, hcalls⟩ := @Sending.last _ subscribers descs _ _ _ h hrest
        rw [h.pieces_last hrest]
        exact ⟨0, rfl, hnone, hcalls⟩
      · obtain ⟨hsending, hsize, -, -, -⟩ := @Sending.more _ subscribers descs _ _ _ h hrest
        obtain ⟨k, hlen, hend⟩ := ih _ (by rw [hsize]; omega) hsending rfl
        refine ⟨k + 1, ?_, hend⟩
        rw [@Sending.pieces_more _ subscribers descs _ _ _ h hrest, List.length_cons, hlen]

/-- The stage begins with the first piece. -/
theorem sending_start (size : UInt32) (h : c.epIn = none) :
    let s := startDataINStage ptr size c
    Sending ptr 0 s ∧ s.ctlSize = size ∧ s.mem = c.mem ∧ (c.epOut = none → s.epOut = some ⟨.null, 0, .statusOUT⟩) ∧
      s.calls = c.calls ++ [.startIN ptr (min ctrlepSize size) .dataIN, .startOUT .null 0 .statusOUT] := by
  refine ⟨⟨rfl, rfl, Nat.zero_le _, ?_⟩, rfl, rfl, fun hfree => ?_, List.append_assoc ..⟩
  · show c.epIn.or (some ⟨ptr, min ctrlepSize size, .dataIN⟩) = some ⟨ptr, min ctrlepSize (size - 0), .dataIN⟩
    rw [h, UInt32.sub_zero]
    rfl
  · show c.epOut.or _ = _
    rw [hfree]
    rfl

/-- **The data stage to the host**: with each packet sent the next is handed over; together they are the data, in packets of
64 bytes up to the first short one, which is empty where the data are full packets. With that one sent the status stage is
started, and nothing more is handed over. -/
theorem dataIN_packets (c : Core σ) (ptr : Ptr) (size : UInt32) (h : c.epIn = none) :
    ∃ ps : List (List UInt8), ps.flatten = Ring.copyOut (c.mem ptr.block) ptr.offs size.toNat ∧
      (∃ full p, ps = full ++ [p] ∧ (∀ q ∈ full, q.length = 64) ∧ p.length < 64) ∧
      (∀ k, handed c.mem ((sent subscribers descs)^[k] (startDataINStage ptr size c)).calls =
        handed c.mem c.calls ++ ps.take (k + 1)) ∧
      ∃ k, ps.length = k + 1 ∧
        ((sent subscribers descs)^[k + 1] (startDataINStage ptr size c)).calls =
          ((sent subscribers descs)^[k] (startDataINStage ptr size c)).calls ++ [.startOUT .null 0 .statusOUT] ∧
        (c.epOut = none → ((sent subscribers descs)^[k + 1] (startDataINStage ptr size c)).epOut =
          some ⟨.null, 0, .statusOUT⟩) ∧
        ∀ j, (sent subscribers descs)^[j + (k + 1)] (startDataINStage ptr size c) =
          (sent subscribers descs)^[k + 1] (startDataINStage ptr size c) := by
  obtain ⟨hsending, hsize, hmem, hout, hcalls⟩ := sending_start size h
  have hpieces : piecesFrom (startDataINStage ptr size c) 0 = pieces 64 (c.mem ptr.block) ptr.offs size.toNat := by
    rw [piecesFrom, hsending.pointer, hsize, hmem]
    rfl
  obtain ⟨k, hlen, hnone, hend⟩ := hsending.ends
  refine ⟨piecesFrom (startDataINStage ptr size c) 0, ?_, ?_, fun j => ?_, k, hlen, hend, fun hfree => ?_, fun j => ?_⟩
  · rw [hpieces, flatten_pieces]
  · rw [hpieces]
    exact split_pieces _ _ _ (by decide)
  · obtain ⟨ps, hps⟩ := hsending.head
    obtain ⟨hrun, -, -⟩ := hsending.handed_run j
    rw [hmem] at hrun
    have hoffset : (startDataINStage ptr size c).ctlOffset = 0 := UInt32.toNat_inj.1 hsending.offset
    rw [hrun, hcalls, handed, List.filterMap_append, List.append_assoc, hps, hmem, hsize, hoffset, UInt32.sub_zero]
    rfl
  · exact (hsending.handed_run (k + 1)).2.2 _ (hout hfree)
  · rw [Function.iterate_add_apply]
    exact sent_of_none hnone j

/-- A full packet of 64 bytes has an empty one behind it. -/
theorem dataIN_packets_full : ∃ ps : List (List UInt8), ps.flatten = Ring.copyOut (idle.mem .device) 0 64 ∧
    ∃ full p, ps = full ++ [p] ∧ (∀ q ∈ full, q.length = 64) ∧ p.length < 64 := by
  obtain ⟨ps, hdata, hsplit, -⟩ := @dataIN_packets _ requestCallback usbDescriptors idle ⟨.device, 0⟩ 64 rfl
  exact ⟨ps, hdata, hsplit⟩

end YieldStm32.Usb.Core
