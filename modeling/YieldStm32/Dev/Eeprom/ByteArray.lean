import YieldStm32.Lib.Run
import YieldStm32.Dev.Eeprom.Ranges

/-!
# The EEPROM as an array of bytes (`EEPROM_Write`, `EEPROM_Read`)

The driver remembers the end of the last call, and does not address the chip when the next read begins there.

* `Sys`, `step` : the device, the array it stands for, and where the last call ended;
* `Last.wrote`, `Last.didRead` : whether the chip's counter is in doubt there, from the calls alone;
* `Agrees` : the chip holds the array, and its counter is where the last call ended, unless that is in doubt;
* `refines_array` : reads give what was last written, as long as none begins where the counter is in doubt;
* `read_behind_page` : what is read where a write has ended with a page.
-/

namespace YieldStm32.Eeprom

open SerialEeprom Ring Transition

/-! ## Calls -/

inductive Call where
  | read (offset size : BitVec 32)
  | write (offset size : BitVec 32) (p8 : Nat → UInt8)

/-- The end of the last call that was accepted, and whether the chip's counter may be elsewhere. -/
abbrev Last := Option (Nat × Bool)

/-- Nothing was written, and the last call did not end there; or the last byte of a page was. -/
def Last.wrote (g : Geometry) (last : Last) (offset size : Nat) : Last :=
  some (offset + size, if size = 0 then decide (last ≠ some (offset, false)) else decide ((offset + size) % g.pageSize = 0))

/-- A read that begins where the last call ended leaves the doubt, any other addresses the chip. -/
def Last.didRead (last : Last) (offset size : Nat) : Last :=
  some (offset + size, decide (last = some (offset, true)))

structure Sys where
  dev : Dev
  bytes : Nat → UInt8
  last : Last

/-- The driver at start: it has not addressed the chip. -/
def Sys.enter (b : Bus) : Sys where
  dev := { bus := b, memAddr := 0, memAddrValid := false }
  bytes := b.chip.mem
  last := none

variable (g : Geometry) (env : Env) (task : Sem.TaskId)

/-- A call; what is written goes into the array as well. -/
def step (s : Sys) : Call → Option Sys
  | .read offset size =>
    some { s with
      dev := (read g env offset size s.dev).2.2
      last := if accepts g offset size then s.last.didRead offset.toNat size.toNat else s.last }
  | .write offset size p8 =>
    some {
      dev := (write g env task offset size p8 s.dev).2
      bytes := if accepts g offset size then copyIn s.bytes offset.toNat (copyOut p8 0 size.toNat) else s.bytes
      last := if accepts g offset size then s.last.wrote g offset.toNat size.toNat else s.last }

/-- A read that is accepted gets the bytes of the array. -/
def Serves (s : Sys) : Call → Sys → Prop
  | .read offset size, _ =>
    accepts g offset size →
      (read g env offset size s.dev).1 = size.toNat ∧
        (read g env offset size s.dev).2.1 = copyOut s.bytes offset.toNat size.toNat
  | .write .., _ => True

/-- The range does not go over 32 bits; and a read of some bytes does not begin where the counter is in doubt. -/
def Certain (s : Sys) : Call → Prop
  | .read offset size =>
    accepts g offset size → offset.toNat + size.toNat < 2 ^ 32 ∧ (size.toNat ≠ 0 → s.last ≠ some (offset.toNat, true))
  | .write offset size _ => accepts g offset size → offset.toNat + size.toNat < 2 ^ 32

/-! ## The invariant -/

structure Agrees (s : Sys) : Prop where
  mem : ∀ a < g.capacity, s.dev.bus.chip.mem a = s.bytes a
  valid : s.dev.memAddrValid = s.last.isSome
  cached : ∀ e doubt, s.last = some (e, doubt) → s.dev.memAddr.toNat = e
  counter : ∀ e, s.last = some (e, false) → s.dev.bus.chip.counter = e

variable {g env task} {s : Sys}

theorem agrees_enter (b : Bus) : Agrees g (Sys.enter b) where
  mem _ _ := rfl
  valid := rfl
  cached _ _ h := by cases h
  counter _ h := by cases h

theorem range_of_accepts {offset size : BitVec 32} (hacc : accepts g offset size)
    (h : offset.toNat + size.toNat < 2 ^ 32) : offset.toNat + size.toNat < g.capacity := by
  rw [accepts, BitVec.toNat_add] at hacc
  omega

theorem toNat_end {offset size : BitVec 32} (h : offset.toNat + size.toNat < g.capacity) :
    (offset + size).toNat = offset.toNat + size.toNat := by
  have := g.le
  rw [BitVec.toNat_add]
  omega

/-- The driver addresses the chip exactly where the last call did not end. -/
theorem Agrees.skips_iff (hs : Agrees g s) (offset : BitVec 32) :
    (!s.dev.memAddrValid || s.dev.memAddr != offset) = false ↔ ∃ doubt, s.last = some (offset.toNat, doubt) := by
  rw [hs.valid]
  cases hlast : s.last with
  | none => simp
  | some x =>
      obtain ⟨e, doubt⟩ := x
      have hcached := hs.cached e doubt hlast
      simp only [Option.isSome_some, Bool.not_true, Bool.false_or, bne_eq_false_iff_eq, Option.some.injEq, Prod.mk.injEq,
        exists_and_left, exists_eq', and_true, ← hcached]
      exact ⟨fun h => by rw [h], BitVec.eq_of_toNat_eq⟩

theorem agrees_write (h : env.Answers) (hs : Agrees g s) {offset size : BitVec 32} {p8 : Nat → UInt8}
    (hrange : offset.toNat + size.toNat < g.capacity) :
    Agrees g
      { dev := (write g env task offset size p8 s.dev).2
        bytes := copyIn s.bytes offset.toNat (copyOut p8 0 size.toNat)
        last := s.last.wrote g offset.toNat size.toNat } := by
  obtain ⟨b', heq, hw⟩ := write_of_lt h task p8 s.dev hrange
  rw [heq]
  refine ⟨fun a ha => ?_, rfl, fun e doubt hlast => ?_, fun e hlast => ?_⟩
  · have hsame : (s.dev.bus.setWriteProtect false).chip.mem a = s.bytes a := hs.mem a ha
    show b'.chip.mem a = copyIn s.bytes offset.toNat (copyOut p8 0 size.toNat) a
    rw [hw.mem, copyIn_apply, copyIn_apply, hsame]
  · obtain ⟨rfl, -⟩ := Prod.mk.inj (Option.some.inj hlast)
    exact toNat_end hrange
  · obtain ⟨rfl, hdoubt⟩ := Prod.mk.inj (Option.some.inj hlast)
    show b'.chip.counter = offset.toNat + size.toNat
    rw [hw.counter, length_copyOut]
    by_cases hsize : size.toNat = 0
    · -- nothing was written, where the last call had ended
      rw [if_pos hsize, decide_eq_false_iff_not, not_not] at hdoubt
      rw [if_pos (by rw [hsize]; rfl), hsize, Nat.add_zero]
      exact hs.counter _ hdoubt
    · rw [if_neg hsize, decide_eq_false_iff_not] at hdoubt
      have hne : copyOut p8 0 size.toNat ≠ [] := fun hnil => hsize (by rw [← length_copyOut p8 0 size.toNat, hnil]; rfl)
      rw [if_neg hne, counterAfter, if_neg hdoubt]

/-- A read that is not in doubt gets the bytes of the array, and leaves the counter at its end. -/
theorem agrees_read (h : env.Answers) (hs : Agrees g s) {offset size : BitVec 32}
    (hrange : offset.toNat + size.toNat < g.capacity) (hcertain : size.toNat ≠ 0 → s.last ≠ some (offset.toNat, true)) :
    ((read g env offset size s.dev).1 = size.toNat ∧
        (read g env offset size s.dev).2.1 = copyOut s.bytes offset.toNat size.toNat) ∧
      Agrees g { s with
        dev := (read g env offset size s.dev).2.2
        last := s.last.didRead offset.toNat size.toNat } := by
  have hcap := g.le
  have hacc : accepts g offset size := by
    rw [accepts, toNat_end hrange]
    exact hrange
  obtain ⟨count, heq⟩ := readTransfers_answers (g := g) h (!s.dev.memAddrValid || s.dev.memAddr != offset) offset size
    (b := s.dev.bus) (by omega) rfl
  have hskips := hs.skips_iff offset
  generalize hwrite : (!s.dev.memAddrValid || s.dev.memAddr != offset) = writeAddr at *
  -- the counter is at the offset, unless that is in doubt
  have hstart : s.last ≠ some (offset.toNat, true) →
      (if writeAddr then offset.toNat else s.dev.bus.chip.counter) = offset.toNat := by
    intro hne
    cases writeAddr with
    | true => rfl
    | false =>
        obtain ⟨doubt, hlast⟩ := hskips.1 rfl
        cases doubt with
        | true => exact absurd hlast hne
        | false => exact hs.counter _ hlast
  have hint : size.toInt = size.toNat := toInt_of_lt (by omega)
  rw [read, if_neg (not_not.2 hacc), hwrite, heq]
  dsimp only
  by_cases hsize : size.toNat = 0
  · -- nothing is read, and the counter stays where it was
    rw [hsize] at hint ⊢
    refine ⟨⟨hint, rfl⟩, hs.mem, rfl, fun e doubt hlast => ?_, fun e hlast => ?_⟩
    · obtain ⟨rfl, -⟩ := Prod.mk.inj (Option.some.inj hlast)
      rw [← hsize]
      exact toNat_end hrange
    · obtain ⟨rfl, hdoubt⟩ := Prod.mk.inj (Option.some.inj hlast)
      exact hstart (decide_eq_false_iff_not.1 hdoubt)
  · rw [hstart (hcertain hsize), Chip.gets_spec (by exact hrange)]
    dsimp only
    refine ⟨⟨hint, copyOut_congr fun i hi => hs.mem _ (by omega)⟩, hs.mem, rfl, fun e doubt hlast => ?_, fun e hlast => ?_⟩
    · obtain ⟨rfl, -⟩ := Prod.mk.inj (Option.some.inj hlast)
      exact toNat_end hrange
    · obtain ⟨rfl, -⟩ := Prod.mk.inj (Option.some.inj hlast)
      rfl

/-! ## Runs -/

theorem serves_step (h : env.Answers) (hs : Agrees g s) {c : Call} {s' : Sys} (hc : Certain g s c)
    (hstep : step g env task s c = some s') : Agrees g s' ∧ Serves g env s c s' := by
  cases c with
  | read offset size =>
      obtain rfl := Option.some.inj hstep
      by_cases hacc : accepts g offset size
      · have hrange := range_of_accepts hacc (hc hacc).1
        obtain ⟨hserves, hagrees⟩ := agrees_read h hs hrange (hc hacc).2
        rw [if_pos hacc]
        exact ⟨hagrees, fun _ => hserves⟩
      · rw [if_neg hacc, read_of_not_accepts hacc]
        exact ⟨hs, fun hno => absurd hno hacc⟩
  | write offset size p8 =>
      obtain rfl := Option.some.inj hstep
      by_cases hacc : accepts g offset size
      · rw [if_pos hacc, if_pos hacc]
        exact ⟨agrees_write h hs (range_of_accepts hacc (hc hacc)), True.intro⟩
      · rw [if_neg hacc, if_neg hacc, write_of_not_accepts hacc]
        exact ⟨hs, True.intro⟩

/-- **The array**: in every run from the start of the driver, each read that is accepted gets the bytes last written, if the
ranges do not go over 32 bits, and no read begins where a write has ended that was empty, or filled a page to its end. -/
theorem refines_array (h : env.Answers) (task : Sem.TaskId) (b : Bus) (cs : List Call)
    (hcertain : Meets (step g env task) (Certain g) (Sys.enter b) cs) :
    Along (step g env task) (Serves g env) (Sys.enter b) cs := by
  refine along_of_meets (I := Agrees g) (G := Certain g) (fun s c s' hs hc hstep => ?_) (agrees_enter b) hcertain
  exact serves_step h hs hc hstep

/-- Where a write has ended with a page, the next read gets the beginning of that page. -/
theorem read_behind_page (h : env.Answers) (hs : Agrees g s) {offset size n : BitVec 32} {p8 : Nat → UInt8}
    (hrange : offset.toNat + size.toNat < g.capacity) (hsize : size.toNat ≠ 0)
    (hend : (offset.toNat + size.toNat) % g.pageSize = 0) (hread : (offset + size).toNat + n.toNat < g.capacity) :
    (read g env (offset + size) n (write g env task offset size p8 s.dev).2).2.1 =
      copyOut (copyIn s.bytes offset.toNat (copyOut p8 0 size.toNat)) (offset.toNat + size.toNat - g.pageSize) n.toNat := by
  have hpage := g.pageSize_pos
  obtain ⟨b', heq, hw⟩ := write_of_lt h task p8 s.dev hrange
  have hmem := (@agrees_write g env task s h hs offset size p8 hrange).mem
  rw [heq] at hmem ⊢
  have hne : copyOut p8 0 size.toNat ≠ [] := fun hnil => hsize (by rw [← length_copyOut p8 0 size.toNat, hnil]; rfl)
  have hcounter : b'.chip.counter = offset.toNat + size.toNat - g.pageSize := by
    rw [hw.counter, if_neg hne, length_copyOut, counterAfter, if_pos hend]
  have hend' := toNat_end hrange
  have hacc : accepts g (offset + size) n := by
    rw [accepts, toNat_end hread]
    exact hread
  have hcap : (offset + size).toNat < g.capacity := by omega
  obtain ⟨count, hread'⟩ := readTransfers_answers (g := g) h false (offset + size) n (b := b'.setWriteProtect true) hcap rfl
  rw [read, if_neg (not_not.2 hacc)]
  simp only [Bool.not_true, bne_self_eq_false, Bool.or_self]
  rw [hread']
  dsimp only
  rw [if_neg Bool.false_ne_true, show (b'.setWriteProtect true).chip.counter = _ from hcounter,
    Chip.gets_spec (by dsimp only; omega)]
  refine copyOut_congr fun i hi => ?_
  exact hmem (offset.toNat + size.toNat - g.pageSize + i) (by omega)

/-- Two of four bytes are read back. -/
theorem refines_array_inside :
    Along (step onBoard answering firstTask) (Serves onBoard answering) (Sys.enter blank.bus)
      [.write 0 4 fun i => UInt8.ofNat i, .read 1 2] := by
  refine refines_array answers_answering firstTask blank.bus _ ⟨fun _ => by decide, fun s hs => ⟨fun _ => ⟨by decide, fun _ => ?_⟩,
    fun _ _ => True.intro⟩⟩
  obtain rfl := Option.some.inj hs
  decide

/-- A page is written, and the byte behind it read. -/
theorem not_serves_behind_page :
    ¬ Along (step onBoard answering firstTask) (Serves onBoard answering) (Sys.enter blank.bus)
      [.write 0 64 fun i => UInt8.ofNat i, .read 64 1] := by
  intro h
  have hserves := ((h _ rfl).2 _ rfl).1 (by decide)
  have hread := @read_behind_page onBoard answering firstTask _ answers_answering (agrees_enter blank.bus) 0 64 1
    (fun i => UInt8.ofNat i) (by decide) (by decide) (by decide) (by decide)
  exact absurd (hread.symm.trans hserves.2) (by decide)

end YieldStm32.Eeprom
