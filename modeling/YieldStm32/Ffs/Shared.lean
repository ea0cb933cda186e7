import YieldStm32.Lib.Run
import YieldStm32.Www.Ffs

/-!
# Handles on shared files (`ffs/src/ffs.c`)

The flash file system with `FFS_Write`: a file's size and data are in its descriptor, which all its handles share.

* `Desc`, `Entry`, `Disk` : a file with its memory, an entry of the pool, and all of them;
* `openFile`, `read`, `write`, `seek`, `close` : the functions on them;
* `Sys`, `step` : calls in any order, on handles that are open;
* `sound_of_run` : what holds of all handles, whatever the calls were;
* `newPos_le_iff` : seeks by signed offsets;
* `openFile_shows`, `read_shows`, `seek_shows`, `close_shows` : files that nobody writes to, as they were modelled alone.
-/

namespace YieldStm32.Ffs.Shared

def modeW : Mode := 2

/-- `ffs_file_desc_t`, where there are `room` bytes at `ptr`. -/
structure Desc where
  name : List UInt8
  mode : Mode
  size : BitVec 32
  ptr : Nat → UInt8
  room : Nat
  room_lt : room < 2 ^ 32
  size_le : size.toNat ≤ room

/-- `ffs_file_t`, whose descriptor is a null pointer at first. -/
structure Entry (k : Nat) where
  used : Bool
  taskId : Nat
  fd : Option (Fin k)
  mode : Mode
  position : BitVec 32

/-- The descriptors, array by array, and `fpool`. -/
structure Disk (k : Nat) where
  descs : Fin k → Desc
  fpool : Fin 32 → Entry k

variable {k : Nat}

namespace Disk

def setEntry (d : Disk k) (i : Fin 32) (e : Entry k) : Disk k := { d with fpool := Function.update d.fpool i e }

def setDesc (d : Disk k) (f : Fin k) (fd : Desc) : Disk k := { d with descs := Function.update d.descs f fd }

/-- The first descriptor of a name. -/
def findFile (d : Disk k) (name : List UInt8) : Option (Fin k) :=
  (List.finRange k).find? fun f => (d.descs f).name = name

end Disk

/-- `FFS_Open` -/
def openFile (name : Option (List UInt8)) (mode : Mode) (task : Nat) (d : Disk k) : Option (Fin 32) × Disk k :=
  match name with
  | none => (none, d)
  | some name =>
      if mode = 0 then (none, d)
      else match d.findFile name with
        | none => (none, d)
        | some f =>
            if mode &&& ~~~ (d.descs f).mode ≠ 0 then (none, d)
            else match Pool.firstFree Entry.used d.fpool with
              | none => (none, d)
              | some fp => (some fp, d.setEntry fp ⟨true, task, some f, mode, 0⟩)

/-- `min` -/
def umin (a b : BitVec 32) : BitVec 32 := if a < b then a else b

/-- `FFS_Read`: what is returned, the bytes that are copied, and the disk; none where a null pointer is followed. -/
def read (fp : Option (Fin 32)) (size : BitVec 32) (d : Disk k) : Option (Int × List UInt8 × Disk k) :=
  match fp with
  | none => some (Http.efatal, [], d)
  | some i =>
      let e := d.fpool i
      if e.mode &&& modeR = 0 then some (Http.efatal, [], d)
      else e.fd.map fun f =>
        let size := umin size ((d.descs f).size - e.position)
        (size.toInt, Ring.copyOut (d.descs f).ptr e.position.toNat size.toNat,
          d.setEntry i { e with position := e.position + size })

/-- The data at a position of a file, which grows where they go beyond its end. -/
def Desc.store (fd : Desc) (position : BitVec 32) (data : List UInt8) (h : position.toNat + data.length ≤ fd.room) : Desc :=
  { fd with
    ptr := Ring.copyIn fd.ptr position.toNat data
    size := if position + BitVec.ofNat 32 data.length > fd.size then position + BitVec.ofNat 32 data.length else fd.size
    size_le := by
      split
      · rw [BitVec.toNat_add, BitVec.toNat_ofNat, Nat.add_mod_mod]
        exact Nat.le_trans (Nat.mod_le _ _) h
      · exact fd.size_le }

/-- `FFS_Write`: none where it writes outside the file's memory, or follows a null pointer. -/
def write (fp : Option (Fin 32)) (data : List UInt8) (d : Disk k) : Option (Int × Disk k) :=
  match fp with
  | none => some (Http.efatal, d)
  | some i =>
      let e := d.fpool i
      if e.mode &&& modeW = 0 then some (Http.efatal, d)
      else e.fd.bind fun f =>
        if h : e.position.toNat + data.length ≤ (d.descs f).room then
          some ((BitVec.ofNat 32 data.length).toInt,
            (d.setEntry i { e with position := e.position + BitVec.ofNat 32 data.length }).setDesc f
              ((d.descs f).store e.position data h))
        else none

/-- `new_pos` of `FFS_Seek` -/
def newPos (fsize fpos offset : BitVec 32) : SeekMode → BitVec 32
  | .set => offset
  | .cur => fpos + offset
  | .fromEnd => fsize + offset

/-- `FFS_Seek` -/
def seek (fp : Option (Fin 32)) (offset : BitVec 32) (mode : SeekMode) (d : Disk k) : Option (Int × Disk k) :=
  match fp with
  | none => some (Http.efatal, d)
  | some i =>
      let e := d.fpool i
      e.fd.map fun f =>
        let fsize := (d.descs f).size
        if newPos fsize e.position offset mode > fsize then (Http.efatal, d)
        else (0, d.setEntry i { e with position := newPos fsize e.position offset mode })

/-- `FFS_Close` -/
def close (fp : Option (Fin 32)) (d : Disk k) : Int × Disk k :=
  match fp with
  | none => (Http.efatal, d)
  | some i =>
      if (d.fpool i).used then (0, d.setEntry i { d.fpool i with used := false }) else (Http.efatal, d)

/-! ## Calls in any order -/

inductive Op where
  | open (name : Option (List UInt8)) (mode : Mode) (task : Nat)
  | read (h : Fin 32) (size : BitVec 32)
  | write (h : Fin 32) (data : List UInt8)
  | seek (h : Fin 32) (offset : BitVec 32) (mode : SeekMode)
  | close (h : Fin 32)

/-- The disk, and the handles that `FFS_Open` returned and that were not closed since. -/
structure Sys (k : Nat) where
  disk : Disk k
  handles : List (Fin 32)

namespace Sys

/-- After the start, with nothing open. -/
def init (descs : Fin k → Desc) : Sys k := ⟨⟨descs, fun _ => ⟨false, 0, none, 0, 0⟩⟩, []⟩

/-- A call, on a handle that is open. -/
def step (s : Sys k) : Op → Option (Sys k)
  | .open name mode task =>
      let r := openFile name mode task s.disk
      some ⟨r.2, r.1.toList ++ s.handles⟩
  | .read h size => if h ∈ s.handles then (read (some h) size s.disk).map fun r => ⟨r.2.2, s.handles⟩ else none
  | .write h data => if h ∈ s.handles then (write (some h) data s.disk).map fun r => ⟨r.2, s.handles⟩ else none
  | .seek h offset mode => if h ∈ s.handles then (seek (some h) offset mode s.disk).map fun r => ⟨r.2, s.handles⟩ else none
  | .close h => if h ∈ s.handles then some ⟨(close (some h) s.disk).2, s.handles.erase h⟩ else none

end Sys

/-! ## What a call does -/

theorem openFile_cases (name : Option (List UInt8)) (mode : Mode) (task : Nat) (d : Disk k) :
    openFile name mode task d = (none, d) ∨ ∃ fp f, (d.fpool fp).used = false ∧
      openFile name mode task d = (some fp, d.setEntry fp ⟨true, task, some f, mode, 0⟩) := by
  cases name with
  | none => exact .inl rfl
  | some name =>
      unfold openFile
      dsimp only
      by_cases hmode : mode = 0
      · exact .inl (if_pos hmode)
      rw [if_neg hmode]
      cases d.findFile name with
      | none => exact .inl rfl
      | some f =>
          dsimp only
          by_cases hallowed : mode &&& ~~~ (d.descs f).mode ≠ 0
          · exact .inl (if_pos hallowed)
          rw [if_neg hallowed]
          cases hfree : Pool.firstFree Entry.used d.fpool with
          | none => exact .inl rfl
          | some fp => exact .inr ⟨fp, f, Pool.firstFree_spec hfree, rfl⟩

theorem toNat_umin (a b : BitVec 32) : (umin a b).toNat = min a.toNat b.toNat := by
  unfold umin
  by_cases h : a < b
  · rw [if_pos h, Nat.min_eq_left (Nat.le_of_lt h)]
  · rw [if_neg h, Nat.min_eq_right (Nat.le_of_not_lt h)]

section Handle

variable {d : Disk k} {h : Fin 32} {f : Fin k} (hfd : (d.fpool h).fd = some f)

/-- The data of a file. -/
def Desc.bytes (fd : Desc) : List UInt8 := Ring.copyOut fd.ptr 0 fd.size.toNat

/-- What a read of `n` bytes brings: what is left of the file, as much as is asked for; the position is behind it then. -/
def ReadsFile (d : Disk k) (h : Fin 32) (f : Fin k) : Prop :=
  ∀ n : BitVec 32, ∃ position : BitVec 32,
    let count := min n.toNat ((d.descs f).size.toNat - (d.fpool h).position.toNat)
    position.toNat = (d.fpool h).position.toNat + count ∧
      read (some h) n d = some (Http.asErr count, ((d.descs f).bytes.drop (d.fpool h).position.toNat).take count,
        d.setEntry h { d.fpool h with position := position })

include hfd

theorem readsFile (hpos : (d.fpool h).position.toNat ≤ (d.descs f).size.toNat) (hmode : (d.fpool h).mode &&& modeR ≠ 0) :
    ReadsFile d h f := by
  intro n
  have hleft : ((d.descs f).size - (d.fpool h).position).toNat = (d.descs f).size.toNat - (d.fpool h).position.toNat :=
    BitVec.toNat_sub_of_le hpos
  obtain ⟨count, hcount⟩ : ∃ count, umin n ((d.descs f).size - (d.fpool h).position) = count := ⟨_, rfl⟩
  have htoNat : count.toNat = min n.toNat ((d.descs f).size.toNat - (d.fpool h).position.toNat) := by
    rw [← hcount, toNat_umin, hleft]
  have hsum : (d.fpool h).position.toNat + count.toNat ≤ (d.descs f).size.toNat := by omega
  refine ⟨(d.fpool h).position + count, ?_, ?_⟩
  · rw [BitVec.toNat_add, ← htoNat]
    exact Nat.mod_eq_of_lt (Nat.lt_of_le_of_lt hsum (d.descs f).size.isLt)
  · dsimp only
    have hret : count.toInt = Http.asErr count.toNat := by rw [Http.asErr, BitVec.ofNat_toNat, BitVec.setWidth_eq]
    have hbytes : ((d.descs f).bytes.drop (d.fpool h).position.toNat).take count.toNat =
        Ring.copyOut (d.descs f).ptr (d.fpool h).position.toNat count.toNat := by
      rw [Desc.bytes, Ring.drop_copyOut, Ring.take_copyOut, Nat.zero_add, Nat.min_eq_left (by omega)]
    rw [← htoNat, hbytes, ← hret, read]
    dsimp only
    rw [if_neg hmode, hfd, Option.map_some, hcount]

theorem seek_eq (offset : BitVec 32) (mode : SeekMode) :
    seek (some h) offset mode d =
      if newPos (d.descs f).size (d.fpool h).position offset mode > (d.descs f).size then some (Http.efatal, d)
      else some (0, d.setEntry h
        { d.fpool h with position := newPos (d.descs f).size (d.fpool h).position offset mode }) := by
  unfold seek
  dsimp only
  rw [hfd, Option.map_some, apply_ite some]

end Handle

/-! ## All handles -/

/-- An entry that is in use, at a file, and not behind its end. -/
def Good (d : Disk k) (e : Entry k) : Prop :=
  e.used = true ∧ ∃ f, e.fd = some f ∧ e.position.toNat ≤ (d.descs f).size.toNat

/-- No file of `d` gets shorter. -/
def Grows (d d' : Disk k) : Prop := ∀ f, (d.descs f).size.toNat ≤ (d'.descs f).size.toNat

theorem Good.mono {d d' : Disk k} {e : Entry k} (hgrows : Grows d d') (he : Good d e) : Good d' e := by
  obtain ⟨hused, f, hfd, hpos⟩ := he
  exact ⟨hused, f, hfd, Nat.le_trans hpos (hgrows f)⟩

/-- The handles stand for entries of their own, all of them good. -/
structure Inv (s : Sys k) : Prop where
  nodup : s.handles.Nodup
  good : ∀ h ∈ s.handles, Good s.disk (s.disk.fpool h)

theorem inv_init (descs : Fin k → Desc) : Inv (Sys.init descs) :=
  ⟨List.nodup_nil, fun _ h => absurd h List.not_mem_nil⟩

/-- One entry changes, and files may grow. -/
theorem Inv.update {d d' : Disk k} {handles : List (Fin 32)} (hinv : Inv ⟨d, handles⟩) {h : Fin 32} {e : Entry k}
    (hpool : d'.fpool = Function.update d.fpool h e) (hgrows : Grows d d') (he : Good d' e) : Inv ⟨d', handles⟩ := by
  refine ⟨hinv.nodup, fun j hj => ?_⟩
  show Good d' (d'.fpool j)
  rw [hpool]
  by_cases hjh : j = h
  · rw [hjh, Function.update_self]
    exact he
  · rw [Function.update_of_ne hjh]
    exact (hinv.good j hj).mono hgrows

theorem grows_setEntry (d : Disk k) (h : Fin 32) (e : Entry k) : Grows d (d.setEntry h e) := fun _ => Nat.le_refl _

theorem size_store (fd : Desc) (position : BitVec 32) (data : List UInt8) (h : position.toNat + data.length ≤ fd.room) :
    (fd.store position data h).size.toNat = max fd.size.toNat (position.toNat + data.length) := by
  have hroom := fd.room_lt
  have hsum : (position + BitVec.ofNat 32 data.length).toNat = position.toNat + data.length := by
    rw [BitVec.toNat_add, BitVec.toNat_ofNat, Nat.add_mod_mod]
    exact Nat.mod_eq_of_lt (by omega)
  unfold Desc.store
  dsimp only
  by_cases hgt : position + BitVec.ofNat 32 data.length > fd.size
  · have hlt : fd.size.toNat < position.toNat + data.length := hsum ▸ hgt
    rw [if_pos hgt, hsum]
    omega
  · have hle : position.toNat + data.length ≤ fd.size.toNat := by
      rw [← hsum]
      exact Nat.le_of_not_lt hgt
    rw [if_neg hgt]
    omega

section Step

variable {d : Disk k} {handles : List (Fin 32)} (hinv : Inv ⟨d, handles⟩) {h : Fin 32} (hh : h ∈ handles)

include hinv

theorem inv_open (name : Option (List UInt8)) (mode : Mode) (task : Nat) :
    Inv ⟨(openFile name mode task d).2, (openFile name mode task d).1.toList ++ handles⟩ := by
  rcases openFile_cases name mode task d with hsame | ⟨fp, f, hfree, hopen⟩
  · rw [hsame]
    exact hinv
  · rw [hopen]
    have hnew : fp ∉ handles := fun hmem => by
      have hused := (hinv.good fp hmem).1
      rw [hfree] at hused
      cases hused
    have hsame := hinv.update rfl (grows_setEntry d fp ⟨true, task, some f, mode, 0⟩)
      ⟨rfl, f, rfl, Nat.zero_le _⟩
    refine ⟨List.nodup_cons.2 ⟨hnew, hinv.nodup⟩, fun j hj => ?_⟩
    rcases List.mem_cons.1 hj with rfl | hj
    · show Good _ (Function.update d.fpool j _ j)
      rw [Function.update_self]
      exact ⟨rfl, f, rfl, Nat.zero_le _⟩
    · exact hsame.good j hj

theorem inv_close : Inv ⟨(close (some h) d).2, handles.erase h⟩ := by
  refine ⟨hinv.nodup.erase h, fun j hj => ?_⟩
  have hne : j ≠ h := (hinv.nodup.mem_erase_iff.1 hj).1
  have hgood := hinv.good j (List.mem_of_mem_erase hj)
  show Good (close (some h) d).2 ((close (some h) d).2.fpool j)
  unfold close
  dsimp only
  split
  · show Good d (Function.update d.fpool h _ j)
    rw [Function.update_of_ne hne]
    exact hgood
  · exact hgood

include hh

theorem inv_read {n : BitVec 32} {r : Int × List UInt8 × Disk k} (hr : read (some h) n d = some r) : Inv ⟨r.2.2, handles⟩ := by
  have hgood : Good d (d.fpool h) := hinv.good h hh
  obtain ⟨hused, f, hfd, hpos⟩ := hgood
  by_cases hmode : (d.fpool h).mode &&& modeR = 0
  · unfold read at hr
    dsimp only at hr
    rw [if_pos hmode] at hr
    obtain rfl := Option.some.inj hr
    exact hinv
  · obtain ⟨position, hposition, heq⟩ := readsFile hfd hpos hmode n
    obtain rfl := Option.some.inj (heq.symm.trans hr)
    refine hinv.update rfl (grows_setEntry d h _) ⟨hused, f, hfd, ?_⟩
    show position.toNat ≤ (d.descs f).size.toNat
    omega

theorem inv_seek {offset : BitVec 32} {mode : SeekMode} {r : Int × Disk k} (hr : seek (some h) offset mode d = some r) :
    Inv ⟨r.2, handles⟩ := by
  have hgood : Good d (d.fpool h) := hinv.good h hh
  obtain ⟨hused, f, hfd, -⟩ := hgood
  rw [seek_eq hfd] at hr
  split at hr
  · obtain rfl := Option.some.inj hr
    exact hinv
  · rename_i hle
    obtain rfl := Option.some.inj hr
    exact hinv.update rfl (grows_setEntry d h _) ⟨hused, f, hfd, Nat.le_of_not_lt hle⟩

theorem inv_write {data : List UInt8} {r : Int × Disk k} (hr : write (some h) data d = some r) : Inv ⟨r.2, handles⟩ := by
  have hgood : Good d (d.fpool h) := hinv.good h hh
  obtain ⟨hused, f, hfd, -⟩ := hgood
  unfold write at hr
  dsimp only at hr
  rw [hfd] at hr
  dsimp only [Option.bind_some] at hr
  split at hr
  · obtain rfl := Option.some.inj hr
    exact hinv
  split at hr
  · rename_i hroom
    obtain rfl := Option.some.inj hr
    have hlt := (d.descs f).room_lt
    have hsize := size_store (d.descs f) (d.fpool h).position data hroom
    refine hinv.update rfl (fun g => ?_) ⟨hused, f, rfl, ?_⟩
    · show (d.descs g).size.toNat ≤ (Function.update d.descs f _ g).size.toNat
      by_cases hg : g = f
      · rw [hg, Function.update_self, hsize]
        exact Nat.le_max_left _ _
      · rw [Function.update_of_ne hg]
    · show ((d.fpool h).position + BitVec.ofNat 32 data.length).toNat ≤ (Function.update d.descs f _ f).size.toNat
      rw [Function.update_self, hsize, BitVec.toNat_add, BitVec.toNat_ofNat, Nat.add_mod_mod,
        Nat.mod_eq_of_lt (by omega)]
      exact Nat.le_max_right _ _
  · cases hr

end Step

/-- What a call keeps. -/
theorem inv_step (s : Sys k) (op : Op) (s' : Sys k) (hinv : Inv s) (hs : s.step op = some s') : Inv s' := by
  cases op with
  | «open» name mode task =>
      obtain rfl := Option.some.inj hs
      exact inv_open hinv name mode task
  | read h n =>
      dsimp only [Sys.step] at hs
      split at hs
      · rename_i hh
        obtain ⟨r, hr, rfl⟩ := Option.map_eq_some_iff.1 hs
        exact inv_read hinv hh hr
      · cases hs
  | write h data =>
      dsimp only [Sys.step] at hs
      split at hs
      · rename_i hh
        obtain ⟨r, hr, rfl⟩ := Option.map_eq_some_iff.1 hs
        exact inv_write hinv hh hr
      · cases hs
  | seek h offset mode =>
      dsimp only [Sys.step] at hs
      split at hs
      · rename_i hh
        obtain ⟨r, hr, rfl⟩ := Option.map_eq_some_iff.1 hs
        exact inv_seek hinv hh hr
      · cases hs
  | close h =>
      dsimp only [Sys.step] at hs
      split at hs
      · obtain rfl := Option.some.inj hs
        exact inv_close hinv
      · cases hs

/-- What holds of a handle of a file: it is not behind the end, reads bring what is there, or are refused where it was not
opened for reading, and seeks to a position outside the file are refused. -/
structure HandleSound (d : Disk k) (h : Fin 32) (f : Fin k) : Prop where
  fd : (d.fpool h).fd = some f
  position_le : (d.fpool h).position.toNat ≤ (d.descs f).size.toNat
  reads : (d.fpool h).mode &&& modeR ≠ 0 → ReadsFile d h f
  refuses : (d.fpool h).mode &&& modeR = 0 → ∀ n, read (some h) n d = some (Http.efatal, [], d)
  seeks : ∀ offset mode, newPos (d.descs f).size (d.fpool h).position offset mode > (d.descs f).size →
    seek (some h) offset mode d = some (Http.efatal, d)

/-- Handles stand for entries of their own, and are sound. -/
def Sound (s : Sys k) : Prop := s.handles.Nodup ∧ ∀ h ∈ s.handles, ∃ f, HandleSound s.disk h f

theorem Inv.sound {s : Sys k} (hinv : Inv s) : Sound s := by
  refine ⟨hinv.nodup, fun h hh => ?_⟩
  obtain ⟨-, f, hfd, hpos⟩ := hinv.good h hh
  refine ⟨f, hfd, hpos, readsFile hfd hpos, fun hmode n => ?_, fun offset mode hgt => ?_⟩
  · unfold read
    dsimp only
    rw [if_pos hmode]
  · rw [seek_eq hfd, if_pos hgt]

/-- **All handles are sound**, after any calls. -/
theorem sound_of_run (descs : Fin k → Desc) {ops : List Op} {s : Sys k}
    (hr : Transition.run Sys.step (Sys.init descs) ops = some s) : Sound s :=
  (Transition.run_keeps inv_step (inv_init descs) hr).sound

/-- A file of two bytes, and room for two more. -/
def letters : Desc := ⟨[97], 3, 2, fun i => if i = 0 then 120 else 121, 4, by decide, by decide⟩

/-- Two handles of the file: what one of them appends is behind the position of the other one. -/
def appends : List Op :=
  [.open (some [97]) 3 7, .open (some [97]) modeR 8, .read 1 5, .seek 0 0 .fromEnd, .write 0 [122], .seek 1 (-1) .cur]

theorem sound_of_run_appends : ∃ s, Transition.run Sys.step (Sys.init fun _ : Fin 1 => letters) appends = some s ∧
    s.handles = [1, 0] ∧ Sound s :=
  ⟨_, rfl, rfl, @sound_of_run 1 (fun _ => letters) appends _ rfl⟩

/-- A file that was opened for writing only is not read. -/
theorem not_reads_writeOnly : ∃ s, Transition.run Sys.step (Sys.init fun _ : Fin 1 => letters) [.open (some [97]) modeW 7] = some s ∧
    ∃ h ∈ s.handles, ∃ f, (s.disk.fpool h).fd = some f ∧ ¬ ReadsFile s.disk h f := by
  refine ⟨_, rfl, 0, List.mem_cons_self, 0, rfl, fun hreads => ?_⟩
  obtain ⟨position, -, hread⟩ := hreads 1
  cases congrArg Prod.fst (Option.some.inj hread)

/-! ## Signed offsets -/

/-- Where a seek counts from. -/
def seekBase (fsize fpos : BitVec 32) : SeekMode → Nat
  | .set => 0
  | .cur => fpos.toNat
  | .fromEnd => fsize.toNat

/-- In files below 2 GiB, unsigned arithmetic refuses the offsets that lead out of the file, and no others. -/
theorem newPos_le_iff {fsize fpos : BitVec 32} (hsize : fsize.toNat < 2 ^ 31) (hpos : fpos.toNat ≤ fsize.toNat)
    (offset : BitVec 32) (mode : SeekMode) :
    ¬ newPos fsize fpos offset mode > fsize ↔
      0 ≤ seekBase fsize fpos mode + offset.toInt ∧ seekBase fsize fpos mode + offset.toInt ≤ fsize.toNat := by
  have hsum (base : BitVec 32) (hbase : base.toNat ≤ fsize.toNat) :
      ¬ base + offset > fsize ↔ 0 ≤ (base.toNat : Int) + offset.toInt ∧ (base.toNat : Int) + offset.toInt ≤ fsize.toNat := by
    have hlt := offset.isLt
    rw [gt_iff_lt, BitVec.lt_def, BitVec.toNat_add, BitVec.toInt_eq_toNat_cond]
    split <;> omega
  cases mode with
  | set =>
      have hzero := hsum 0#32 (Nat.zero_le _)
      rw [BitVec.zero_add] at hzero
      exact hzero
  | cur => exact hsum fpos hpos
  | fromEnd => exact hsum fsize (Nat.le_refl _)

/-! ## Files that nobody writes to -/

/-- A descriptor, with its data as a list. -/
def Desc.fileDesc (fd : Desc) : FileDesc where
  name := fd.name
  mode := fd.mode
  data := fd.bytes
  size_lt := by
    rw [Desc.bytes, Ring.length_copyOut]
    exact fd.size.isLt

/-- A pool of files as they are on a disk, in the entries that are in use. -/
structure Shows (d : Disk k) (pool : FilePool) : Prop where
  used : ∀ i, (pool i).used = (d.fpool i).used
  file : ∀ i, (d.fpool i).used = true → ∃ f, (d.fpool i).fd = some f ∧ (pool i).fd = (d.descs f).fileDesc ∧
    (pool i).mode = (d.fpool i).mode ∧ (pool i).position = (d.fpool i).position.toNat

section Shows

variable {d : Disk k} {pool : FilePool} (hshows : Shows d pool) {i : Fin 32}

include hshows

/-- An entry changes on both sides. -/
theorem Shows.update {e : Entry k} {file : File} (hused : file.used = e.used)
    (hfile : e.used = true → ∃ f, e.fd = some f ∧ file.fd = (d.descs f).fileDesc ∧ file.mode = e.mode ∧
      file.position = e.position.toNat) : Shows (d.setEntry i e) (Function.update pool i file) := by
  constructor
  · intro j
    show (Function.update pool i file j).used = (Function.update d.fpool i e j).used
    by_cases hj : j = i
    · rw [hj, Function.update_self, Function.update_self, hused]
    · rw [Function.update_of_ne hj, Function.update_of_ne hj, hshows.used]
  · intro j
    show (Function.update d.fpool i e j).used = true → ∃ f, (Function.update d.fpool i e j).fd = some f ∧
      (Function.update pool i file j).fd = _ ∧ (Function.update pool i file j).mode = (Function.update d.fpool i e j).mode ∧
        (Function.update pool i file j).position = (Function.update d.fpool i e j).position.toNat
    by_cases hj : j = i
    · rw [hj, Function.update_self, Function.update_self]
      exact hfile
    · rw [Function.update_of_ne hj, Function.update_of_ne hj]
      exact hshows.file j

theorem openFile_shows {files : List (List FileDesc)} (hfiles : files.flatten = (List.finRange k).map fun f => (d.descs f).fileDesc)
    (name : List UInt8) (mode : Mode) (task : Nat) :
    (openFile (some name) mode task d).1 = (Ffs.openFile files name mode task pool).1 ∧
      Shows (openFile (some name) mode task d).2 (Ffs.openFile files name mode task pool).2 := by
  have hfind : Ffs.findFile files name = (d.findFile name).map fun f => (d.descs f).fileDesc := by
    rw [Ffs.findFile, hfiles, List.find?_map]
    rfl
  have hfree : Pool.firstFree File.used pool = Pool.firstFree Entry.used d.fpool := by
    unfold Pool.firstFree
    simp only [hshows.used]
  unfold openFile Ffs.openFile
  dsimp only
  by_cases hmode : mode = 0
  · rw [if_pos hmode, if_pos hmode]
    exact ⟨rfl, hshows⟩
  rw [if_neg hmode, if_neg hmode, hfind, hfree]
  cases d.findFile name with
  | none => exact ⟨rfl, hshows⟩
  | some f =>
      have hdm : (d.descs f).fileDesc.mode = (d.descs f).mode := rfl
      dsimp only [Option.map_some]
      rw [hdm]
      by_cases hallowed : mode &&& ~~~ (d.descs f).mode ≠ 0
      · rw [if_pos hallowed, if_pos hallowed]
        exact ⟨rfl, hshows⟩
      rw [if_neg hallowed, if_neg hallowed]
      cases Pool.firstFree Entry.used d.fpool with
      | none => exact ⟨rfl, hshows⟩
      | some i => exact ⟨rfl, hshows.update rfl fun _ => ⟨f, rfl, rfl, rfl, rfl⟩⟩

theorem read_shows (hused : (d.fpool i).used = true) (n : BitVec 32) :
    ∃ d', read (some i) n d = some ((Ffs.read (some i) n.toNat pool).1, (Ffs.read (some i) n.toNat pool).2.1, d') ∧
      Shows d' (Ffs.read (some i) n.toNat pool).2.2 := by
  obtain ⟨f, hfd, hdesc, hmode, hposition⟩ := hshows.file i hused
  have hsize : (pool i).fd.data.length = (d.descs f).size.toNat := by
    rw [hdesc]
    exact Ring.length_copyOut ..
  have hpos : (d.fpool i).position.toNat ≤ (d.descs f).size.toNat := by
    rw [← hposition, ← hsize]
    exact (pool i).position_le
  by_cases hr : (d.fpool i).mode &&& modeR = 0
  · have hrefused : Ffs.read (some i) n.toNat pool = (Http.efatal, [], pool) := by
      rw [Ffs.read, hmode, if_pos hr]
    rw [hrefused]
    refine ⟨d, ?_, hshows⟩
    unfold read
    dsimp only
    rw [if_pos hr]
  · obtain ⟨position, hnew, hread⟩ := readsFile hfd hpos hr n
    have hchunk : (pool i).chunk n.toNat = ((d.descs f).bytes.drop (d.fpool i).position.toNat).take
        (min n.toNat ((d.descs f).size.toNat - (d.fpool i).position.toNat)) := by
      rw [File.chunk, hposition, List.take_eq_take_min, List.length_drop, hsize, hdesc]
      rfl
    have hlen : ((pool i).chunk n.toNat).length = min n.toNat ((d.descs f).size.toNat - (d.fpool i).position.toNat) := by
      rw [File.chunk, List.length_take, List.length_drop, hsize, hposition]
    have hreads : Ffs.read (some i) n.toNat pool = (Http.asErr ((pool i).chunk n.toNat).length, (pool i).chunk n.toNat,
        Function.update pool i { pool i with
          position := (pool i).position + ((pool i).chunk n.toNat).length, position_le := (pool i).chunk_le n.toNat }) :=
      if_neg (hmode ▸ hr)
    rw [← hchunk, ← hlen] at hread
    rw [hreads]
    refine ⟨_, hread, hshows.update (hshows.used i) fun _ => ⟨f, hfd, hdesc, hmode, ?_⟩⟩
    dsimp only
    rw [hlen, hposition, hnew]

theorem seek_shows (hused : (d.fpool i).used = true) (offset : BitVec 32) (mode : SeekMode) :
    ∃ d', seek (some i) offset mode d = some ((Ffs.seek (some i) offset.toNat mode pool).1, d') ∧
      Shows d' (Ffs.seek (some i) offset.toNat mode pool).2 := by
  obtain ⟨f, hfd, hdesc, hmode, hposition⟩ := hshows.file i hused
  have hsize : (pool i).fd.data.length = (d.descs f).size.toNat := by
    rw [hdesc]
    exact Ring.length_copyOut ..
  have htarget : (pool i).target offset.toNat mode =
      (newPos (d.descs f).size (d.fpool i).position offset mode).toNat := by
    cases mode with
    | set => exact Nat.mod_eq_of_lt offset.isLt
    | cur => rw [File.target, hposition, newPos, BitVec.toNat_add]
    | fromEnd => rw [File.target, hsize, newPos, BitVec.toNat_add]
  rw [seek_eq hfd]
  by_cases hout : newPos (d.descs f).size (d.fpool i).position offset mode > (d.descs f).size
  · have hnone : (pool i).seek offset.toNat mode = none := by
      refine dif_pos ?_
      rw [htarget, hsize]
      exact hout
    rw [if_pos hout, Ffs.seek, hnone]
    exact ⟨d, rfl, hshows⟩
  · have hle : ¬ (pool i).target offset.toNat mode > (pool i).fd.data.length := by
      rw [htarget, hsize]
      exact hout
    have hsome : (pool i).seek offset.toNat mode =
        some { pool i with position := (pool i).target offset.toNat mode, position_le := Nat.le_of_not_lt hle } := dif_neg hle
    rw [if_neg hout, Ffs.seek, hsome]
    exact ⟨_, rfl, hshows.update (hshows.used i) fun _ => ⟨f, hfd, hdesc, hmode, htarget⟩⟩

theorem close_shows :
    (close (some i) d).1 = (Ffs.close (some i) pool).1 ∧ Shows (close (some i) d).2 (Ffs.close (some i) pool).2 := by
  unfold close Ffs.close
  dsimp only
  rw [hshows.used i]
  by_cases hused : (d.fpool i).used = true
  · rw [if_pos hused, if_pos hused]
    exact ⟨rfl, hshows.update rfl fun h => absurd h Bool.false_ne_true⟩
  · rw [if_neg hused, if_neg hused]
    exact ⟨rfl, hshows⟩

end Shows

end YieldStm32.Ffs.Shared
