import YieldStm32.Lib.Pool
import YieldStm32.Net.Http.Calls

/-!
# The flash file system (`ffs/src/ffs.c`)

* `FileDesc`, `File` : a file, and an entry of the pool of files that are open;
* `openFile`, `read`, `seek`, `size`, `close` : the functions on them;
* `openFile_cases` : what opening a file does;
* `read_opened`, `rewind_opened`, `close_opened` : what is done with one that is open;
* `openCount_open`, `openCount_close` : the number of entries in use.
-/

namespace YieldStm32.Ffs

/-- `ffs_mode_t` -/
abbrev Mode := BitVec 32

def modeR : Mode := 1

/-- `ffs_file_desc_t` -/
structure FileDesc where
  name : List UInt8
  mode : Mode
  data : List UInt8
  size_lt : data.length < 2 ^ 32

/-- `ffs_file_t` -/
@[ext]
structure File where
  used : Bool
  taskId : Nat
  fd : FileDesc
  mode : Mode
  position : Nat
  position_le : position ≤ fd.data.length

/-- `fpool` -/
abbrev FilePool := Fin 32 → File

inductive SeekMode where
  | set | cur | fromEnd
deriving DecidableEq, Repr

/-- The first descriptor of a name. -/
def findFile (files : List (List FileDesc)) (name : List UInt8) : Option FileDesc :=
  files.flatten.find? fun fd => fd.name = name

/-- An entry that has just been set up. -/
def File.opened (task : Nat) (fd : FileDesc) (mode : Mode) : File := ⟨true, task, fd, mode, 0, Nat.zero_le _⟩

/-- `FFS_Open`; `files` are the descriptors, array by array. -/
def openFile (files : List (List FileDesc)) (name : List UInt8) (mode : Mode) (task : Nat) (pool : FilePool) :
    Option (Fin 32) × FilePool :=
  if mode = 0 then (none, pool)
  else match findFile files name with
    | none => (none, pool)
    | some fd =>
        if mode &&& ~~~ fd.mode ≠ 0 then (none, pool)
        else match Pool.firstFree File.used pool with
          | none => (none, pool)
          | some fp => (some fp, Function.update pool fp (.opened task fd mode))

/-- What is left of a file, as much as is asked for. -/
def File.chunk (f : File) (size : Nat) : List UInt8 := (f.fd.data.drop f.position).take size

theorem File.chunk_le (f : File) (size : Nat) : f.position + (f.chunk size).length ≤ f.fd.data.length := by
  have := f.position_le
  rw [chunk, List.length_take, List.length_drop]
  omega

/-- `FFS_Read` -/
def read (fp : Option (Fin 32)) (size : Nat) (pool : FilePool) : Int × List UInt8 × FilePool :=
  match fp with
  | none => (Http.efatal, [], pool)
  | some i =>
      let f := pool i
      if f.mode &&& modeR = 0 then (Http.efatal, [], pool)
      else (Http.asErr (f.chunk size).length, f.chunk size,
        Function.update pool i { f with position := f.position + (f.chunk size).length, position_le := f.chunk_le size })

/-- Where `FFS_Seek` goes to. -/
def File.target (f : File) (offset : Nat) : SeekMode → Nat
  | .set => offset % 2 ^ 32
  | .cur => (f.position + offset) % 2 ^ 32
  | .fromEnd => (f.fd.data.length + offset) % 2 ^ 32

/-- An entry with its position moved there, if that is in the file. -/
def File.seek (f : File) (offset : Nat) (mode : SeekMode) : Option File :=
  if h : f.target offset mode > f.fd.data.length then none
  else some { f with position := f.target offset mode, position_le := Nat.le_of_not_lt h }

/-- `FFS_Seek` -/
def seek (fp : Option (Fin 32)) (offset : Nat) (mode : SeekMode) (pool : FilePool) : Int × FilePool :=
  match fp with
  | none => (Http.efatal, pool)
  | some i =>
      match (pool i).seek offset mode with
      | none => (Http.efatal, pool)
      | some f => (0, Function.update pool i f)

/-- `FFS_Size` -/
def size (fp : Option (Fin 32)) (pool : FilePool) : Option Nat := fp.map fun i => (pool i).fd.data.length

/-- `FFS_Close` -/
def close (fp : Option (Fin 32)) (pool : FilePool) : Int × FilePool :=
  match fp with
  | none => (Http.efatal, pool)
  | some i =>
      if (pool i).used then (0, Function.update pool i { pool i with used := false }) else (Http.efatal, pool)

/-! ## What is open -/

/-- The number of entries in use. -/
def openCount (pool : FilePool) : Nat := Pool.count File.used pool

/-- A file that can be opened for reading, and the entry for it. -/
def Opens (files : List (List FileDesc)) (name : List UInt8) (pool : FilePool) (fd : FileDesc) (i : Fin 32) : Prop :=
  findFile files name = some fd ∧ modeR &&& ~~~ fd.mode = 0 ∧ Pool.firstFree File.used pool = some i

variable {files : List (List FileDesc)} {name : List UInt8} {task : Nat} {pool : FilePool}

/-- A file is opened in the first free entry, or the pool is as it was. -/
theorem openFile_cases : (openFile files name modeR task pool = (none, pool) ∧ ∀ fd i, ¬ Opens files name pool fd i) ∨
    ∃ fd i, Opens files name pool fd i ∧ openFile files name modeR task pool =
      (some i, Function.update pool i (.opened task fd modeR)) := by
  unfold openFile
  rw [if_neg (by decide)]
  cases hfd : findFile files name with
  | none =>
      refine .inl ⟨rfl, fun fd i h => ?_⟩
      rw [Opens, hfd] at h
      cases h.1
  | some fd =>
      dsimp only
      by_cases hmode : modeR &&& ~~~ fd.mode = 0
      · rw [if_neg (not_not.2 hmode)]
        cases hfree : Pool.firstFree File.used pool with
        | none =>
            refine .inl ⟨rfl, fun fd i h => ?_⟩
            rw [Opens, hfree] at h
            cases h.2.2
        | some i => exact .inr ⟨fd, i, ⟨hfd, hmode, hfree⟩, rfl⟩
      · rw [if_pos hmode]
        refine .inl ⟨rfl, fun fd' i h => ?_⟩
        obtain ⟨hfd', hmode', -⟩ := h
        obtain rfl := Option.some.inj (hfd.symm.trans hfd')
        exact hmode hmode'

/-! ## A file that is open -/

section Opened

variable {i : Fin 32} {f : File}

theorem read_opened (hmode : f.mode &&& modeR ≠ 0) (size : Nat) : read (some i) size (Function.update pool i f) =
    (Http.asErr (f.chunk size).length, f.chunk size, Function.update pool i
      { f with position := f.position + (f.chunk size).length, position_le := f.chunk_le size }) := by
  unfold read
  dsimp only
  rw [Function.update_self, if_neg hmode, Function.update_idem]

theorem File.seek_start (f : File) : f.seek 0 .set = some { f with position := 0, position_le := Nat.zero_le _ } :=
  dif_neg (Nat.not_lt_zero _)

theorem rewind_opened : seek (some i) 0 .set (Function.update pool i f) =
    (0, Function.update pool i { f with position := 0, position_le := Nat.zero_le _ }) := by
  unfold seek
  dsimp only
  rw [Function.update_self, File.seek_start]
  dsimp only
  rw [Function.update_idem]

theorem close_opened (hused : f.used = true) :
    close (some i) (Function.update pool i f) = (0, Function.update pool i { f with used := false }) := by
  unfold close
  dsimp only
  rw [Function.update_self, if_pos hused, Function.update_idem]

theorem openCount_open (hfree : Pool.firstFree File.used pool = some i) (hused : f.used = true) :
    openCount (Function.update pool i f) = openCount pool + 1 :=
  Pool.count_take (Pool.firstFree_spec hfree) hused

theorem openCount_close (hfree : Pool.firstFree File.used pool = some i) (hused : f.used = false) :
    openCount (Function.update pool i f) = openCount pool :=
  Pool.count_same (hused.trans (Pool.firstFree_spec hfree).symm)

end Opened

end YieldStm32.Ffs
