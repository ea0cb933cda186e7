import Mathlib.Algebra.GroupWithZero.Nat
import Mathlib.Data.List.Count
import Mathlib.Data.List.FinRange
import YieldStm32.Lib.Tiling

/-!
# The flash memory (`flash.c`)

* `FlashSector`, `sectors`, `getSectorIDForAddr` : the memory map;
* `Interface`, `eraseSector` : the interface, with the erase operations it was made to start;
* `eraseSectorsForAddressRange` : the erase of a range, with the other tasks that run at its `Yield()`;
* `eraseFrom_eq` : the loop erases the sectors that cover `size` bytes from the beginning of its first sector on;
* `erasesExactly_iff` : when these are the sectors of the range.
-/

namespace YieldStm32.Flash

open Tiling

/-- `flash_sector_t` -/
structure FlashSector where
  addr : Nat
  size : Nat
deriving DecidableEq

/-- `sectors` -/
def sectors : List FlashSector :=
  -- 4 * 16 kbyte pages
  [⟨0x08000000, 16 * 1024⟩, ⟨0x08004000, 16 * 1024⟩, ⟨0x08008000, 16 * 1024⟩, ⟨0x0800c000, 16 * 1024⟩,
  -- 1 * 64kbyte page
  ⟨0x08010000, 64 * 1024⟩,
  -- 1 * 128kbyte page
  ⟨0x08020000, 128 * 1024⟩]

/-- The index of a sector. -/
abbrev SectorId := Fin sectors.length

abbrev SectorId.addr (id : SectorId) : Nat := (sectors.get id).addr

abbrev SectorId.size (id : SectorId) : Nat := (sectors.get id).size

/-- An address lies in a sector. -/
def SectorId.Has (id : SectorId) (a : Nat) : Prop := id.addr ≤ a ∧ a < id.addr + id.size

instance (id : SectorId) (a : Nat) : Decidable (id.Has a) := inferInstanceAs (Decidable (_ ∧ _))

/-- The codes of `err.h` that are returned here -/
inductive Err where
  | efatal
  | eargval
deriving DecidableEq, Repr

/-- `Flash_GetSectorIDForAddr`, `none` where it returns `EFATAL` -/
def getSectorIDForAddr (addr : Nat) : Option SectorId :=
  sectors.findFinIdx? fun s => decide (s.addr ≤ addr ∧ addr < s.addr + s.size)

/-- The interface: `FLASH_CR_LOCK`, and the sectors of which the erase was started, in order. -/
structure Interface where
  locked : Bool
  erased : List SectorId
deriving DecidableEq

/-- `Flash_Unlock` -/
def Interface.unlock (f : Interface) : Interface := if f.locked = false then f else { f with locked := false }

/-- `Flash_Lock` -/
def Interface.lock (f : Interface) : Interface := { f with locked := true }

/-- `Flash_EraseCore`: a locked interface does not take what is written to `FLASH->CR`. -/
def Interface.eraseCore (f : Interface) (id : SectorId) : Interface :=
  if f.locked then f else { f with erased := f.erased ++ [id] }

/-- `Flash_EraseSector` -/
def eraseSector (sectorId : Int) (f : Interface) : Except Err Unit × Interface :=
  if h : 0 ≤ sectorId ∧ sectorId < sectors.length then
    (.ok (), (f.unlock.eraseCore ⟨sectorId.toNat, by omega⟩).lock)
  else (.error .eargval, f)

theorem SectorId.size_pos (id : SectorId) : 0 < id.size := by
  revert id
  decide

/-- The loop of `Flash_EraseSectorsForAddressRange`, from its `n`-th `Yield()` on: there the other tasks leave the interface
locked or not, as `others n` says. -/
def eraseFrom (others : Nat → Bool) (n p sizeLeft : Nat) (f : Interface) : Except Err Unit × Interface :=
  match getSectorIDForAddr p with
  -- invalid address
  | none => (.error .efatal, f)
  | some id =>
    let f' := (eraseSector id f).2
    if sizeLeft ≤ id.size then (.ok (), f')
    else eraseFrom others (n + 1) ((p + id.size) % 2 ^ 32) (sizeLeft - id.size) { f' with locked := others n }
termination_by sizeLeft
decreasing_by
  have := id.size_pos
  omega

/-- `Flash_EraseSectorsForAddressRange` -/
def eraseSectorsForAddressRange (others : Nat → Bool) (ptr size : BitVec 32) (f : Interface) : Except Err Unit × Interface :=
  eraseFrom others 0 ptr.toNat size.toNat f

/-! ## The memory map -/

/-- The sectors in order -/
abbrev ids : List SectorId := List.finRange sectors.length

/-- The first address behind the flash -/
abbrev flashEnd : Nat := 0x08040000

theorem tiled_ids : Tiled SectorId.addr SectorId.size 0x08000000 ids := by decide

theorem total_ids : 0x08000000 + total SectorId.size ids = flashEnd := by decide

/-- No sector is smaller than one before it. -/
theorem size_mono {b c : SectorId} (h : b ≤ c) : b.size ≤ c.size := by
  revert b c
  decide

theorem end_le_addr {b c : SectorId} (h : b < c) : b.addr + b.size ≤ c.addr := by
  revert b c
  decide

theorem addr_mono {b c : SectorId} (h : b ≤ c) : b.addr ≤ c.addr := by
  rcases h.eq_or_lt with rfl | hlt
  · exact Nat.le_refl _
  · exact Nat.le_trans (Nat.le_add_right ..) (end_le_addr hlt)

theorem end_le_flashEnd (b : SectorId) : b.addr + b.size ≤ flashEnd := by
  rw [← total_ids]
  exact tiled_ids.end_le b (List.mem_finRange b)

theorem add_size_lt {id : SectorId} {a : Nat} (h : id.Has a) : a + id.size < 2 ^ 32 := by
  have hbound : ∀ id : SectorId, id.addr + 2 * id.size < 2 ^ 32 := by decide
  have := hbound id
  have := h.2
  omega

theorem lt_of_addr_lt {b c : SectorId} (h : b.addr < c.addr + c.size) : b ≤ c := by
  by_contra hlt
  have := end_le_addr (not_le.1 hlt)
  omega

theorem has_unique {b c : SectorId} {a : Nat} (hb : b.Has a) (hc : c.Has a) : b = c := by
  apply le_antisymm
  · exact lt_of_addr_lt (Nat.lt_of_le_of_lt hb.1 hc.2)
  · exact lt_of_addr_lt (Nat.lt_of_le_of_lt hc.1 hb.2)

theorem getSectorIDForAddr_eq_some {a : Nat} {id : SectorId} : getSectorIDForAddr a = some id ↔ id.Has a := by
  rw [getSectorIDForAddr, List.findFinIdx?_eq_some_iff]
  constructor
  · rintro ⟨h, -⟩
    exact of_decide_eq_true h
  · intro h
    refine ⟨decide_eq_true h, fun j hj hhas => ?_⟩
    have hj' : SectorId.Has j a := of_decide_eq_true hhas
    exact absurd (has_unique hj' h) (Fin.ne_of_lt hj)

theorem getSectorIDForAddr_eq_none {a : Nat} : getSectorIDForAddr a = none ↔ ∀ id : SectorId, ¬ id.Has a := by
  rw [Option.eq_none_iff_forall_ne_some]
  exact forall_congr' fun id => not_congr getSectorIDForAddr_eq_some

/-! ## The loop -/

@[simp] theorem eraseSector_id (id : SectorId) (f : Interface) :
    eraseSector id f = (.ok (), { locked := true, erased := f.erased ++ [id] }) := by
  have hid : 0 ≤ ((id : Nat) : Int) ∧ ((id : Nat) : Int) < sectors.length := ⟨by omega, by omega⟩
  obtain ⟨locked, erased⟩ := f
  rw [eraseSector, dif_pos hid]
  cases locked <;> simp [Interface.lock, Interface.eraseCore, Interface.unlock]

theorem eraseFrom_of_has (others : Nat → Bool) {p : Nat} {id : SectorId} (h : id.Has p) (n left : Nat) (f : Interface) :
    eraseFrom others n p left f =
      if left ≤ id.size then (.ok (), ⟨true, f.erased ++ [id]⟩)
      else eraseFrom others (n + 1) (p + id.size) (left - id.size) ⟨others n, f.erased ++ [id]⟩ := by
  rw [eraseFrom, getSectorIDForAddr_eq_some.2 h]
  simp only [eraseSector_id]
  rw [Nat.mod_eq_of_lt (add_size_lt h)]

theorem eraseFrom_of_flashEnd_le (others : Nat → Bool) {p : Nat} (h : flashEnd ≤ p) (n left : Nat) (f : Interface) :
    eraseFrom others n p left f = (.error .efatal, f) := by
  have hnone : getSectorIDForAddr p = none := by
    rw [getSectorIDForAddr_eq_none]
    intro id hid
    have := end_le_flashEnd id
    have := hid.2
    omega
  rw [eraseFrom, hnone]

theorem tiled_of_ids_eq {pre post : List SectorId} (hids : ids = pre ++ post) :
    Tiled SectorId.addr SectorId.size (0x08000000 + total SectorId.size pre) post := by
  have htiled := tiled_ids
  rw [hids] at htiled
  exact htiled.drop

/-- From an address in the first of `b :: post` on, the loop erases the sectors that make up `left` bytes, as if it had
started with the first byte of `b`. -/
theorem eraseFrom_cover (others : Nat → Bool) {pre post : List SectorId} {b : SectorId} (hids : ids = pre ++ b :: post)
    {o : Nat} (ho : o < b.size) (left n : Nat) (f : Interface) :
    (eraseFrom others n (b.addr + o) left f).2.erased = f.erased ++ (cover SectorId.size left (b :: post)).1 ∧
      (eraseFrom others n (b.addr + o) left f).1 =
        if (cover SectorId.size left (b :: post)).2 then .ok () else .error .efatal := by
  induction post generalizing pre b left n f with
  | nil =>
      have hhas : b.Has (b.addr + o) := ⟨Nat.le_add_right .., Nat.add_lt_add_left ho _⟩
      have hend : flashEnd = b.addr + b.size := by
        rw [← total_ids, hids, (tiled_of_ids_eq hids).1]
        simp [total, Nat.add_assoc]
      rw [eraseFrom_of_has others hhas, cover]
      split
      · exact ⟨rfl, rfl⟩
      · rw [eraseFrom_of_flashEnd_le others (by omega)]
        exact ⟨rfl, rfl⟩
  | cons c post ih =>
      have hhas : b.Has (b.addr + o) := ⟨Nat.le_add_right .., Nat.add_lt_add_left ho _⟩
      obtain ⟨hb, -, hc, -⟩ := tiled_of_ids_eq hids
      -- the next sector is not smaller, and `p` has the same offset in it
      have hmono : b.size ≤ c.size := size_mono (lt_of_addr_lt (by omega))
      have hp : b.addr + o + b.size = c.addr + o := by omega
      rw [eraseFrom_of_has others hhas, cover, hp]
      split
      · exact ⟨rfl, rfl⟩
      · have hrest : ids = (pre ++ [b]) ++ c :: post := by simpa using hids
        obtain ⟨herased, hret⟩ := ih hrest (Nat.lt_of_lt_of_le ho hmono) (left - b.size) (n + 1)
          ⟨others n, f.erased ++ [b]⟩
        exact ⟨by simpa using herased, hret⟩

/-! ## The range -/

/-- Each byte of the range lies in a sector. -/
def Inside (ptr size : Nat) : Prop := ∀ a, ptr ≤ a → a < ptr + size → ∃ id : SectorId, id.Has a

/-- A byte of the range lies in the sector. -/
def Intersects (ptr size : Nat) (id : SectorId) : Prop := ∃ a, ptr ≤ a ∧ a < ptr + size ∧ id.Has a

/-- No sector ends in the last bytes of the range, as many as there are between the beginning of its first sector and its own
beginning. -/
def EndsTogether (ptr size : Nat) : Prop :=
  ∀ first : SectorId, first.Has ptr →
    ∀ id : SectorId, first.addr + size ≤ id.addr + id.size → ptr + size ≤ id.addr + id.size

/-- Outside the flash there is an error; inside, each sector of the range is erased once, and no other. -/
def ErasesExactly (ptr size : Nat) (f : Interface) (r : Except Err Unit × Interface) : Prop :=
  (Inside ptr size → r.1 = .ok () ∧
    ∃ erased, r.2.erased = f.erased ++ erased ∧ erased.Nodup ∧ ∀ id, id ∈ erased ↔ Intersects ptr size id) ∧
  (¬ Inside ptr size → ∃ e, r.1 = .error e)

instance (ptr size : Nat) : Decidable (EndsTogether ptr size) :=
  inferInstanceAs (Decidable (∀ _ : SectorId, _ → ∀ _ : SectorId, _ → _))

theorem intersects_iff {ptr size : Nat} {id : SectorId} (hsize : 0 < size) :
    Intersects ptr size id ↔ id.addr < ptr + size ∧ ptr < id.addr + id.size := by
  have hpos := id.size_pos
  constructor
  · rintro ⟨a, hge, hlt, hle, hend⟩
    exact ⟨by omega, by omega⟩
  · rintro ⟨hlt, hend⟩
    refine ⟨max ptr id.addr, le_max_left .., by omega, le_max_right .., by omega⟩

theorem exists_has_iff {a : Nat} : (∃ id : SectorId, id.Has a) ↔ 0x08000000 ≤ a ∧ a < flashEnd := by
  constructor
  · rintro ⟨id, hlo, hhi⟩
    have hge := tiled_ids.le_addr id (List.mem_finRange id)
    exact ⟨Nat.le_trans hge hlo, Nat.lt_of_lt_of_le hhi (end_le_flashEnd id)⟩
  · rintro ⟨hlo, hhi⟩
    rw [← total_ids] at hhi
    obtain ⟨id, -, hhas⟩ := tiled_ids.exists_mem hlo hhi
    exact ⟨id, hhas⟩

theorem inside_iff {ptr size : Nat} (hsize : 0 < size) :
    Inside ptr size ↔ 0x08000000 ≤ ptr ∧ ptr + size ≤ flashEnd := by
  simp only [Inside, exists_has_iff]
  constructor
  · intro h
    have hfirst := h ptr (Nat.le_refl _) (by omega)
    have hlast := h (ptr + size - 1) (by omega) (by omega)
    exact ⟨hfirst.1, by omega⟩
  · rintro ⟨hlo, hhi⟩ a hge hlt
    exact ⟨Nat.le_trans hlo hge, Nat.lt_of_lt_of_le hlt hhi⟩

/-- What the call does for an address in a sector. -/
theorem erase_of_has (others : Nat → Bool) {ptr size : BitVec 32} {first : SectorId} (hfirst : first.Has ptr.toNat)
    (hsize : 0 < size.toNat) (f : Interface) :
    ((eraseSectorsForAddressRange others ptr size f).1 =
        if first.addr + size.toNat ≤ flashEnd then .ok () else .error .efatal) ∧
      ∃ erased, (eraseSectorsForAddressRange others ptr size f).2.erased = f.erased ++ erased ∧ erased.Nodup ∧
        ∀ id : SectorId, id ∈ erased ↔ first.addr ≤ id.addr ∧ id.addr < first.addr + size.toNat := by
  obtain ⟨pre, post, hids⟩ : ∃ pre post, ids = pre ++ first :: post := List.append_of_mem (List.mem_finRange first)
  have htiled := tiled_of_ids_eq hids
  obtain ⟨o, ho⟩ := Nat.exists_eq_add_of_le hfirst.1
  have hoffset : o < first.size := by
    have := hfirst.2
    omega
  obtain ⟨herased, hret⟩ := eraseFrom_cover others hids hoffset size.toNat 0 f
  have hend : first.addr + total SectorId.size (first :: post) = flashEnd := by
    rw [← total_ids, hids, total_append, htiled.1, Nat.add_assoc]
  rw [eraseSectorsForAddressRange, ho]
  rw [htiled.cover hsize, ← htiled.1] at herased hret
  dsimp only at herased hret
  refine ⟨?_, _, herased, ?_, fun id => ?_⟩
  · rw [hret, ← hend]
    simp only [decide_eq_true_eq, Nat.add_le_add_iff_left]
  · have hnodup : ids.Nodup := List.nodup_finRange _
    rw [hids] at hnodup
    exact hnodup.of_append_right.filter _
  · rw [List.mem_filter, decide_eq_true_eq]
    refine and_congr_left fun _ => ⟨fun hmem => htiled.1 ▸ htiled.le_addr id hmem, fun hle => ?_⟩
    -- a sector that does not begin before `first` is not one of those before it
    have hmem : id ∈ pre ++ first :: post := hids ▸ List.mem_finRange id
    rcases List.mem_append.1 hmem with hpre | hpost
    · have hpair := tiled_ids.pairwise
      rw [hids, List.pairwise_append] at hpair
      have := hpair.2.2 id hpre first (by simp)
      have := id.size_pos
      omega
    · exact hpost

theorem erase_of_not_has (others : Nat → Bool) {ptr : BitVec 32} (h : ∀ id : SectorId, ¬ id.Has ptr.toNat) (size : BitVec 32)
    (f : Interface) : eraseSectorsForAddressRange others ptr size f = (.error .efatal, f) := by
  rw [eraseSectorsForAddressRange, eraseFrom, getSectorIDForAddr_eq_none.2 h]

theorem EndsTogether.mem_iff {ptr size : Nat} {first : SectorId} (h : EndsTogether ptr size) (hfirst : first.Has ptr)
    (hsize : 0 < size) (id : SectorId) :
    (first.addr ≤ id.addr ∧ id.addr < first.addr + size) ↔ Intersects ptr size id := by
  have hend := hfirst.2
  have hle := hfirst.1
  have hpos := id.size_pos
  rw [intersects_iff hsize]
  constructor
  · rintro ⟨hge, hlt⟩
    have := size_mono (lt_of_addr_lt (b := first) (c := id) (by omega))
    exact ⟨by omega, by omega⟩
  · rintro ⟨hlt, hptr⟩
    have hge := addr_mono (lt_of_addr_lt (Nat.lt_of_le_of_lt hle hptr))
    refine ⟨hge, ?_⟩
    by_contra hout
    -- the sector before `id` would end between `first.addr + size` and `ptr + size`
    obtain ⟨before, -, hbefore⟩ := tiled_ids.prev_end (List.mem_finRange id) (a := 0x08000000) (c := id) (by
      have := tiled_ids.le_addr first (List.mem_finRange first)
      omega)
    have := h first hfirst before (by omega)
    omega

/-- The erase of a range is right when no sector ends in the part of it by which its beginning is off the beginning of a
sector, and only then. -/
theorem erasesExactly_iff (others : Nat → Bool) (ptr size : BitVec 32) (f : Interface) (hsize : 0 < size.toNat) :
    ErasesExactly ptr.toNat size.toNat f (eraseSectorsForAddressRange others ptr size f) ↔
      EndsTogether ptr.toNat size.toNat := by
  by_cases hin : ∃ id : SectorId, id.Has ptr.toNat
  · obtain ⟨first, hfirst⟩ := hin
    obtain ⟨hret, erased, herased, hnodup, hmem⟩ := erase_of_has others hfirst hsize f
    have hlo := (exists_has_iff.1 ⟨first, hfirst⟩).1
    constructor
    · rintro ⟨hinside, houtside⟩ first' hfirst' id hid
      obtain rfl := has_unique hfirst hfirst'
      by_contra hlt
      by_cases hfits : Inside ptr.toNat size.toNat
      · -- the sector behind `id` meets the range and is not erased
        have hbound := ((inside_iff hsize).1 hfits).2
        obtain ⟨next, -, hnext⟩ := tiled_ids.next_addr (List.mem_finRange id) (by rw [total_ids]; omega)
        obtain ⟨erased', herased', -, hmem'⟩ := (hinside hfits).2
        obtain rfl := List.append_cancel_left (herased.symm.trans herased')
        have hmeets : Intersects ptr.toNat size.toNat next := by
          have := next.size_pos
          have := size_mono (lt_of_addr_lt (b := first) (c := next) (by omega))
          have := hfirst.2
          exact (intersects_iff hsize).2 ⟨by omega, by omega⟩
        have := ((hmem next).1 ((hmem' next).2 hmeets)).2
        omega
      · obtain ⟨e, he⟩ := houtside hfits
        rw [hret, if_pos (Nat.le_trans hid (end_le_flashEnd id))] at he
        cases he
    · intro h
      constructor
      · intro hfits
        have hbound := ((inside_iff hsize).1 hfits).2
        have := hfirst.1
        refine ⟨by rw [hret, if_pos (by omega)], erased, herased, hnodup, fun id => ?_⟩
        rw [hmem, h.mem_iff hfirst hsize]
      · intro hfits
        have hover : ¬ first.addr + size.toNat ≤ flashEnd := by
          intro hle
          have hend : SectorId.addr (Fin.last 5) + SectorId.size (Fin.last 5) = flashEnd := rfl
          have := h first hfirst (Fin.last 5) (by rw [hend]; exact hle)
          rw [hend] at this
          exact hfits ((inside_iff hsize).2 ⟨hlo, this⟩)
        exact ⟨.efatal, by rw [hret, if_neg hover]⟩
  · rw [not_exists] at hin
    rw [erase_of_not_has others hin]
    constructor
    · intro _ first hfirst
      exact absurd hfirst (hin first)
    · intro _
      refine ⟨fun hinside => ?_, fun _ => ⟨.efatal, rfl⟩⟩
      obtain ⟨id, hid⟩ := hinside ptr.toNat (Nat.le_refl _) (by omega)
      exact absurd hid (hin id)

/-- Two whole sectors are erased exactly. -/
theorem erasesExactly_two_sectors :
    ErasesExactly 0x08004000 0x8000 ⟨true, []⟩
      (eraseSectorsForAddressRange (fun _ => false) 0x08004000#32 0x8000#32 ⟨true, []⟩) :=
  (erasesExactly_iff (fun _ => false) 0x08004000#32 0x8000#32 ⟨true, []⟩ (by decide)).2 (by decide)

/-- The last byte of the first sector and the first byte of the second one: the second sector is not erased. -/
theorem not_erasesExactly_across :
    ¬ ErasesExactly 0x08003fff 2 ⟨true, []⟩
      (eraseSectorsForAddressRange (fun _ => false) 0x08003fff#32 2#32 ⟨true, []⟩) := by
  have hhas : SectorId.Has ⟨0, by decide⟩ (0x08003fff#32).toNat := by decide
  have herase : eraseSectorsForAddressRange (fun _ => false) 0x08003fff#32 2#32 ⟨true, []⟩ =
      (.ok (), ⟨true, [⟨0, by decide⟩]⟩) := by
    rw [eraseSectorsForAddressRange, eraseFrom_of_has _ hhas, if_pos (by decide)]
    rfl
  rintro ⟨hinside, -⟩
  obtain ⟨-, erased, herased, -, hmem⟩ := hinside ((inside_iff (by decide)).2 (by decide))
  rw [herase, List.nil_append] at herased
  have hnext : Intersects 0x08003fff 2 ⟨1, by decide⟩ := (intersects_iff (by decide)).2 (by decide)
  rw [← hmem, ← herased] at hnext
  exact absurd hnext (by decide)

end YieldStm32.Flash
