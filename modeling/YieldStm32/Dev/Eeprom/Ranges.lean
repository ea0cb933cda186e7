import YieldStm32.Dev.Eeprom.Driver

/-!
# The ranges of the EEPROM (`EEPROM_Write`, `EEPROM_Read`)

A write is cut at the page boundaries; what is beyond the capacity is refused by a sum of 32 bits.

* `writeLoop_page` : a pass of the loop;
* `writeLoop_spec` : what the loop leaves in the chip, for a range that it has;
* `length_stores_write` : for every range that is accepted, as many bytes as were asked for are stored somewhere;
* `coversExactly_iff` : the ranges that are written exactly, or refused, as they should be.
-/

namespace YieldStm32.Eeprom

open SerialEeprom Ring

variable {g : Geometry} {env : Env}

/-- The counter after a page write up to `a`. -/
def counterAfter (g : Geometry) (a : Nat) : Nat := if a % g.pageSize = 0 then a - g.pageSize else a

theorem inPage_eq_counterAfter {a n : Nat} (hn : 0 < n) (hfit : a % g.pageSize + n ≤ g.pageSize) :
    g.inPage a n = counterAfter g (a + n) := by
  have hmod : (a + n) % g.pageSize = (a % g.pageSize + n) % g.pageSize := by rw [Nat.mod_add_mod]
  rw [counterAfter, hmod]
  rcases Nat.eq_or_lt_of_le hfit with heq | hlt
  · rw [Geometry.inPage_eq heq, heq, Nat.mod_self, if_pos rfl]
  · rw [Geometry.inPage_lt hlt, Nat.mod_eq_of_lt hlt, if_neg (by omega)]

/-! ## The loop -/

/-- A pass: the address, and the bytes of a page. -/
theorem writeLoop_page (h : env.Answers) (task : Sem.TaskId) (p8 : Nat → UInt8) {size bWritten : Nat} (hleft : bWritten < size)
    (offset : BitVec 32) {b : Bus} :
    ∃ (c : Chip) (count : Nat), c.phase = .data ∧ c.mem = b.chip.mem ∧ c.stores = b.chip.stores ∧
      (offset.toNat < g.capacity → c.counter = offset.toNat) ∧
      writeLoop g env task p8 size bWritten offset b =
        writeLoop g env task p8 size (bWritten + tSize g offset (size - bWritten))
          (offset + BitVec.ofNat 32 (tSize g offset (size - bWritten)))
          { chip := (c.puts g b.wp (copyOut p8 bWritten (tSize g offset (size - bWritten)))).stop
            wp := b.wp
            sem := 0
            sent := b.sent ++ [(c.counter, tSize g offset (size - bWritten))]
            count := count } := by
  obtain ⟨phase, count, hpoll⟩ := pollBusy_answers (g := g) h (env.attempts b.count) (b.lock task)
  refine ⟨({ b.chip with phase := phase } : Chip).startWrite.puts g b.wp (addrWord offset), count + 1 + 1, rfl, rfl, rfl,
    fun hlt => ?_, ?_⟩
  · rw [puts_addrWord _ _ hlt]
  · rw [writeLoop, if_pos hleft, hpoll]
    dsimp only
    rw [swI2CTransfer_write h rfl]
    dsimp only
    rw [swI2CTransfer_write h rfl]
    simp only [length_copyOut]
    rfl

/-- The bus after the bytes of a page were written from `offset` on. -/
def Bus.wrotePage (g : Geometry) (offset : Nat) (bs : List UInt8) (count : Nat) (b : Bus) : Bus where
  chip :=
    { mem := copyIn b.chip.mem offset bs
      counter := counterAfter g (offset + bs.length)
      phase := .idle
      stores := b.chip.stores ++ bs.zipIdx offset }
  wp := b.wp
  sem := 0
  sent := b.sent ++ [(offset, bs.length)]
  count := count

theorem tSize_fits (g : Geometry) (offset : BitVec 32) (left : Nat) :
    tSize g offset left ≤ left ∧ offset.toNat % g.pageSize + tSize g offset left ≤ g.pageSize := by
  have := Nat.mod_lt offset.toNat g.pageSize_pos
  rw [tSize]
  omega

/-- A pass at an offset that the memory has. -/
theorem writeLoop_pass (h : env.Answers) (task : Sem.TaskId) (p8 : Nat → UInt8) {size bWritten : Nat} (hleft : bWritten < size)
    {offset : BitVec 32} (hoffset : offset.toNat < g.capacity) {b : Bus} (hwp : b.wp = false) :
    ∃ count, writeLoop g env task p8 size bWritten offset b =
      writeLoop g env task p8 size (bWritten + tSize g offset (size - bWritten))
        (offset + BitVec.ofNat 32 (tSize g offset (size - bWritten)))
        (b.wrotePage g offset.toNat (copyOut p8 bWritten (tSize g offset (size - bWritten))) count) := by
  obtain ⟨c, count, hphase, hmem, hstores, hcounter, hloop⟩ := writeLoop_page h task p8 hleft offset (g := g) (b := b)
  have hcounter := hcounter hoffset
  have hpos := tSize_pos g offset (size - bWritten) (by omega)
  have hfit := (tSize_fits g offset (size - bWritten)).2
  have hlen : (copyOut p8 bWritten (tSize g offset (size - bWritten))).length = tSize g offset (size - bWritten) :=
    length_copyOut ..
  have hne : copyOut p8 bWritten (tSize g offset (size - bWritten)) ≠ [] := List.length_pos_iff.1 (by omega)
  refine ⟨count, ?_⟩
  rw [hloop, hwp, Chip.puts_data hphase (by rw [hlen, hcounter]; exact hfit), if_neg hne, hlen, hcounter, hmem, hstores,
    inPage_eq_counterAfter hpos hfit, Bus.wrotePage, hlen, hwp]
  rfl

/-- What the loop leaves of a bus when it writes `bs`, from `offset` on. -/
structure Written (g : Geometry) (offset : Nat) (bs : List UInt8) (b b' : Bus) : Prop where
  mem : b'.chip.mem = copyIn b.chip.mem offset bs
  stores : b'.chip.stores = b.chip.stores ++ bs.zipIdx offset
  counter : b'.chip.counter = if bs = [] then b.chip.counter else counterAfter g (offset + bs.length)
  sent : ∃ sent, b'.sent = b.sent ++ sent ∧ ∀ x ∈ sent, x.1 % g.pageSize + x.2 ≤ g.pageSize
  wp : b'.wp = b.wp
  sem : b.sem = 0 → b'.sem = 0

theorem Written.nil (g : Geometry) (offset : Nat) (b : Bus) : Written g offset [] b b :=
  ⟨(copyIn_nil ..).symm, by simp, rfl, ⟨[], by simp⟩, rfl, id⟩

/-- The bytes of a page, and then the rest. -/
theorem Written.page {offset : Nat} {bs cs : List UInt8} {count : Nat} {b b' : Bus} (hbs : bs ≠ [])
    (hfit : offset % g.pageSize + bs.length ≤ g.pageSize)
    (h : Written g (offset + bs.length) cs (b.wrotePage g offset bs count) b') : Written g offset (bs ++ cs) b b' where
  mem := by rw [h.mem, ← copyIn_append]; rfl
  stores := by
    rw [h.stores, List.zipIdx_append, ← List.append_assoc]
    rfl
  counter := by
    have happend : bs ++ cs ≠ [] := fun heq => hbs (List.append_eq_nil_iff.1 heq).1
    rw [h.counter, List.length_append, ← Nat.add_assoc, if_neg happend]
    by_cases hcs : cs = []
    · rw [if_pos hcs, hcs]
      rfl
    · rw [if_neg hcs]
  sent := by
    obtain ⟨sent, heq, hall⟩ := h.sent
    refine ⟨(offset, bs.length) :: sent, ?_, List.forall_mem_cons.2 ⟨hfit, hall⟩⟩
    rw [heq, Bus.wrotePage, List.append_assoc, List.singleton_append]
  wp := h.wp
  sem := fun _ => h.sem rfl

theorem writeLoop_spec (h : env.Answers) (task : Sem.TaskId) (p8 : Nat → UInt8) {size bWritten : Nat} {offset : BitVec 32}
    {b : Bus} (hwp : b.wp = false) (hrange : offset.toNat + (size - bWritten) < g.capacity) :
    ∃ b', writeLoop g env task p8 size bWritten offset b = (.ok (offset + BitVec.ofNat 32 (size - bWritten)), b') ∧
      Written g offset.toNat (copyOut p8 bWritten (size - bWritten)) b b' := by
  induction hn : size - bWritten using Nat.strong_induction_on generalizing bWritten offset b with
  | _ n ih =>
      by_cases hleft : bWritten < size
      case neg =>
        obtain rfl : n = 0 := by omega
        exact ⟨b, by rw [writeLoop, if_neg hleft]; simp, Written.nil ..⟩
      have hcap := g.le
      obtain ⟨count, hpass⟩ := writeLoop_pass (g := g) h task p8 hleft (Nat.lt_of_le_of_lt (Nat.le_add_right ..) hrange) hwp
      have hpos := tSize_pos g offset n (by omega)
      obtain ⟨hle, hfit⟩ := tSize_fits g offset n
      rw [hn] at hrange hpass
      generalize tSize g offset n = t at *
      have hnext : (offset + BitVec.ofNat 32 t).toNat = offset.toNat + t := by
        rw [BitVec.toNat_add, BitVec.toNat_ofNat, Nat.mod_eq_of_lt (by omega), Nat.mod_eq_of_lt (by omega)]
      have hlen : (copyOut p8 bWritten t).length = t := length_copyOut ..
      obtain ⟨b', heq, hw⟩ := @ih (n - t) (by omega) (bWritten + t) (offset + BitVec.ofNat 32 t)
        (b.wrotePage g offset.toNat (copyOut p8 bWritten t) count) hwp (by rw [hnext]; omega) (by omega)
      refine ⟨b', ?_, ?_⟩
      · rw [hpass, heq, BitVec.add_assoc, ← BitVec.ofNat_add, Nat.add_sub_cancel' hle]
      · rw [← Nat.add_sub_cancel' hle, copyOut_add]
        rw [hnext] at hw
        exact Written.page (List.length_pos_iff.1 (by omega)) (by rw [hlen]; exact hfit) (by rw [hlen]; exact hw)

/-- Whatever the offset, each byte is stored somewhere. -/
theorem length_stores_writeLoop (h : env.Answers) (task : Sem.TaskId) (p8 : Nat → UInt8) {size bWritten : Nat}
    (hle : bWritten ≤ size) (offset : BitVec 32) {b : Bus} (hwp : b.wp = false) :
    ∃ offset' b', writeLoop g env task p8 size bWritten offset b = (.ok offset', b') ∧
      b'.chip.stores.length = b.chip.stores.length + (size - bWritten) := by
  induction hn : size - bWritten using Nat.strong_induction_on generalizing bWritten offset b with
  | _ n ih =>
      by_cases hleft : bWritten < size
      case neg => exact ⟨offset, b, by rw [writeLoop, if_neg hleft], by omega⟩
      obtain ⟨c, count, hphase, -, hstores, -, hloop⟩ := writeLoop_page h task p8 hleft offset (g := g) (b := b)
      have hpos := tSize_pos g offset n (by omega)
      have hfit := (tSize_fits g offset n).1
      rw [hn] at hloop
      generalize tSize g offset n = t at *
      have hstored := Chip.length_stores (g := g) hphase (copyOut p8 bWritten t)
      rw [hwp] at hloop
      obtain ⟨offset', b', heq, hlen⟩ := @ih (n - t) (by omega) (bWritten + t) (by omega) (offset + BitVec.ofNat 32 t)
        { chip := (c.puts g false (copyOut p8 bWritten t)).stop
          wp := false
          sem := 0
          sent := b.sent ++ [(c.counter, t)]
          count := count } rfl (by omega)
      refine ⟨offset', b', hloop.trans heq, ?_⟩
      rw [length_copyOut, hstores] at hstored
      rw [hlen, show ((c.puts g false (copyOut p8 bWritten t)).stop).stores.length = _ from hstored]
      omega

/-! ## The calls -/

/-- The bytes are written, each once and to its address, page by page; then the memory is protected, and the bus free. -/
structure WritesExactly (g : Geometry) (offset size : BitVec 32) (p8 : Nat → UInt8) (d : Dev) (r : Int × Dev) : Prop where
  succeeds : r.1 = size.toNat
  mem : r.2.bus.chip.mem = copyIn d.bus.chip.mem offset.toNat (copyOut p8 0 size.toNat)
  stores : r.2.bus.chip.stores = d.bus.chip.stores ++ (copyOut p8 0 size.toNat).zipIdx offset.toNat
  sent : ∃ sent, r.2.bus.sent = d.bus.sent ++ sent ∧ ∀ x ∈ sent, x.1 % g.pageSize + x.2 ≤ g.pageSize
  wp : r.2.bus.wp = true
  sem : d.bus.sem = 0 → r.2.bus.sem = 0

/-- A range that the memory has is written exactly, and can be read; any other is refused, and nothing is written. -/
def CoversExactly (g : Geometry) (env : Env) (task : Sem.TaskId) (offset size : BitVec 32) (p8 : Nat → UInt8) (d : Dev) : Prop :=
  if offset.toNat + size.toNat ≤ g.capacity then
    WritesExactly g offset size p8 d (write g env task offset size p8 d) ∧ 0 ≤ (read g env offset size d).1
  else
    ((write g env task offset size p8 d).1 < 0 ∧ (write g env task offset size p8 d).2.bus.chip.stores = d.bus.chip.stores) ∧
      (read g env offset size d).1 < 0

section Calls

variable {offset size : BitVec 32} {d : Dev}

theorem toInt_of_lt {x : BitVec 32} (h : x.toNat < 2 ^ 16) : x.toInt = x.toNat := by
  rw [BitVec.toInt_eq_toNat_cond, if_pos (by omega)]

theorem write_of_not_accepts (h : ¬ accepts g offset size) (task : Sem.TaskId) (p8 : Nat → UInt8) :
    write g env task offset size p8 d = (efatal, d) := by
  rw [write, if_pos h]

theorem read_of_not_accepts (h : ¬ accepts g offset size) : read g env offset size d = (efatal, [], d) := by
  rw [read, if_pos h]

/-- A range with an end below the capacity. -/
theorem write_of_lt (h : env.Answers) (task : Sem.TaskId) (p8 : Nat → UInt8) (d : Dev)
    (hrange : offset.toNat + size.toNat < g.capacity) :
    ∃ b', write g env task offset size p8 d =
        (size.toInt, { bus := b'.setWriteProtect true, memAddr := offset + size, memAddrValid := true }) ∧
      Written g offset.toNat (copyOut p8 0 size.toNat) (d.bus.setWriteProtect false) b' := by
  have hcap := g.le
  have hacc : accepts g offset size := by
    rw [accepts, BitVec.toNat_add]
    omega
  obtain ⟨b', heq, hw⟩ := @writeLoop_spec g env h task p8 size.toNat 0 offset (d.bus.setWriteProtect false) rfl hrange
  refine ⟨b', ?_, hw⟩
  rw [write, if_neg (not_not.2 hacc), heq, Nat.sub_zero, BitVec.ofNat_toNat, BitVec.setWidth_eq]

theorem writesExactly_of_lt (h : env.Answers) (task : Sem.TaskId) (p8 : Nat → UInt8) (d : Dev)
    (hrange : offset.toNat + size.toNat < g.capacity) :
    WritesExactly g offset size p8 d (write g env task offset size p8 d) := by
  have hcap := g.le
  obtain ⟨b', heq, hw⟩ := write_of_lt h task p8 d hrange
  rw [heq]
  exact ⟨toInt_of_lt (by omega), hw.mem, hw.stores, hw.sent, rfl, hw.sem⟩

theorem read_of_lt (h : env.Answers) (d : Dev) (hrange : offset.toNat + size.toNat < g.capacity) :
    0 ≤ (read g env offset size d).1 := by
  have hcap := g.le
  have hacc : accepts g offset size := by
    rw [accepts, BitVec.toNat_add]
    omega
  obtain ⟨count, heq⟩ := readTransfers_answers (g := g) h (!d.memAddrValid || d.memAddr != offset) offset size
    (b := d.bus) (by omega) rfl
  rw [read, if_neg (not_not.2 hacc), heq]
  have hint : size.toInt = size.toNat := toInt_of_lt (by omega)
  show 0 ≤ size.toInt
  rw [hint]
  exact Int.natCast_nonneg _

end Calls

/-- **Ranges**: a range is written exactly, or refused, if and only if it does not end with the memory, and does not come to
an end below the capacity by going over 32 bits. -/
theorem coversExactly_iff (h : env.Answers) (task : Sem.TaskId) (offset size : BitVec 32) (p8 : Nat → UInt8) (d : Dev) :
    CoversExactly g env task offset size p8 d ↔
      offset.toNat + size.toNat ≠ g.capacity ∧
        ¬ (2 ^ 32 ≤ offset.toNat + size.toNat ∧ offset.toNat + size.toNat < 2 ^ 32 + g.capacity) := by
  have hcap := g.le
  have hsum : (offset + size).toNat = (offset.toNat + size.toNat) % 2 ^ 32 := BitVec.toNat_add ..
  rw [CoversExactly]
  by_cases hrange : offset.toNat + size.toNat ≤ g.capacity
  · rw [if_pos hrange]
    rcases Nat.lt_or_eq_of_le hrange with hlt | heq
    · exact iff_of_true ⟨writesExactly_of_lt h task p8 d hlt, read_of_lt h d hlt⟩ ⟨by omega, by omega⟩
    · have hacc : ¬ accepts g offset size := by
        rw [accepts, hsum]
        omega
      refine iff_of_false (fun hw => ?_) fun hne => hne.1 heq
      have := hw.1.succeeds
      rw [write_of_not_accepts hacc, efatal] at this
      omega
  · rw [if_neg hrange]
    by_cases hacc : accepts g offset size
    · -- the sum is cut to 32 bits
      have hover : 2 ^ 32 ≤ offset.toNat + size.toNat ∧ offset.toNat + size.toNat < 2 ^ 32 + g.capacity := by
        rw [accepts, hsum] at hacc
        omega
      refine iff_of_false (fun hr => ?_) fun hne => hne.2 hover
      obtain ⟨offset', b', heq, hlen⟩ := length_stores_writeLoop (g := g) h task p8 (Nat.zero_le size.toNat) offset
        (b := d.bus.setWriteProtect false) rfl
      have hstores := hr.1.2
      rw [write, if_neg (not_not.2 hacc), heq] at hstores
      have hsame : b'.chip.stores.length = d.bus.chip.stores.length := congrArg List.length hstores
      have := offset.isLt
      rw [hlen] at hsame
      change d.bus.chip.stores.length + _ = _ at hsame
      omega
    · have hneg : efatal < 0 := by decide
      rw [write_of_not_accepts hacc, read_of_not_accepts hacc]
      refine iff_of_true ⟨⟨hneg, rfl⟩, hneg⟩ ⟨by omega, fun hover => hacc ?_⟩
      rw [accepts, hsum]
      omega

/-- Ten bytes over a page boundary. -/
theorem coversExactly_over_page :
    CoversExactly onBoard answering firstTask 60 10 (fun i => UInt8.ofNat i) blank :=
  (coversExactly_iff answers_answering firstTask 60 10 (fun i => UInt8.ofNat i) blank).2 (by decide)

/-- The last byte of the memory is refused. -/
theorem not_coversExactly_last :
    ¬ CoversExactly onBoard answering firstTask 16383 1 (fun i => UInt8.ofNat i) blank := by
  rw [CoversExactly, if_pos (by decide), write_of_not_accepts (by decide)]
  intro h
  exact absurd h.1.succeeds (by decide)

end YieldStm32.Eeprom
