import YieldStm32.Lib.Ring

/-!
# Packets from the receive FIFO (`dev/src/usb.c`)

The FIFO is read word by word. A packet goes to the transfer of its endpoint as far as there is room, and the rest of it is
dumped; each of the two is rounded up to whole words.

* `readPacket`, `dumpPacket`, `handleRxlvlIsr` : the functions of the source;
* `packet` : the bytes of the next packet in the FIFO;
* `readPacket_eq`, `dumpPacket_eq`, `receive_eq` : what each of them pops and stores;
* `Drains`, `drains_iff` : what is wanted of a packet, and the lengths and rooms for which it is so.
-/

namespace YieldStm32.Usb

/-- `EBUSY` -/
def ebusy : Int := -2

/-- `usb_ep_t`, of a transfer that receives. -/
structure Ep where
  ptr : Nat
  ec : Int
  size : Nat
  offs : Nat
deriving DecidableEq

/-- The words of the receive FIFO in the order in which they are read, how many were read so far, and memory. -/
structure Rx where
  fifo : Nat → UInt32
  popped : Nat
  mem : Nat → UInt8

namespace Rx

/-- `USBFS_FIFO(0)` -/
def pop (rx : Rx) : UInt32 × Rx := (rx.fifo rx.popped, { rx with popped := rx.popped + 1 })

/-- `*p = temp`, for a byte pointer. -/
def store (rx : Rx) (p : Nat) (temp : UInt32) : Rx := { rx with mem := Function.update rx.mem p temp.toUInt8 }

end Rx

/-- The loop of `USB_DumpPacket`. -/
def dumpLoop (bLeft : Nat) (rx : Rx) : Rx :=
  if bLeft ≠ 0 then dumpLoop (bLeft - 4) rx.pop.2 else rx
termination_by bLeft

/-- `USB_DumpPacket`: `(size + 3) & ~0x3` bytes, in words. -/
def dumpPacket (size : Nat) (rx : Rx) : Rx := dumpLoop ((size + 3) / 4 * 4) rx

/-- The loop of `USB_ReadPacket`: what is left, where it goes, and the state. -/
def readLoop (bLeft p : Nat) (rx : Rx) : Nat × Nat × Rx :=
  if 4 ≤ bLeft then
    let temp := rx.pop.1
    let rx := (rx.pop.2.store p temp).store (p + 1) (temp >>> 8)
    let rx := (rx.store (p + 2) (temp >>> 16)).store (p + 3) (temp >>> 24)
    readLoop (bLeft - 4) (p + 4) rx
  else
    (bLeft, p, rx)
termination_by bLeft

/-- The last bytes of `USB_ReadPacket`: each `case` goes on with the next. -/
def lastBytes : Nat → Nat → UInt32 → Rx → Rx
  | 3, p, temp, rx => lastBytes 2 (p + 1) (temp >>> 8) (rx.store p temp)
  | 2, p, temp, rx => lastBytes 1 (p + 1) (temp >>> 8) (rx.store p temp)
  | 1, p, temp, rx => rx.store p temp
  | _, _, _, rx => rx

/-- `USB_ReadPacket` -/
def readPacket (ptr size : Nat) (rx : Rx) : Nat × Rx :=
  let (bLeft, p, rx) := readLoop size ptr rx
  if bLeft ≠ 0 then (size, lastBytes bLeft p rx.pop.1 rx.pop.2) else (size, rx)

/-- The `case` of `USB_HandleRxlvlIsr` for a packet: `len` bytes for the transfer `out`. -/
def receive (out : Ep) (len : Nat) (rx : Rx) : Ep × Rx :=
  let maxLen := if out.ec = ebusy ∧ out.offs < out.size then out.size - out.offs else 0
  let leftover := if maxLen < len then len - maxLen else 0
  let (read, rx) := readPacket (out.ptr + out.offs) (min maxLen len) rx
  let out := { out with offs := out.offs + read }
  if leftover ≠ 0 then (out, dumpPacket leftover rx) else (out, rx)

/-- `GRXSTSP` : length, endpoint and packet status. -/
def bcnt (stat : UInt32) : Nat := ((stat &&& 0x7ff0) >>> 4).toNat

def epnum (stat : UInt32) : Nat := (stat &&& 0xf).toNat

def pktsts (stat : UInt32) : UInt32 := stat &&& 0x1e0000

/-- `USB_HandleRxlvlIsr`, with the status word popped and the table `ep_out`. -/
def handleRxlvlIsr (stat : UInt32) (epOut : Nat → Ep) (rx : Rx) : (Nat → Ep) × Rx :=
  if pktsts stat = 0xc0000 ∨ pktsts stat = 0x40000 then
    let (out, rx) := receive (epOut (epnum stat)) (bcnt stat) rx
    (Function.update epOut (epnum stat) out, rx)
  else
    (epOut, rx)

/-! ## Words and bytes -/

/-- Byte `i` of a word. -/
def byteOf (temp : UInt32) (i : Nat) : UInt8 := (temp >>> (8 * UInt32.ofNat i)).toUInt8

/-- The `n` bytes in the words of the FIFO from the next one on. -/
def packet (rx : Rx) (n : Nat) : List UInt8 := (List.range n).map fun i => byteOf (rx.fifo (rx.popped + i / 4)) (i % 4)

/-- The state after `k` words were read and the bytes `xs` were stored. -/
def Rx.after (rx : Rx) (k p : Nat) (xs : List UInt8) : Rx :=
  { rx with popped := rx.popped + k, mem := Ring.copyIn rx.mem p xs }

@[simp] theorem length_packet (rx : Rx) (n : Nat) : (packet rx n).length = n := by
  rw [packet, List.length_map, List.length_range]

theorem take_packet (rx : Rx) (k n : Nat) : (packet rx n).take k = packet rx (min k n) := by
  rw [packet, packet, ← List.map_take, List.take_range]

/-- Whole words, then the bytes of the words behind them. -/
theorem packet_add (rx : Rx) (k n p : Nat) (xs : List UInt8) :
    packet rx (4 * k + n) = packet rx (4 * k) ++ packet (rx.after k p xs) n := by
  rw [packet, List.range_add, List.map_append, List.map_map]
  refine congrArg (packet rx (4 * k) ++ ·) (List.map_congr_left fun i _ => ?_)
  have hdiv : rx.popped + (4 * k + i) / 4 = rx.popped + k + i / 4 := by omega
  have hmod : (4 * k + i) % 4 = i % 4 := by omega
  show byteOf (rx.fifo (rx.popped + (4 * k + i) / 4)) ((4 * k + i) % 4) = byteOf (rx.fifo (rx.popped + k + i / 4)) (i % 4)
  rw [hdiv, hmod]

theorem after_after (rx : Rx) (j k p : Nat) (xs ys : List UInt8) :
    (rx.after j p xs).after k (p + xs.length) ys = rx.after (j + k) p (xs ++ ys) := by
  simp only [Rx.after, Ring.copyIn_append, Nat.add_assoc]

theorem after_zero (rx : Rx) (p : Nat) : rx.after 0 p [] = rx := by
  simp only [Rx.after, Ring.copyIn_nil, Nat.add_zero]

/-- Shifted once more. -/
theorem shift_shift (temp : UInt32) : temp >>> 8 >>> 8 = temp >>> 16 := by
  apply UInt32.toNat_inj.1
  simp only [UInt32.toNat_shiftRight, ← Nat.shiftRight_add]
  rfl

/-- One more byte. -/
theorem store_after (rx : Rx) (k : Nat) {p q : Nat} {xs : List UInt8} (temp : UInt32) (hq : q = p + xs.length) :
    (rx.after k p xs).store q temp = rx.after k p (xs ++ [temp.toUInt8]) := by
  have hone := Ring.update_copyIn (Ring.copyIn rx.mem p xs) q temp.toUInt8 []
  rw [Ring.copyIn_nil] at hone
  rw [Rx.store, Rx.after, Rx.after, ← Ring.copyIn_append, ← hq, ← hone]

/-- A word is read, and nothing stored yet. -/
theorem pop_after (rx : Rx) (p : Nat) : rx.pop.2 = rx.after 1 p [] := by
  rw [Rx.after, Ring.copyIn_nil]
  rfl

/-- One word of the loop. -/
theorem store_word (rx : Rx) (p : Nat) :
    let temp := rx.pop.1
    (((rx.pop.2.store p temp).store (p + 1) (temp >>> 8)).store (p + 2) (temp >>> 16)).store (p + 3) (temp >>> 24) =
      rx.after 1 p (packet rx 4) := by
  intro temp
  rw [pop_after rx p, store_after, store_after, store_after, store_after] <;> rfl

/-- The last word. -/
theorem lastBytes_eq (rx : Rx) {r : Nat} (p : Nat) (hr : r < 4) (hpos : r ≠ 0) :
    lastBytes r p rx.pop.1 rx.pop.2 = rx.after 1 p (packet rx r) := by
  rw [pop_after rx p]
  have hcases : r = 1 ∨ r = 2 ∨ r = 3 := by omega
  rcases hcases with rfl | rfl | rfl
  · rw [lastBytes, store_after] <;> rfl
  · rw [lastBytes, lastBytes, store_after, store_after] <;> rfl
  · rw [lastBytes, lastBytes, lastBytes, shift_shift, store_after, store_after, store_after] <;> rfl

/-! ## Packets -/

theorem dumpLoop_eq (k : Nat) (rx : Rx) : dumpLoop (k * 4) rx = { rx with popped := rx.popped + k } := by
  induction k generalizing rx with
  | zero =>
      rw [dumpLoop]
      rfl
  | succ k ih =>
      have hne : (k + 1) * 4 ≠ 0 := by omega
      have hsub : (k + 1) * 4 - 4 = k * 4 := by omega
      rw [dumpLoop, if_pos hne, hsub, ih, Nat.add_comm k 1, ← Nat.add_assoc]
      rfl

/-- Dumped bytes are words, rounded up. -/
theorem dumpPacket_eq (size : Nat) (rx : Rx) : dumpPacket size rx = { rx with popped := rx.popped + (size + 3) / 4 } :=
  dumpLoop_eq ((size + 3) / 4) rx

theorem readLoop_eq (size p : Nat) (rx : Rx) :
    readLoop size p rx = (size % 4, p + 4 * (size / 4), rx.after (size / 4) p (packet rx (4 * (size / 4)))) := by
  fun_induction readLoop size p rx with
  | case1 size p rx h temp rx1 rx2 ih =>
      have hword : rx2 = rx.after 1 p (packet rx 4) := store_word rx p
      have hlen : p + 4 = p + (packet rx 4).length := by rw [length_packet]
      have hdiv : size / 4 = 1 + (size - 4) / 4 := by omega
      have hmod : (size - 4) % 4 = size % 4 := by omega
      have hbytes := packet_add rx 1 (4 * ((size - 4) / 4)) p (packet rx 4)
      rw [ih, hword, hdiv, Nat.mul_add, hbytes, hmod, hlen, after_after,
        length_packet, Nat.mul_one, Nat.add_assoc]
  | case2 size p rx h =>
      have hdiv : size / 4 = 0 := by omega
      have hmod : size % 4 = size := by omega
      rw [hdiv, hmod]
      exact congrArg (fun rx : Rx => (size, p, rx)) (after_zero rx p).symm

/-- A packet is stored byte by byte, and read in words, rounded up. -/
theorem readPacket_eq (ptr size : Nat) (rx : Rx) :
    readPacket ptr size rx = (size, rx.after ((size + 3) / 4) ptr (packet rx size)) := by
  have hsplit := packet_add rx (size / 4) (size % 4) ptr (packet rx (4 * (size / 4)))
  rw [Nat.div_add_mod] at hsplit
  rw [readPacket, readLoop_eq]
  by_cases hlast : size % 4 = 0
  · have hup : (size + 3) / 4 = size / 4 := by omega
    have hall : 4 * (size / 4) = size := by omega
    rw [hup]
    exact (if_neg (not_not.2 hlast)).trans (by rw [hall])
  · have hup : (size + 3) / 4 = size / 4 + 1 := by omega
    have hlen : ptr + 4 * (size / 4) = ptr + (packet rx (4 * (size / 4))).length := by rw [length_packet]
    refine (if_pos hlast).trans ?_
    rw [lastBytes_eq _ _ (Nat.mod_lt _ (by decide)) hlast, hlen, after_after, hup, ← hsplit]

/-- The room of a transfer. -/
def room (out : Ep) : Nat := if out.ec = ebusy ∧ out.offs < out.size then out.size - out.offs else 0

/-- What becomes of a packet: the two parts of it are rounded up to words, each on its own. -/
theorem receive_eq (out : Ep) (len : Nat) (rx : Rx) :
    receive out len rx = ({ out with offs := out.offs + min len (room out) },
      rx.after ((min len (room out) + 3) / 4 + (len - room out + 3) / 4) (out.ptr + out.offs)
        ((packet rx len).take (min len (room out)))) := by
  have hleft : (if room out < len then len - room out else 0) = len - room out := by
    split
    · rfl
    · omega
  have htake : (packet rx len).take (min len (room out)) = packet rx (min (room out) len) := by
    rw [take_packet, Nat.min_comm len, Nat.min_assoc, Nat.min_self]
  have hrun : receive out len rx =
      if len - room out ≠ 0 then
        ({ out with offs := out.offs + min (room out) len }, dumpPacket (len - room out)
          (rx.after ((min (room out) len + 3) / 4) (out.ptr + out.offs) (packet rx (min (room out) len))))
      else
        ({ out with offs := out.offs + min (room out) len },
          rx.after ((min (room out) len + 3) / 4) (out.ptr + out.offs) (packet rx (min (room out) len))) := by
    rw [← hleft]
    unfold receive
    dsimp only
    rw [readPacket_eq]
    rfl
  rw [hrun, htake, Nat.min_comm len]
  split
  · rw [dumpPacket_eq, Rx.after, Rx.after, Nat.add_assoc]
  · rename_i hzero
    have hwords : (len - room out + 3) / 4 = 0 := by omega
    rw [hwords]
    rfl

/-- Two parts rounded up to words make up the whole rounded up, unless both have a rest and the rests fit into one word. -/
theorem words_add_iff (a b : Nat) :
    (a + 3) / 4 + (b + 3) / 4 = (a + b + 3) / 4 ↔ a % 4 = 0 ∨ b % 4 = 0 ∨ 4 < a % 4 + b % 4 := by
  omega

/-- What is wanted of a packet: as many words as it has are popped, what there is room for is stored where the transfer
stands and nowhere else, and the transfer moves on by it, inside its size. -/
structure Drains (stat : UInt32) (epOut : Nat → Ep) (rx : Rx) : Prop where
  popped : (handleRxlvlIsr stat epOut rx).2.popped = rx.popped + (bcnt stat + 3) / 4
  mem : (handleRxlvlIsr stat epOut rx).2.mem =
    Ring.copyIn rx.mem ((epOut (epnum stat)).ptr + (epOut (epnum stat)).offs)
      ((packet rx (bcnt stat)).take (min (bcnt stat) (room (epOut (epnum stat)))))
  ep : (handleRxlvlIsr stat epOut rx).1 = Function.update epOut (epnum stat) { epOut (epnum stat) with
    offs := (epOut (epnum stat)).offs + min (bcnt stat) (room (epOut (epnum stat))) }
  inside : (epOut (epnum stat)).offs ≤ (epOut (epnum stat)).size →
    ((handleRxlvlIsr stat epOut rx).1 (epnum stat)).offs ≤ (epOut (epnum stat)).size

/-- The packet fits, or the room is whole words, or the rest of the packet is, or both rests take more than one word. -/
def Parts (len room : Nat) : Prop := len ≤ room ∨ room % 4 = 0 ∨ (len - room) % 4 = 0 ∨ 4 < room % 4 + (len - room) % 4

/-- The status word says that there is a packet. -/
def IsPacket (stat : UInt32) : Prop := pktsts stat = 0xc0000 ∨ pktsts stat = 0x40000

instance (stat : UInt32) : Decidable (IsPacket stat) := inferInstanceAs (Decidable (_ ∨ _))

section Packet

variable {stat : UInt32} {epOut : Nat → Ep} {rx : Rx}

theorem handleRxlvlIsr_eq (hstat : IsPacket stat) :
    handleRxlvlIsr stat epOut rx =
      (Function.update epOut (epnum stat) (receive (epOut (epnum stat)) (bcnt stat) rx).1,
        (receive (epOut (epnum stat)) (bcnt stat) rx).2) := if_pos hstat

theorem parts_iff (len room : Nat) :
    Parts len room ↔ (min len room + 3) / 4 + (len - room + 3) / 4 = (len + 3) / 4 := by
  have hsum : min len room + (len - room) = len := by omega
  have hwords := words_add_iff (min len room) (len - room)
  rw [hsum] at hwords
  rw [hwords, Parts]
  rcases Nat.le_total len room with hle | hle
  · exact ⟨fun _ => Or.inr (Or.inl (by omega)), fun _ => Or.inl hle⟩
  · rw [Nat.min_eq_right hle]
    omega

theorem parts_of_drains (hstat : IsPacket stat) (h : Drains stat epOut rx) :
    Parts (bcnt stat) (room (epOut (epnum stat))) := by
  have hpopped := h.popped
  rw [handleRxlvlIsr_eq hstat, receive_eq] at hpopped
  exact (parts_iff _ _).2 (Nat.add_left_cancel hpopped)

theorem room_le {out : Ep} (h : out.offs ≤ out.size) : out.offs + room out ≤ out.size := by
  unfold room
  split
  · omega
  · exact h

theorem drains_of_parts (hstat : IsPacket stat) (h : Parts (bcnt stat) (room (epOut (epnum stat)))) :
    Drains stat epOut rx where
  popped := by
    rw [handleRxlvlIsr_eq hstat, receive_eq]
    exact congrArg (rx.popped + ·) ((parts_iff _ _).1 h)
  mem := by
    rw [handleRxlvlIsr_eq hstat, receive_eq]
    rfl
  ep := by rw [handleRxlvlIsr_eq hstat, receive_eq]
  inside := by
    intro hoffs
    rw [handleRxlvlIsr_eq hstat, receive_eq]
    dsimp only
    rw [Function.update_self]
    exact Nat.le_trans (Nat.add_le_add_left (Nat.min_le_right ..) _) (room_le hoffs)

/-- **When a packet is drained exactly**: if and only if its two parts, each rounded up to words, make up its words. -/
theorem drains_iff (hstat : IsPacket stat) : Drains stat epOut rx ↔ Parts (bcnt stat) (room (epOut (epnum stat))) :=
  ⟨parts_of_drains hstat, drains_of_parts hstat⟩

end Packet

/-- Six bytes for a transfer with room for sixty-four. -/
theorem drains_iff_fits : Drains 0x40061 (fun _ => ⟨0x100, ebusy, 64, 0⟩) ⟨fun _ => 0, 0, fun _ => 0⟩ :=
  (drains_iff (by decide)).2 (Or.inl (by decide))

/-- Two bytes for a transfer with room for one: two words are popped, of which the second belongs to the next packet. -/
theorem not_drains_one : ¬ Drains 0x40021 (fun _ => ⟨0x100, ebusy, 1, 0⟩) ⟨fun _ => 0, 0, fun _ => 0⟩ := by
  intro h
  have hparts := parts_of_drains (by decide) h
  unfold Parts at hparts
  revert hparts
  decide

end YieldStm32.Usb
