import YieldStm32.Net.Bounds

/-!
# The reused descriptor

* `Same` : two calls return the same value and leave the same stack;
* `ReachesIcmp` : the frame comes to `TCPIPIcmp_Input` with two bytes of payload or more;
* `independent_iff` : the pointers of earlier frames play no part exactly where no frame does that.
-/

namespace YieldStm32.TCPIP

open Traced

/-- The same value returned, and the same sockets, ARP table, echo state and frames queued for sending. -/
def Same (r r' : Result) : Prop := r.rc = r'.rc ∧ r.stack = r'.stack

/-- The frame at `rx` is handed to `TCPIPIcmp_Input`, with at least two bytes for the checksum. -/
def ReachesIcmp (c : IpConfig) (m : Mem) (rx : Nat) : Prop :=
  ethType m rx = ethtypeIp ∧ c.Accepts m (rx + 14) ∧ ipProtocol m (rx + 14) = protocolIcmp ∧
    2 ≤ (ipPldLen m (rx + 14)).toNat

/-! ## Frames that do not -/

/-- Fewer than two bytes have no valid checksum. -/
theorem checksum_short {bs : List UInt8} (h : bs.length < 2) : ~~~ checksum 0 bs ≠ 0 := by
  have hbyte : ∀ b : BitVec 8, ~~~ sumWord 0 (b ++ 0#8) ≠ 0 := by decide
  cases bs with
  | nil => decide
  | cons b bs =>
      cases bs with
      | nil => exact hbyte b.toBitVec
      | cons b' bs => exact absurd h (by simp)

theorem icmpInput_short {f : Frame} {s : Stack} (h : f.size.toNat < 2) :
    (icmpInput f s).val = ⟨.efatal, { f with transport := f.ptr }, s⟩ := by
  have hsum : ~~~ checksum 0 (Ring.copyOut s.mem f.transport f.size.toNat) ≠ 0 := by
    apply checksum_short
    rwa [Ring.copyOut, List.length_map, List.length_range]
  simp only [icmpInput, range, val_bind, val_ite]
  exact if_pos hsum

/-- The layers set their own pointers, but for ICMP. -/
theorem transportInput_same {f : Frame} {s : Stack} (t : Nat)
    (h : ¬ (ipProtocol s.mem f.inet = protocolIcmp ∧ 2 ≤ f.size.toNat)) :
    Same (transportInput { f with transport := t } s) (transportInput f s) := by
  unfold transportInput
  by_cases hp : ipProtocol s.mem f.inet = protocolIcmp
  · have hshort : f.size.toNat < 2 := Nat.lt_of_not_le fun hle => h ⟨hp, hle⟩
    simp only [hp, if_true, icmpInput_short hshort, @icmpInput_short { f with transport := t } s hshort]
    exact ⟨rfl, rfl⟩
  · simp only [hp, if_false]
    split
    · exact ⟨rfl, rfl⟩
    · split <;> exact ⟨rfl, rfl⟩

theorem arpInput_same (f : Frame) (s : Stack) (i t : Nat) :
    Same (arpInput { f with inet := i, transport := t } s) (arpInput f s) := by
  unfold arpInput arpProcessRequest arpProcessReply
  dsimp only
  split
  · split
    · exact ⟨rfl, rfl⟩
    · split <;> exact ⟨rfl, rfl⟩
  · split
    · split
      · exact ⟨rfl, rfl⟩
      · split <;> exact ⟨rfl, rfl⟩
    · exact ⟨rfl, rfl⟩

theorem ipInput_same {f : Frame} {s : Stack} (i t : Nat)
    (h : ¬ (s.addr.Accepts s.mem f.ptr ∧ ipProtocol s.mem f.ptr = protocolIcmp ∧ 2 ≤ (ipPldLen s.mem f.ptr).toNat)) :
    Same (ipInput { f with inet := i, transport := t } s).val (ipInput f s).val := by
  rw [ipInput_val, ipInput_val]
  by_cases hacc : s.addr.Accepts s.mem f.ptr
  · rw [if_pos hacc, if_pos hacc]
    exact @transportInput_same (ipFrame s.mem f) s t fun hp => h ⟨hacc, hp⟩
  · rw [if_neg hacc, if_neg hacc]
    exact ⟨rfl, rfl⟩

/-- A frame that does not come to the ICMP layer with two bytes is handled alike with any two descriptors. -/
theorem receive_same {rx : Nat} {bytes : List UInt8} {s : Stack} (f f' : Frame)
    (h : ¬ ReachesIcmp s.addr (Ring.copyIn s.mem rx bytes) rx) : Same (receive rx bytes f s).val (receive rx bytes f' s).val := by
  simp only [receive, ethInput, field, minus, val_bind, val_ite, val_pure]
  split
  · rename_i ht
    exact @ipInput_same ⟨rx + 14, BitVec.ofNat 32 bytes.length - 14, rx, f'.inet, f'.transport⟩ _ f.inet f.transport
      fun hp => h ⟨ht, hp⟩
  · split
    · exact arpInput_same ⟨rx + 14, BitVec.ofNat 32 bytes.length - 14, rx, f'.inet, f'.transport⟩ _ f.inet f.transport
    · exact ⟨rfl, rfl⟩

/-! ## Frames that do -/

section Congr

variable {m m' : Mem} {b : Nat}

/-- Two memories that agree below `b` have the same fields there. -/
theorem be16_congr (h : ∀ i < b, m' i = m i) {p : Nat} (hp : p + 2 ≤ b) : be16 m' p = be16 m p := by
  unfold be16
  rw [h p (by omega), h (p + 1) (by omega)]

theorem be32_congr (h : ∀ i < b, m' i = m i) {p : Nat} (hp : p + 4 ≤ b) : be32 m' p = be32 m p := by
  unfold be32
  rw [be16_congr h (by omega : p + 2 ≤ b), be16_congr h (by omega : p + 2 + 2 ≤ b)]

theorem copyOut_congr (h : ∀ i < b, m' i = m i) {p k : Nat} (hp : p + k ≤ b) :
    Ring.copyOut m' p k = Ring.copyOut m p k := by
  apply List.map_congr_left
  intro i hi
  have := List.mem_range.1 hi
  exact h _ (by omega)

/-- Whether a frame comes to the ICMP layer is decided by its headers. -/
theorem ReachesIcmp.congr {c : IpConfig} {rx : Nat} (h : ∀ i < b, m' i = m i) (hb : rx + 74 ≤ b)
    (hr : ReachesIcmp c m rx) : ReachesIcmp c m' rx ∧ ipPldLen m' (rx + 14) = ipPldLen m (rx + 14) := by
  have hlen := ipHdrLen_le m (rx + 14)
  have hhdr : ipHdrLen m' (rx + 14) = ipHdrLen m (rx + 14) := by
    unfold ipHdrLen
    rw [h (rx + 14) (by omega)]
  have hpld : ipPldLen m' (rx + 14) = ipPldLen m (rx + 14) := by
    unfold ipPldLen ipLength
    rw [hhdr, be16_congr h (by omega)]
  have hflags : ipFlagsFragmentOffset m' (rx + 14) = ipFlagsFragmentOffset m (rx + 14) := be16_congr h (by omega)
  obtain ⟨ht, ⟨hv, hd, hf⟩, hp, h2⟩ := hr
  refine ⟨⟨?_, ⟨?_, ?_, ?_⟩, ?_, ?_⟩, hpld⟩
  · exact (be16_congr h (by omega)).trans ht
  · unfold ipChecksumIsValid at hv ⊢
    rwa [hhdr, copyOut_congr h (by omega)]
  · unfold ipDstAddr at hd ⊢
    rwa [be32_congr h (by omega)]
  · unfold ipFlags ipFragmentOffset at hf ⊢
    rwa [hflags]
  · unfold ipProtocol at hp ⊢
    rwa [h (rx + 14 + 9) (by omega)]
  · rwa [hpld]

end Congr

/-- Zeros add nothing to a sum. -/
theorem checksum_zeros (sum : BitVec 16) (k : Nat) : checksum sum (List.replicate k 0) = sum := by
  have hzero : sumWord sum 0 = sum := by
    simp [sumWord]
  induction k using Nat.twoStepInduction with
  | zero => rfl
  | one => exact hzero
  | more k ih _ =>
      rw [List.replicate_succ, List.replicate_succ, checksum]
      exact (congrArg (fun x => checksum x _) hzero).trans ih

/-- `m` below `b`, two bytes of ones there, and zeros behind. -/
def marked (m : Mem) (b : Nat) : Mem := fun i => if i < b then m i else if i < b + 2 then 0xff else 0

theorem marked_below (m : Mem) (b : Nat) : ∀ i < b, marked m b i = m i := fun _ hi => if_pos hi

theorem copyOut_marked_zeros (m : Mem) (b k : Nat) :
    Ring.copyOut (marked m b) (b + 2) k = List.replicate k 0 := by
  apply List.eq_replicate_iff.2
  refine ⟨by rw [Ring.copyOut, List.length_map, List.length_range], fun x hx => ?_⟩
  obtain ⟨i, -, rfl⟩ := List.mem_map.1 hx
  unfold marked
  rw [if_neg (by omega), if_neg (by omega)]

theorem copyOut_marked (m : Mem) (b k : Nat) :
    Ring.copyOut (marked m b) b (k + 2) = 0xff :: 0xff :: List.replicate k 0 := by
  have hone : ∀ j < 2, marked m b (b + j) = 0xff := by
    intro j hj
    unfold marked
    rw [if_neg (by omega), if_pos (by omega)]
  rw [← copyOut_marked_zeros m b k, Ring.copyOut, List.range_succ_eq_map, List.map_cons, List.map_map,
    List.range_succ_eq_map, List.map_cons, List.map_map, hone 0 (by omega)]
  refine congrArg (0xff :: ·) (congrArg₂ List.cons (hone 1 (by omega)) (List.map_congr_left fun i _ => ?_))
  exact congrArg (marked m b) (by simp only [Nat.succ_eq_add_one]; omega)

/-- A frame received into a marked memory: the bytes received, and the mark behind them. -/
theorem copyIn_marked (m : Mem) {rx b : Nat} {bytes : List UInt8} (hb : rx + bytes.length ≤ b) :
    Ring.copyIn (marked m b) rx bytes = marked (Ring.copyIn m rx bytes) b := by
  funext i
  unfold Ring.copyIn marked
  by_cases hi : i < b
  · rw [if_pos hi, if_pos hi]
  · rw [if_neg hi, if_neg hi, dif_neg (by omega)]

/-- All ones complete the sum, and are neither a request nor a reply. -/
theorem icmpInput_ones {f : Frame} {s : Stack} {m : Mem} {b k : Nat} (hm : s.mem = marked m b) (ht : f.transport = b)
    (hk : f.size.toNat = k + 2) : (icmpInput f s).val.rc = .eok := by
  have hsum : ¬ ~~~ checksum 0 (0xff :: 0xff :: List.replicate k 0) ≠ 0 := by
    rw [checksum, checksum_zeros]
    decide
  have htype : icmpType (marked m b) b = 0xff := by
    unfold icmpType marked
    rw [if_neg (by omega), if_pos (by omega)]
  simp only [icmpInput, range, field, val_bind, val_ite, hm, ht, hk, copyOut_marked, htype]
  rw [if_neg hsum]
  rfl

theorem icmpInput_zeros {f : Frame} {s : Stack} {m : Mem} {b : Nat} (hm : s.mem = marked m b)
    (ht : f.transport = b + 2) : (icmpInput f s).val.rc = .efatal := by
  have hsum : ~~~ checksum 0 (List.replicate f.size.toNat 0) ≠ 0 := by
    rw [checksum_zeros]
    decide
  simp only [icmpInput, range, val_bind, val_ite, hm, ht, copyOut_marked_zeros]
  rw [if_pos hsum]
  rfl

/-- What comes to `TCPIPIcmp_Input` is handled by the pointer of the frame before. -/
theorem receive_icmp {rx : Nat} {bytes : List UInt8} {s : Stack} (f : Frame)
    (h : ReachesIcmp s.addr (Ring.copyIn s.mem rx bytes) rx) :
    (receive rx bytes f s).val =
      (icmpInput (ipFrame (Ring.copyIn s.mem rx bytes)
        ⟨rx + 14, BitVec.ofNat 32 bytes.length - 14, rx, f.inet, f.transport⟩)
        { s with mem := Ring.copyIn s.mem rx bytes }).val := by
  obtain ⟨ht, hacc, hp, -⟩ := h
  rw [receive_val rx bytes f s ht, ipInput_val, if_pos hacc]
  unfold transportInput
  exact if_pos hp

/-- With a mark behind it, the frame is answered according to where the pointer was left. -/
theorem not_same_marked {rx : Nat} {bytes : List UInt8} {s : Stack} {m : Mem} {b : Nat}
    (hm : Ring.copyIn s.mem rx bytes = marked m b) (hr : ReachesIcmp s.addr (Ring.copyIn s.mem rx bytes) rx) (f : Frame) :
    ¬ Same (receive rx bytes { f with transport := b } s).val (receive rx bytes { f with transport := b + 2 } s).val := by
  intro hsame
  obtain ⟨k, hk⟩ := Nat.exists_eq_add_of_le' hr.2.2.2
  have hrc := hsame.1
  rw [receive_icmp _ hr, receive_icmp _ hr, icmpInput_ones hm rfl hk, icmpInput_zeros hm rfl] at hrc
  exact absurd hrc (by decide)

/-- **A frame is handled the same whatever was received before** exactly when, with any memory behind the received bytes,
it is no ICMP datagram that the IP layer accepts with two bytes of payload or more. -/
theorem independent_iff (rx : Nat) (bytes : List UInt8) (s : Stack) :
    (∀ (mem : Mem) (f f' : Frame),
        Same (receive rx bytes f { s with mem := mem }).val (receive rx bytes f' { s with mem := mem }).val) ↔
      ∀ mem : Mem, ¬ ReachesIcmp s.addr (Ring.copyIn mem rx bytes) rx := by
  constructor
  · intro h mem hr
    have hm : Ring.copyIn (marked mem (rx + bytes.length + 74)) rx bytes =
        marked (Ring.copyIn mem rx bytes) (rx + bytes.length + 74) := copyIn_marked mem (by omega)
    have hr' := (hr.congr (marked_below _ (rx + bytes.length + 74)) (by omega)).1
    rw [← hm] at hr'
    exact @not_same_marked rx bytes { s with mem := marked mem (rx + bytes.length + 74) } _ _ hm hr' zeroFrame
      (h _ _ _)
  · intro h mem f f'
    exact @receive_same rx bytes { s with mem := mem } f f' (h mem)

/-- An echo request from 10.0.0.1. -/
def echoRequest : List UInt8 :=
  [0x00, 0x01, 0x02, 0x03, 0x04, 0x64, 0x02, 0x00, 0x00, 0x00, 0x00, 0x01, 0x08, 0x00,
    0x45, 0x00, 0x00, 0x1c, 0x00, 0x00, 0x00, 0x00, 0xff, 0x01, 0xbe, 0xbb, 0x0a, 0x00, 0x00, 0x01, 0xc0, 0xa8, 0x32, 0x7c,
    0x08, 0x00, 0xf7, 0xfd, 0x00, 0x01, 0x00, 0x01]

/-- It is dropped when it is the first frame received, and looked at when a frame with a header of the same length came
before. -/
theorem not_independent_first :
    ¬ ∀ (rx : Nat) (bytes : List UInt8) (f f' : Frame) (s : Stack),
      Same (receive rx bytes f s).val (receive rx bytes f' s).val := by
  intro h
  have hsame := h 0x20000000 echoRequest zeroFrame { zeroFrame with transport := 0x20000000 + 34 } idleStack
  exact absurd hsame.1 (by decide)

end YieldStm32.TCPIP
