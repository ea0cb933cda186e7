import YieldStm32.Net.Bounds
import YieldStm32.Net.Corrupted
import YieldStm32.Net.Udp.Boundaries

/-!
# What the receive queue holds

* `Udp.Records xs` : the bytes `xs` are complete records, one after the other;
* `Udp.Slot.ReadsWhole` : a call has room for the whole of the datagram it reads;
* `TCPIP.FrameEvent`, `TCPIP.frameStep` : frames received, and the calls at the sockets;
* `TCPIP.records_of_run` : every state of every run in which no datagram has a length field below 8.
-/

namespace YieldStm32

open Counter Transition

namespace Udp

/-! ## Records -/

/-- Complete records: a size `n`, an address, a port, and `n` bytes of payload. -/
def Records (xs : List UInt8) : Prop :=
  ∃ ds : List Datagram, (∀ d ∈ ds, d.data.length < 2 ^ 32) ∧ xs = ds.flatMap Datagram.encode

/-- A record that is cut off is none. -/
theorem not_records_of_short {n : BitVec 32} {xs : List UInt8} (hpre : Little.bytes 4 n.toNat <+: xs)
    (hlen : xs.length < n.toNat + 10) : ¬ Records xs := by
  rintro ⟨ds, hshort, rfl⟩
  cases ds with
  | nil => exact absurd (List.IsPrefix.length_le hpre) (by simp)
  | cons d ds =>
      rw [List.flatMap_cons, Datagram.encode, List.append_assoc] at hpre
      have hbytes : Little.bytes 4 n.toNat = Little.bytes 4 d.size.toNat := by
        have h := List.prefix_iff_eq_take.1 hpre
        rwa [Little.length_bytes, List.take_left' (Little.length_bytes ..)] at h
      have hsize : n = d.size :=
        (@Little.overlay_bytes 4 0 n).symm.trans ((congrArg _ hbytes).trans (@Little.overlay_bytes 4 0 d.size))
      rw [List.flatMap_cons, List.length_append, length_encode, hsize,
        Datagram.toNat_size (hshort d (List.mem_cons_self ..))] at hlen
      omega

/-! ## Reads of whole datagrams -/

/-- There is room for the datagram whose size comes next in the queue. -/
def Sock.HasRoomForNext (size : BitVec 32) (s : Sock) : Prop :=
  s.rxq.getUsed ≠ 0 → (Little.overlay s.rxSize (s.rxq.get 4).1).toNat ≤ size.toNat

instance (size : BitVec 32) (s : Sock) : Decidable (s.HasRoomForNext size) := inferInstanceAs (Decidable (_ → _))

/-- Every call consumes the whole of the datagram it comes to. -/
def Slot.ReadsWhole (s : Slot) : Event → Prop
  | .recvFrom _ size .. => s.sock.HasRoomForNext size
  | .resume .. => ∀ c, s.call = some c → s.sock.HasRoomForNext c.size
  | _ => True

instance (s : Slot) : ∀ e, Decidable (s.ReadsWhole e)
  | .create .. => isTrue trivial
  | .destroy _ => isTrue trivial
  | .incoming _ => isTrue trivial
  | .recvFrom _ size .. => inferInstanceAs (Decidable (s.sock.HasRoomForNext size))
  | .resume .. =>
    match h : s.call with
    | none => isTrue fun c hc => by rw [h] at hc; cases hc
    | some c =>
      decidable_of_iff (s.sock.HasRoomForNext c.size)
        ⟨fun hr c' hc' => by rw [h] at hc'; cases hc'; exact hr, fun hr => hr c h⟩

/-- A datagram that is stored has a length, and its bytes follow one another in the queue. -/
def Slot.Storable (s : Slot) (d : Datagram) : Prop :=
  s.sock.Stores d → d.data.length + 10 < 2 ^ 32 ∧
    (s.sock.rxq.count ∣ 2 ^ 32 ∨ s.sock.rxq.tail.toNat + s.sock.rxq.getUsed + (10 + d.data.length) < 2 ^ 32)

/-- No call is in the middle of a datagram. -/
structure Slot.Tidy (s : Slot) : Prop where
  inv : s.Inv
  offs : s.sock.rxOffs = s.sock.rxSize
  calls : s.call.isSome → s.log.isSome

/-- Between datagrams, what the queue holds are the records not read yet. -/
theorem Slot.Tidy.queue {s : Slot} {log : Log} (h : s.Tidy) (hlog : s.log = some log) :
    ∃ k, s.sock.rxq.contents = (log.accepted.drop k).flatMap Datagram.encode := by
  have hi := h.inv log hlog
  obtain ⟨k, -, -, hc⟩ | ⟨k, d, hb, hlt⟩ := hi.position
  · exact ⟨k, hc⟩
  · have hsize := hb.size
    rw [← h.offs] at hsize
    exact absurd hsize (Nat.ne_of_lt hlt)

theorem Slot.Tidy.records {s : Slot} (h : s.Tidy) (hlog : s.log.isSome) : Records s.sock.rxq.contents := by
  obtain ⟨log, hlog⟩ := Option.isSome_iff_exists.1 hlog
  obtain ⟨k, hc⟩ := h.queue hlog
  refine ⟨log.accepted.drop k, fun d hd => ?_, hc⟩
  have := (h.inv log hlog).short d (List.mem_of_mem_drop hd)
  omega

/-- A call with room for the next datagram leaves the socket between two datagrams. -/
theorem poll_offs {s : Slot} {c : Call} {p : Queue.Poll} (h : s.Tidy) (hlog : s.log.isSome) (hread : c.read = 0)
    (hroom : s.sock.HasRoomForNext c.size) : (s.poll c p).sock.rxOffs = (s.poll c p).sock.rxSize := by
  obtain ⟨log, hlog⟩ := Option.isSome_iff_exists.1 hlog
  have hi := h.inv log hlog
  obtain ⟨k, hc⟩ := h.queue hlog
  cases hrest : log.accepted.drop k with
  | nil =>
      rw [hrest, List.flatMap_nil] at hc
      obtain ⟨hnone, hsame⟩ := readSize_empty hread hi.size hi.straight hc
      unfold Slot.poll
      simp only [hnone, hsame, if_true]
      split <;> exact h.offs
  | cons d rest =>
      rw [hrest, List.flatMap_cons] at hc
      obtain ⟨hall, q, hmeta, hs, hq, hcont⟩ := readSize_found hread hi.size hi.straight hc
      have hshort := hi.short d (List.mem_of_mem_drop (hrest ▸ List.mem_cons_self ..))
      have hsize : d.size.toNat = d.data.length := Datagram.toNat_size (by omega)
      -- the size that the call has room for is the one of this datagram
      have hused : s.sock.rxq.getUsed ≠ 0 := by
        rw [← Queue.length_contents_of_size hi.size, hc, List.length_append, length_encode]
        omega
      have hle := hroom hused
      rw [(Queue.get_bytes hi.size hi.straight 4).1, hc, Datagram.encode, List.append_assoc,
        List.take_left' (Little.length_bytes ..), @Little.overlay_bytes 4 s.sock.rxSize d.size] at hle
      have hdata : (q.get (min c.size.toNat d.size.toNat)).1.length = d.data.length := by
        rw [(Queue.get_bytes hs hq _).1, hcont, List.length_take, List.length_append]
        omega
      rw [Slot.poll_of_read p hall, hmeta]
      show adv 0 (q.get (min c.size.toNat d.size.toNat)).1.length = d.size
      apply BitVec.eq_of_toNat_eq
      rw [hdata, toNat_adv, hsize]
      exact (congrArg (· % 2 ^ 32) (Nat.zero_add _)).trans (Nat.mod_eq_of_lt (by omega))

theorem poll_log (s : Slot) (c : Call) (p : Queue.Poll) : (s.poll c p).log.isSome = s.log.isSome := by
  unfold Slot.poll
  dsimp only
  split
  · split
    · rfl
    · simp [Slot.finish]
  · rfl

/-- Only a socket in use has a call. -/
theorem step_calls {s s' : Slot} {e : Event} (h : s.call.isSome → s.log.isSome) (hs : s.step e = some s') :
    s'.call.isSome → s'.log.isSome := by
  cases e with
  | create port rxSize mem =>
      simp only [Slot.step] at hs
      split at hs
      case isFalse => cases hs
      split at hs
      case isFalse => cases hs
      obtain rfl := Option.some.inj hs
      exact fun _ => rfl
  | destroy i =>
      simp only [Slot.step] at hs
      split at hs
      case isFalse => cases hs
      obtain rfl := Option.some.inj hs
      exact fun hcall => by cases hcall
  | incoming d =>
      obtain rfl := Option.some.inj hs
      intro hcall
      have hlog := h hcall
      dsimp only
      split
      · rwa [Option.isSome_map]
      · exact hlog
  | recvFrom i size wait p =>
      simp only [Slot.step] at hs
      split at hs
      case isFalse => cases hs
      rename_i hopen
      obtain rfl := Option.some.inj hs
      intro _
      split
      · rw [poll_log]
        exact hopen.1
      · rw [Slot.finish, Option.isSome_map]
        exact hopen.1
  | resume i p =>
      obtain ⟨c, hcall, rfl⟩ := Option.map_eq_some_iff.1 hs
      rw [poll_log]
      exact fun _ => h (by rw [hcall]; rfl)

/-- One event at a socket. -/
theorem step_tidy (s : Slot) (e : Event) (s' : Slot) (h : s.Tidy)
    (hc : s.ReadsWhole e ∧ ∀ d, e = .incoming d → s.Storable d) (hs : s.step e = some s') : s'.Tidy := by
  have hcare : s.Careful e := by
    cases e with
    | create => exact h.offs
    | destroy => trivial
    | incoming d => exact hc.2 d rfl
    | recvFrom => exact fun hne => absurd h.offs hne
    | resume => trivial
  refine ⟨step_inv s e s' h.inv hcare hs, ?_, step_calls h.calls hs⟩
  cases e with
  | create port rxSize mem =>
      simp only [Slot.step] at hs
      split at hs
      case isFalse => cases hs
      split at hs
      case isFalse => cases hs
      obtain rfl := Option.some.inj hs
      exact h.offs
  | destroy i =>
      simp only [Slot.step] at hs
      split at hs
      case isFalse => cases hs
      obtain rfl := Option.some.inj hs
      exact h.offs
  | incoming d =>
      obtain rfl := Option.some.inj hs
      by_cases hst : s.sock.Stores d
      · simp only [processIncoming_of_stores hst]
        exact h.offs
      · simp only [processIncoming_of_not_stores hst]
        exact h.offs
  | recvFrom i size wait p =>
      simp only [Slot.step] at hs
      split at hs
      case isFalse => cases hs
      rename_i hopen
      obtain rfl := Option.some.inj hs
      rw [if_pos h.offs]
      exact poll_offs h hopen.1 rfl hc.1
  | resume i p =>
      obtain ⟨c, hcall, rfl⟩ := Option.map_eq_some_iff.1 hs
      have hlog := h.calls (by rw [hcall]; rfl)
      obtain ⟨log, hl⟩ := Option.isSome_iff_exists.1 hlog
      exact poll_offs h hlog ((h.inv log hl).waiting c hcall).1 (hc.1 c hcall)

/-- A datagram is put at the end of the queue, or not at all. -/
theorem incoming_contents {s : Slot} {d : Datagram} (h : s.Tidy) (hd : s.Storable d) (hlog : s.log.isSome) :
    (processIncoming d s.sock).2.rxq.contents = s.sock.rxq.contents ∨
      (processIncoming d s.sock).2.rxq.contents = s.sock.rxq.contents ++ d.encode := by
  obtain ⟨log, hlog⟩ := Option.isSome_iff_exists.1 hlog
  have hi := h.inv log hlog
  by_cases hst : s.sock.Stores d
  · obtain ⟨hshort, hwrap⟩ := hd hst
    have hfree := hst.2
    rw [bToPut_eq hshort] at hfree
    rw [processIncoming_of_stores hst]
    exact Or.inr (store_appended hi.size hi.straight ⟨hfree, hwrap⟩).contents
  · rw [processIncoming_of_not_stores hst]
    exact Or.inl rfl

/-- A put adds to the end of the queue. -/
theorem put_front {q : Queue UInt8} {xs ys : List UInt8} {n : Nat}
    (h : q.size = 1 ∧ q.count ∣ 2 ^ 32 ∧ ys <+: q.contents) (hn : xs.length = n) :
    (q.put xs n).2.size = 1 ∧ (q.put xs n).2.count ∣ 2 ^ 32 ∧ ys <+: (q.put xs n).2.contents := by
  obtain ⟨hs, hdvd, hpre⟩ := h
  refine ⟨hs, hdvd, hpre.trans ?_⟩
  rw [Queue.contents_put (Or.inl hdvd) (by rw [hs, Nat.mul_one, hn])]
  exact List.prefix_append ..

/-- Into an empty queue with room for it, the size of the datagram goes first. -/
theorem store_front {d : Datagram} {s : Sock} (hs : s.rxq.size = 1) (hdvd : s.rxq.count ∣ 2 ^ 32)
    (hc : s.rxq.contents = []) (hfree : 4 ≤ s.rxq.getFree) :
    Little.bytes 4 d.size.toNat <+: (s.store d).rxq.contents := by
  have hput := @Queue.put_appended _ s.rxq hs (Or.inl hdvd) (Little.bytes 4 d.size.toNat) 4 (Little.length_bytes ..)
    ⟨hfree, Or.inl hdvd⟩
  have hfirst : Little.bytes 4 d.size.toNat <+: (s.rxq.put (Little.bytes 4 d.size.toNat) 4).2.contents := by
    simp only [hput.contents, hc, List.nil_append, List.prefix_refl]
  have haddr := @put_front _ (Little.bytes 4 d.srcIp.toNat) _ _ ⟨hput.size, hput.count ▸ hdvd, hfirst⟩
    (Little.length_bytes ..)
  have hport := @put_front _ (Little.bytes 2 d.srcPort.toNat) _ _ haddr (Little.length_bytes ..)
  exact (@put_front _ d.data _ _ hport rfl).2.2

end Udp

namespace TCPIP

open Udp

/-! ## Frames -/

theorem arpUpdateTable_udp (ha : Mac) (pa : Ip) (s : Stack) : (arpUpdateTable ha pa s).udp = s.udp := by
  unfold arpUpdateTable
  dsimp only
  split <;> rfl

theorem arpInput_udp (f : Frame) (s : Stack) : (arpInput f s).stack.udp = s.udp := by
  unfold arpInput arpProcessRequest arpProcessReply
  dsimp only
  split
  · split
    · rfl
    · split
      · rfl
      · exact arpUpdateTable_udp ..
  · split
    · split
      · rfl
      · split
        · rfl
        · exact arpUpdateTable_udp ..
    · rfl

theorem arpTableGetHWAddr_udp {pa : Ip} {s s' : Stack} {ha : Mac} (h : arpTableGetHWAddr pa s = some (ha, s')) :
    s'.udp = s.udp := by
  unfold arpTableGetHWAddr at h
  split at h
  · cases h
  · obtain ⟨e, -, he⟩ := Option.map_eq_some_iff.1 h
    obtain ⟨-, rfl⟩ := Prod.mk.inj he
    rfl

theorem arpAttempts_udp (pa : Ip) (n : Nat) (s : Stack) : (arpAttempts pa n s).2.udp = s.udp := by
  induction n generalizing s with
  | zero => rfl
  | succ n ih =>
      unfold arpAttempts
      split
      · exact arpTableGetHWAddr_udp ‹_›
      · exact ih _

theorem arpGetHWAddr_udp (pa : Ip) (s : Stack) : (arpGetHWAddr pa s).2.udp = s.udp := by
  unfold arpGetHWAddr
  split
  · rfl
  · exact arpAttempts_udp ..

theorem ipResolve_udp (dst : Ip) (s : Stack) : (ipResolve dst s).2.udp = s.udp := by
  unfold ipResolve
  split
  · rfl
  · split
    · rfl
    · exact arpGetHWAddr_udp ..

theorem icmpSendEcho_udp (da : Ip) (type : UInt8) (id seqno : BitVec 16) (data : List UInt8) (s : Stack) :
    (icmpSendEcho da type id seqno data s).2.udp = s.udp := by
  have hres := ipResolve_udp da s
  unfold icmpSendEcho
  split <;> rename_i h <;> rw [h] at hres <;> exact hres

theorem icmpInput_udp (f : Frame) (s : Stack) : (icmpInput f s).val.stack.udp = s.udp := by
  simp only [icmpInput, icmpProcessEchoRequest, icmpProcessEchoResponse, field, range, minus, Traced.val_bind,
    Traced.val_ite, Traced.val_pure]
  split
  · rfl
  · split
    · exact icmpSendEcho_udp ..
    · split
      · split <;> rfl
      · rfl

theorem transportInput_udp {f : Frame} {s : Stack} (hp : ipProtocol s.mem f.inet ≠ protocolUdp) :
    (transportInput f s).stack.udp = s.udp := by
  unfold transportInput
  dsimp only
  split
  · exact icmpInput_udp ..
  · split
    · rfl
    · rfl

/-- The datagram that a frame hands to `TCPIPUdpSock_Input`. -/
def handedUdp (rx : Nat) (bytes : List UInt8) (env : Stack) : Option Datagram :=
  let m := Ring.copyIn env.mem rx bytes
  if ethType m rx = ethtypeIp ∧ env.addr.Accepts m (rx + 14) ∧ ipProtocol m (rx + 14) = protocolUdp then
    some (handedDatagram m (rx + 14))
  else none

theorem handedUdp_eq {rx : Nat} {bytes : List UInt8} {env : Stack} {d : Datagram} (h : handedUdp rx bytes env = some d) :
    d = handedDatagram (Ring.copyIn env.mem rx bytes) (rx + 14) := by
  unfold handedUdp at h
  dsimp only at h
  split at h
  · exact (Option.some.inj h).symm
  · cases h

/-- A frame changes the UDP sockets by the datagram it hands to them, if it does. -/
theorem receive_udp (rx : Nat) (bytes : List UInt8) (f : Frame) (s : Stack) :
    (receive rx bytes f s).val.stack.udp = (handedUdp rx bytes s).elim s.udp fun d => (Udp.input d s.udp).2 := by
  unfold handedUdp
  dsimp only
  by_cases ht : ethType (Ring.copyIn s.mem rx bytes) rx = ethtypeIp
  case neg =>
    rw [if_neg fun h => ht h.1]
    simp only [receive, ethInput, field, minus, Traced.val_bind, Traced.val_ite, Traced.val_pure, if_neg ht]
    split
    · exact arpInput_udp ..
    · rfl
  rw [receive_val rx bytes f s ht, ipInput_val]
  by_cases hacc : s.addr.Accepts (Ring.copyIn s.mem rx bytes) (rx + 14)
  case neg =>
    have hno : ¬ (ethType (Ring.copyIn s.mem rx bytes) rx = ethtypeIp ∧ s.addr.Accepts (Ring.copyIn s.mem rx bytes) (rx + 14) ∧
        ipProtocol (Ring.copyIn s.mem rx bytes) (rx + 14) = protocolUdp) := fun h => hacc h.2.1
    rw [if_neg hacc, if_neg hno]
    rfl
  rw [if_pos hacc]
  by_cases hp : ipProtocol (Ring.copyIn s.mem rx bytes) (rx + 14) = protocolUdp
  · rw [if_pos ⟨ht, hacc, hp⟩]
    exact ((transportInput_socks ⟨rx + 14, BitVec.ofNat 32 bytes.length - 14, rx, f.inet, f.transport⟩
      { s with mem := Ring.copyIn s.mem rx bytes }).2 hp).2
  · rw [if_neg fun h => hp h.2.2]
    exact @transportInput_udp (ipFrame (Ring.copyIn s.mem rx bytes) _) { s with mem := Ring.copyIn s.mem rx bytes } hp

/-! ## Runs -/

/-- What happens at the UDP sockets. A frame comes with all else that the input path reads at that time. -/
inductive FrameEvent where
  | frame (rx : Nat) (bytes : List UInt8) (env : Stack)
  | create (port : Port) (rxSize : Nat) (mem : Nat → UInt8)
  | destroy (i : Nat)
  | recvFrom (i : Nat) (size : BitVec 32) (wait : Queue.Patience) (p : Queue.Poll)
  | resume (i : Nat) (p : Queue.Poll)

/-- The event at the table of UDP sockets. -/
def FrameEvent.op : FrameEvent → Option Event
  | .frame rx bytes env => (handedUdp rx bytes env).map .incoming
  | .create port rxSize mem => some (.create port rxSize mem)
  | .destroy i => some (.destroy i)
  | .recvFrom i size wait p => some (.recvFrom i size wait p)
  | .resume i p => some (.resume i p)

def frameStep (ss : List Slot) (e : FrameEvent) : Option (List Slot) := e.op.elim (some ss) (Udp.step ss)

theorem frameStep_eq (rx : Nat) (bytes : List UInt8) (env : Stack) (ss : List Slot) :
    frameStep ss (.frame rx bytes env) = (handedUdp rx bytes env).elim (some ss) fun d => Udp.step ss (.incoming d) := by
  show ((handedUdp rx bytes env).map Event.incoming).elim (some ss) (Udp.step ss) = _
  cases handedUdp rx bytes env <;> rfl

/-- A frame does to the sockets of the table what `TCPIPRxTx_RxTask` does, whatever the descriptor was left with. -/
theorem frameStep_frame (rx : Nat) (bytes : List UInt8) (f : Frame) (env : Stack) (ss : List Slot) :
    (frameStep ss (.frame rx bytes env)).map (List.map Slot.sock) =
      some (receive rx bytes f { env with udp := ss.map Slot.sock }).val.stack.udp := by
  have hhand : handedUdp rx bytes { env with udp := ss.map Slot.sock } = handedUdp rx bytes env := rfl
  rw [receive_udp, frameStep_eq, hhand]
  cases handedUdp rx bytes env with
  | none => rfl
  | some d => exact step_incoming d ss

/-- Every call has room for the whole of the datagram it comes to. -/
def ReadsWhole (ss : List Slot) (e : FrameEvent) : Prop := ∀ o ∈ e.op, TableGuard Slot.ReadsWhole target ss o

/-- A datagram that is stored has a length field of 8 or more, and does not take the head of its queue past `2 ^ 32`
where the size of the queue does not divide it. -/
def Proper (ss : List Slot) : FrameEvent → Prop
  | .frame rx bytes env =>
    let m := Ring.copyIn env.mem rx bytes
    let len := (udpLength m (rx + 14 + ipHdrLen m (rx + 14))).toNat
    ∀ d ∈ handedUdp rx bytes env, TableGuard (fun s (_ : Event) => s.sock.Stores d → 8 ≤ len ∧
      (s.sock.rxq.count ∣ 2 ^ 32 ∨ s.sock.rxq.tail.toNat + s.sock.rxq.getUsed + (2 + len) < 2 ^ 32)) target ss (.incoming d)
  | _ => True

/-- A frame leaves every queue as it was, or puts the whole of its datagram at the end. -/
def StoredWhole (ss : List Slot) (e : FrameEvent) (ss' : List Slot) : Prop :=
  ∀ rx bytes env, e = .frame rx bytes env → ∀ (i : Nat) (s s' : Slot), ss[i]? = some s → ss'[i]? = some s' → s.log.isSome →
    s'.sock.rxq.contents = s.sock.rxq.contents ∨
      s'.sock.rxq.contents = s.sock.rxq.contents ++ (handedDatagram (Ring.copyIn env.mem rx bytes) (rx + 14)).encode

/-- The length of what is handed on, by a length field that has room for the header. -/
theorem handedDatagram_length {m : Mem} {ip : Nat} (h : 8 ≤ (udpLength m (ip + ipHdrLen m ip)).toNat) :
    (handedDatagram m ip).data.length + 8 = (udpLength m (ip + ipHdrLen m ip)).toNat := by
  show (Ring.copyOut m _ _).length + 8 = _
  rw [Ring.copyOut, List.length_map, List.length_range]
  have := (udpLength m (ip + ipHdrLen m ip)).isLt
  bv_omega

theorem proper_storable {ss : List Slot} {rx : Nat} {bytes : List UInt8} {env : Stack} {d : Datagram}
    (h : Proper ss (.frame rx bytes env)) (hd : handedUdp rx bytes env = some d) :
    TableGuard (fun s (_ : Event) => s.Storable d) target ss (.incoming d) := by
  intro i s hi hs hst
  obtain ⟨hlen, hwrap⟩ := h d hd i s hi hs hst
  obtain rfl := handedUdp_eq hd
  have hdata := handedDatagram_length hlen
  have hlt := (udpLength (Ring.copyIn env.mem rx bytes) (rx + 14 + ipHdrLen (Ring.copyIn env.mem rx bytes) (rx + 14))).isLt
  refine ⟨by omega, hwrap.imp_right fun h => ?_⟩
  rwa [← hdata, show 2 + ((handedDatagram (Ring.copyIn env.mem rx bytes) (rx + 14)).data.length + 8) =
    10 + (handedDatagram (Ring.copyIn env.mem rx bytes) (rx + 14)).data.length by omega] at h

/-- What one event at the table keeps. -/
theorem frameStep_tidy {ss ss' : List Slot} {e : FrameEvent} (h : ∀ s ∈ ss, s.Tidy) (hw : ReadsWhole ss e)
    (hp : Proper ss e) (hs : frameStep ss e = some ss') : ∀ s ∈ ss', s.Tidy := by
  unfold frameStep at hs
  cases ho : e.op with
  | none =>
      rw [ho] at hs
      obtain rfl := Option.some.inj hs
      exact h
  | some o =>
      rw [ho] at hs
      refine tableStep_keeps step_tidy h (fun i s hi hsi => ⟨hw o ho i s hi hsi, ?_⟩) hs
      rintro d rfl
      cases e with
      | frame rx bytes env =>
          obtain ⟨d', hd, hinc⟩ := Option.map_eq_some_iff.1 ho
          obtain rfl := Event.incoming.inj hinc
          exact proper_storable hp hd i s hi hsi
      | create => cases ho
      | destroy => cases ho
      | recvFrom => cases ho
      | resume => cases ho

theorem frameStep_storedWhole {ss ss' : List Slot} {e : FrameEvent} (h : ∀ s ∈ ss, s.Tidy) (hp : Proper ss e)
    (hs : frameStep ss e = some ss') : StoredWhole ss e ss' := by
  rintro rx bytes env rfl j s s' hsj hsj' hlog
  rw [frameStep_eq] at hs
  cases hd : handedUdp rx bytes env with
  | none =>
      rw [hd] at hs
      obtain rfl := Option.some.inj hs
      rw [Option.some.inj (hsj'.symm.trans hsj)]
      exact Or.inl rfl
  | some d =>
      rw [hd] at hs
      rcases tableStep_at hs hsj hsj' with rfl | ⟨ht, hstep⟩
      · exact Or.inl rfl
      · obtain rfl := Option.some.inj hstep
        rw [← handedUdp_eq hd]
        exact incoming_contents (h s (List.mem_of_getElem? hsj)) (proper_storable hp hd j s ht hsj) hlog

/-- **The receive queues hold complete records**: in every run in which the datagrams that are stored have a length and
calls consume whole datagrams, every datagram is stored completely or not at all, and what is in the queue of a socket in
use is always a list of complete records. -/
theorem records_of_run (socks : List Sock) (es : List FrameEvent) (hzero : ∀ s ∈ socks, s.rxOffs = 0 ∧ s.rxSize = 0)
    (hwhole : Meets frameStep ReadsWhole (socks.map Slot.start) es)
    (hproper : Meets frameStep Proper (socks.map Slot.start) es) :
    Along frameStep (fun ss e ss' => StoredWhole ss e ss' ∧ ∀ s ∈ ss', s.log.isSome → Records s.sock.rxq.contents)
      (socks.map Slot.start) es := by
  have hstart : ∀ s ∈ socks.map Slot.start, s.Tidy := by
    intro s hs
    obtain ⟨t, ht, rfl⟩ := List.mem_map.1 hs
    obtain ⟨hoffs, hsize⟩ := hzero t ht
    exact ⟨fun log hlog => (by cases hlog), hoffs.trans hsize.symm, fun hcall => (by cases hcall)⟩
  refine along_of_meets (I := fun ss => ∀ s ∈ ss, s.Tidy) (fun ss e ss' h hg hs => ?_) hstart (hwhole.and hproper)
  have htidy := frameStep_tidy h hg.1 hg.2 hs
  exact ⟨htidy, frameStep_storedWhole h hg.2 hs, fun s hs => (htidy s hs).records⟩

instance (ss : List Slot) (e : FrameEvent) : Decidable (ReadsWhole ss e) :=
  inferInstanceAs (Decidable (∀ o ∈ e.op, TableGuard Slot.ReadsWhole target ss o))

instance (ss : List Slot) : ∀ e, Decidable (Proper ss e)
  | .frame rx bytes env => inferInstanceAs (Decidable (∀ d ∈ handedUdp rx bytes env, TableGuard _ target ss (.incoming d)))
  | .create .. => isTrue trivial
  | .destroy _ => isTrue trivial
  | .recvFrom .. => isTrue trivial
  | .resume .. => isTrue trivial

/-- A socket with room for 64 bytes is created on port 67, a frame is received, and a call has room for 16 bytes. -/
def oneFrame (bytes : List UInt8) : List FrameEvent :=
  [.create 67 64 fun _ => 0, .frame 0x20000000 bytes idleStack, .recvFrom 0 16 ⟨0, 0⟩ ⟨0, false⟩]

theorem records_of_run_oneByte :
    ((∀ s ∈ [unused], s.rxOffs = 0 ∧ s.rxSize = 0) ∧
        Meets frameStep ReadsWhole ([unused].map Slot.start) (oneFrame oneByteDatagram) ∧
        Meets frameStep Proper ([unused].map Slot.start) (oneFrame oneByteDatagram)) ∧
      Along frameStep (fun ss e ss' => StoredWhole ss e ss' ∧ ∀ s ∈ ss', s.log.isSome → Records s.sock.rxq.contents)
        ([unused].map Slot.start) (oneFrame oneByteDatagram) := by
  have hzero : ∀ s ∈ [unused], s.rxOffs = 0 ∧ s.rxSize = 0 := by decide
  have hwhole : Meets frameStep ReadsWhole ([unused].map Slot.start) (oneFrame oneByteDatagram) := by decide
  have hproper : Meets frameStep Proper ([unused].map Slot.start) (oneFrame oneByteDatagram) := by decide
  exact ⟨⟨hzero, hwhole, hproper⟩, records_of_run [unused] (oneFrame oneByteDatagram) hzero hwhole hproper⟩

/-- A datagram from 10.0.0.1 to port 67 of this host whose length field is 4. -/
def shortDatagram : List UInt8 :=
  [0x00, 0x01, 0x02, 0x03, 0x04, 0x64, 0x02, 0x00, 0x00, 0x00, 0x00, 0x01, 0x08, 0x00,
    0x45, 0x00, 0x00, 0x1d, 0x00, 0x00, 0x00, 0x00, 0xff, 0x11, 0xbe, 0xaa, 0x0a, 0x00, 0x00, 0x01, 0xc0, 0xa8, 0x32, 0x7c,
    0x03, 0xe8, 0x00, 0x43, 0x00, 0x04, 0x00, 0x00, 0x41]

/-- The socket that `oneFrame` creates. -/
def createdSlot : Slot :=
  ⟨unused.create 67 (.create 1 64 (fun _ => 0) Nat.one_pos bound_pos bound_le bound_lt), none, some ⟨[], []⟩⟩

/-- It takes for 2^32 - 4 bytes what is left of the datagram, and fills the queue. -/
theorem frameStep_short : ∃ s, frameStep [createdSlot] (.frame 0x20000000 shortDatagram idleStack) = some [s] ∧
    s.log.isSome ∧ ¬ Records s.sock.rxq.contents := by
  let d := handedDatagram (Ring.copyIn idleStack.mem 0x20000000 shortDatagram) (0x20000000 + 14)
  have hhand : handedUdp 0x20000000 shortDatagram idleStack = some d := by
    unfold handedUdp
    exact if_pos (by decide)
  have hsize : d.size = 0xfffffffc := by
    rw [handedDatagram_size]
    decide
  have hport : createdSlot.sock.Matches d := by
    have hdst : d.dstPort = 67 := by decide
    exact ⟨by decide, hdst.symm⟩
  have hput : d.bToPut = 6 := by
    unfold Datagram.bToPut
    rw [hsize]
    decide
  have hst : createdSlot.sock.Stores d := ⟨hport, by rw [hput]; decide⟩
  refine ⟨⟨createdSlot.sock.store d, none, some ⟨[d], []⟩⟩, ?_, rfl, ?_⟩
  · rw [frameStep_eq, hhand]
    have htarget : target [createdSlot] (.incoming d) = some 0 := by
      show [createdSlot].findIdx? (fun s => decide (s.sock.Matches d)) = some 0
      rw [List.findIdx?_cons, if_pos (decide_eq_true hport)]
    show tableStep Slot.step target [createdSlot] (.incoming d) = _
    unfold tableStep
    rw [htarget]
    show some [(⟨(processIncoming d createdSlot.sock).2, none, if createdSlot.sock.Stores d then _ else _⟩ : Slot)] = _
    rw [processIncoming_of_stores hst, if_pos hst]
    rfl
  · obtain ⟨hq, hnil⟩ := @Queue.create_empty _ 1 64 (fun _ => (0 : UInt8)) (by decide) (by decide) (by decide) (by decide)
    have hpre := @store_front d createdSlot.sock rfl (by decide) hnil (by decide)
    apply not_records_of_short hpre
    have hle := (createdSlot.sock.store d).rxq.getUsed_le
    rw [hsize, Queue.length_contents]
    exact Nat.lt_of_le_of_lt (Nat.mul_le_mul_right 1 hle) (by decide)

/-- A datagram with a length field of 4 leaves the queue with the start of a record. -/
theorem not_records_short :
    ¬ ∀ (socks : List Sock) (es : List FrameEvent), (∀ s ∈ socks, s.rxOffs = 0 ∧ s.rxSize = 0) →
      Meets frameStep ReadsWhole (socks.map Slot.start) es →
        Along frameStep (fun ss e ss' => StoredWhole ss e ss' ∧ ∀ s ∈ ss', s.log.isSome → Records s.sock.rxq.contents)
          (socks.map Slot.start) es := by
  intro h
  have hwhole : Meets frameStep ReadsWhole ([unused].map Slot.start)
      [.create 67 64 fun _ => 0, .frame 0x20000000 shortDatagram idleStack] := by
    refine ⟨by decide, fun ss _ => ⟨fun o ho => ?_, fun _ _ => trivial⟩⟩
    have hop : (handedUdp 0x20000000 shortDatagram idleStack).map Event.incoming = some o := ho
    obtain ⟨d, -, rfl⟩ := Option.map_eq_some_iff.1 hop
    exact fun _ _ _ _ => trivial
  have hcreate : frameStep ([unused].map Slot.start) (.create 67 64 fun _ => 0) = some [createdSlot] := rfl
  obtain ⟨s, hs, hlog, hno⟩ := frameStep_short
  have halong := h [unused] _ (by decide) hwhole
  exact hno (((halong _ hcreate).2 _ hs).1.2 s (List.mem_singleton_self s) hlog)

end TCPIP

end YieldStm32
