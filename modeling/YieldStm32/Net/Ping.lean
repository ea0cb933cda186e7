import YieldStm32.Net.Exchange
import YieldStm32.Net.LinkAddress

/-!
# Pings (`TCPIPIcmp_Ping`)

The caller sets `echo_ackno`, sends a request and yields until the task that receives frames has stored the sequence number
of the reply. `TCPIPIcmp_ProcessEchoResponse` takes replies only from the stack's own address.

* `ping` : the call, cut at its yields;
* `receive_echoAckno` : a frame of another host leaves `echo_ackno` alone;
* `ping_eok_iff` : so no reply of another host ends the wait, and the request numbered `0xffff` is answered by itself.
-/

namespace YieldStm32.TCPIP

open Ring DHCPFrame Traced

/-! ## The other tasks -/

/-- A task that has nothing to do with the echo state. -/
structure Unrelated where
  run : Stack → Stack
  addr : ∀ s, (run s).addr = s.addr
  echoAckno : ∀ s, (run s).echoAckno = s.echoAckno

/-- What happens while the caller is at a yield: a frame is received, by whatever descriptor, the time goes on, or another
task runs. -/
inductive Other where
  | received (bytes : List UInt8) (f : Frame)
  | clock (now : BitVec 32)
  | task (t : Unrelated)

def Other.run (rx : Nat) (s : Stack) : Other → Stack
  | .received bytes f => (receive rx bytes f s).val.stack
  | .clock now => { s with now := now }
  | .task t => t.run s

/-- All that happens at one yield. -/
def others (rx : Nat) (es : List Other) (s : Stack) : Stack := es.foldl (Other.run rx) s

/-! ## The call -/

/-- `++echo_seqno`, past zero -/
def nextSeqno (seqno : BitVec 16) : BitVec 16 := if seqno + 1 = 0 then 1 else seqno + 1

/-- The conditions of the loop, by the time and the caller's timeout: `none` to yield once more. -/
def pingCheck (seqno : BitVec 16) (ts timeout : BitVec 32) (s : Stack) : Option Err :=
  if s.echoAckno = seqno then some .eok
  else if timeout ≠ 0 ∧ timeout.toInt ≤ (s.now - ts).toInt then some .eunreachable
  else none

/-- The loop, with what happens at its yields: `none` if it still waits after them. -/
def pingWait (rx : Nat) (seqno : BitVec 16) (ts timeout : BitVec 32) : List (List Other) → Stack → Option Err × Stack
  | turns, s =>
    match pingCheck seqno ts timeout s with
    | some ec => (some ec, { s with echoAckno := 0 })
    | none =>
      match turns with
      | [] => (none, s)
      | turn :: turns => pingWait rx seqno ts timeout turns (others rx turn s)

/-- `TCPIPIcmp_Ping` from where `echo_ackno` is found zero, after a request numbered `seqno`. `alloc` happens while a buffer
is allocated, `sleeps` while the hardware address is looked for. -/
def ping (rx : Nat) (da : Ip) (ts timeout : BitVec 32) (seqno : BitVec 16) (alloc : List Other) (sleeps : Nat → List Other)
    (turns : List (List Other)) (s : Stack) : Option Err × Stack :=
  let s := { s with echoAckno := 0xffff, echoId := 1 }
  let seqno := nextSeqno seqno
  match ipDestination (fun i => others rx (sleeps i)) da (others rx alloc s) with
  | (none, s) => (some .eunkaddr, { s with echoAckno := 0 })
  | (some ethDa, s) =>
    pingWait rx seqno ts timeout turns
      { s with sent := s.sent ++ [.echo ethDa s.addr.ip da icmpEchoRequest 1 seqno []] }

/-! ## Frames of other hosts -/

/-- Address and echo state are the same. -/
def KeepsEcho (s s' : Stack) : Prop := s'.addr = s.addr ∧ s'.echoAckno = s.echoAckno

theorem KeepsEcho.trans {s s' s'' : Stack} (h : KeepsEcho s s') (h' : KeepsEcho s' s'') : KeepsEcho s s'' :=
  ⟨h'.1.trans h.1, h'.2.trans h.2⟩

theorem arpTableGetHWAddr_keepsEcho {pa : Ip} {s s' : Stack} {ha : Mac} (h : arpTableGetHWAddr pa s = some (ha, s')) :
    KeepsEcho s s' := by
  unfold arpTableGetHWAddr at h
  split at h
  · cases h
  · obtain ⟨e, -, he⟩ := Option.map_eq_some_iff.1 h
    obtain ⟨-, rfl⟩ := Prod.mk.inj he
    exact ⟨rfl, rfl⟩

/-- So does a search for a hardware address, if what happens meanwhile does. -/
theorem arpPoll_keepsEcho (run : Nat → Stack → Stack) (ip : Ip) (hrun : ∀ i s, s.addr.ip = ip → KeepsEcho s (run i s))
    (pa : Ip) (n : Nat) {s : Stack} (hs : s.addr.ip = ip) : KeepsEcho s (arpPoll run pa n s).2 := by
  induction n generalizing s with
  | zero => exact ⟨rfl, rfl⟩
  | succ n ih =>
      unfold arpPoll
      split
      · rename_i ha s' hfound
        exact arpTableGetHWAddr_keepsEcho hfound
      · have hturn := hrun n
          { s with sent := s.sent ++ [.arp ethBcast arpOperRequest ethAddress s.addr.ip ethBcast pa] } hs
        have hkeeps : KeepsEcho s (run n _) := ⟨hturn.1, hturn.2⟩
        exact hkeeps.trans (ih (by rw [hkeeps.1]; exact hs))

theorem ipDestination_keepsEcho (run : Nat → Stack → Stack) (ip : Ip)
    (hrun : ∀ i s, s.addr.ip = ip → KeepsEcho s (run i s)) (dst : Ip) {s : Stack} (hs : s.addr.ip = ip) :
    KeepsEcho s (ipDestination run dst s).2 := by
  unfold ipDestination arpObtain
  split
  · exact ⟨rfl, rfl⟩
  · split
    · exact ⟨rfl, rfl⟩
    · generalize (if s.addr.IsWithinSubnet dst then dst else s.addr.gway) = pa
      split
      · exact ⟨rfl, rfl⟩
      · exact arpPoll_keepsEcho run ip hrun pa 5 hs

theorem icmpSendEcho_keepsEcho (da : Ip) (type : UInt8) (id seqno : BitVec 16) (data : List UInt8) (s : Stack) :
    KeepsEcho s (icmpSendEcho da type id seqno data s).2 := by
  have h := ipDestination_keepsEcho (fun _ s => s) s.addr.ip (fun _ _ _ => ⟨rfl, rfl⟩) da (s := s) rfl
  rw [ipDestination_id] at h
  unfold icmpSendEcho
  split
  · rename_i s' hr
    rw [hr] at h
    exact h
  · rename_i ha s' hr
    rw [hr] at h
    exact h

theorem arpInput_keepsEcho (f : Frame) (s : Stack) : KeepsEcho s (arpInput f s).stack := by
  have hupdate (ha : Mac) (pa : Ip) : KeepsEcho s (arpUpdateTable ha pa s) := by
    obtain ⟨t, ht⟩ := arpUpdateTable_eq ha pa s
    rw [ht]
    exact ⟨rfl, rfl⟩
  unfold arpInput arpProcessRequest arpProcessReply
  dsimp only
  split
  · split
    · exact ⟨rfl, rfl⟩
    · split
      · exact ⟨rfl, rfl⟩
      · exact hupdate _ _
  · split
    · split
      · exact ⟨rfl, rfl⟩
      · split
        · exact ⟨rfl, rfl⟩
        · exact hupdate _ _
    · exact ⟨rfl, rfl⟩

/-- A reply counts only if it comes from the own address. -/
theorem icmpInput_keepsEcho {f : Frame} {s : Stack} (hsrc : ipSrcAddr s.mem f.inet ≠ s.addr.ip) :
    KeepsEcho s (icmpInput f s).val.stack := by
  have hno : ¬ (s.addr.IsMatchingUnicast (ipSrcAddr s.mem f.inet) ∧
      s.echoId = icmpEchoID s.mem f.ptr ∧ s.echoAckno ≠ 0) := fun h => hsrc h.1
  simp only [icmpInput, icmpProcessEchoRequest, icmpProcessEchoResponse, range, field, minus, val_bind, val_ite, val_pure]
  split
  · exact ⟨rfl, rfl⟩
  · split
    · exact icmpSendEcho_keepsEcho ..
    · split <;> exact ⟨rfl, rfl⟩

/-- **A frame of another host leaves the echo state alone**, whatever it says. -/
theorem receive_echoAckno (rx : Nat) (bytes : List UInt8) (f : Frame) (s : Stack)
    (h : ethType (copyIn s.mem rx bytes) rx = ethtypeIp → ipSrcAddr (copyIn s.mem rx bytes) (rx + 14) ≠ s.addr.ip) :
    KeepsEcho s (receive rx bytes f s).val.stack := by
  by_cases ht : ethType (copyIn s.mem rx bytes) rx = ethtypeIp
  · rw [receive_val rx bytes f s ht, ipInput_val]
    split
    · unfold transportInput
      dsimp only
      split
      · exact icmpInput_keepsEcho (s := { s with mem := copyIn s.mem rx bytes }) (h ht)
      · split
        · exact ⟨rfl, rfl⟩
        · split
          · exact ⟨rfl, rfl⟩
          · exact ⟨rfl, rfl⟩
    · exact ⟨rfl, rfl⟩
  · simp only [receive, ethInput, field, minus, val_bind, val_ite, val_pure]
    rw [if_neg ht]
    split
    · exact arpInput_keepsEcho _ { s with mem := copyIn s.mem rx bytes }
    · exact ⟨rfl, rfl⟩

/-- No datagram of the own address is received. -/
def Other.Foreign (ip : Ip) : Other → Prop
  | .received bytes _ => ∀ m rx, ethType (copyIn m rx bytes) rx = ethtypeIp → ipSrcAddr (copyIn m rx bytes) (rx + 14) ≠ ip
  | _ => True

theorem run_keepsEcho (rx : Nat) {s : Stack} {e : Other} (h : e.Foreign s.addr.ip) : KeepsEcho s (e.run rx s) := by
  cases e with
  | received bytes f => exact receive_echoAckno rx bytes f s (h s.mem rx)
  | clock now => exact ⟨rfl, rfl⟩
  | task t => exact ⟨t.addr s, t.echoAckno s⟩

theorem others_keepsEcho (rx : Nat) {es : List Other} {s : Stack} (h : ∀ e ∈ es, e.Foreign s.addr.ip) :
    KeepsEcho s (others rx es s) := by
  induction es generalizing s with
  | nil => exact ⟨rfl, rfl⟩
  | cons e es ih =>
      obtain ⟨he, hes⟩ := List.forall_mem_cons.1 h
      have hrun := run_keepsEcho rx he
      exact hrun.trans (ih (by rw [hrun.1]; exact hes))

theorem pingWait_eok_iff {rx : Nat} {seqno : BitVec 16} {ts timeout : BitVec 32} {turns : List (List Other)} {s : Stack}
    (h : ∀ turn ∈ turns, ∀ e ∈ turn, e.Foreign s.addr.ip) :
    (pingWait rx seqno ts timeout turns s).1 = some .eok ↔ s.echoAckno = seqno := by
  induction turns generalizing s with
  | nil =>
      unfold pingWait pingCheck
      by_cases hack : s.echoAckno = seqno
      · simp [hack]
      · rw [if_neg hack, iff_false_right hack]
        split_ifs <;> nofun
  | cons turn turns ih =>
      obtain ⟨hturn, hturns⟩ := List.forall_mem_cons.1 h
      have hkeeps := others_keepsEcho rx hturn
      unfold pingWait pingCheck
      by_cases hack : s.echoAckno = seqno
      · simp [hack]
      · rw [if_neg hack]
        split_ifs
        · exact iff_of_false nofun hack
        · have hrest := ih (s := others rx turn s) (by rw [hkeeps.1]; exact hturns)
          rw [hkeeps.2] at hrest
          exact hrest

/-- **A ping of another host is never answered**, whatever replies are received: it returns `EOK` exactly when the address
is resolved and the number of the request is the mark that the wait starts from. -/
theorem ping_eok_iff (rx : Nat) (da : Ip) (ts timeout : BitVec 32) (seqno : BitVec 16) (alloc : List Other)
    (sleeps : Nat → List Other) (turns : List (List Other)) (s : Stack) (halloc : ∀ e ∈ alloc, e.Foreign s.addr.ip)
    (hsleeps : ∀ i, ∀ e ∈ sleeps i, e.Foreign s.addr.ip) (hturns : ∀ turn ∈ turns, ∀ e ∈ turn, e.Foreign s.addr.ip) :
    (ping rx da ts timeout seqno alloc sleeps turns s).1 = some .eok ↔
      (ipDestination (fun i => others rx (sleeps i)) da
          (others rx alloc { s with echoAckno := 0xffff, echoId := 1 })).1.isSome ∧ seqno = 0xfffe := by
  have hstart := others_keepsEcho rx (s := { s with echoAckno := 0xffff, echoId := 1 }) halloc
  have hdst := ipDestination_keepsEcho (fun i => others rx (sleeps i)) s.addr.ip
    (fun i s' hs' => others_keepsEcho rx (by rw [hs']; exact hsleeps i)) da
    (s := others rx alloc { s with echoAckno := 0xffff, echoId := 1 }) (congrArg IpConfig.ip hstart.1)
  have hseqno : (0xffff : BitVec 16) = nextSeqno seqno ↔ seqno = 0xfffe := by
    unfold nextSeqno
    split <;> bv_omega
  unfold ping
  dsimp only
  generalize ipDestination (fun i => others rx (sleeps i)) da _ = r at hdst
  obtain ⟨ha, s'⟩ := r
  have hkept := hstart.trans hdst
  cases ha with
  | none => simp
  | some ethDa =>
      dsimp only
      rw [pingWait_eok_iff (by intro turn ht e he; exact hkept.1 ▸ hturns turn ht e he), ← hseqno]
      have hack : s'.echoAckno = 0xffff := hkept.2
      rw [hack]
      simp

/-- An echo message of another host. -/
theorem foreign_of_echo (c : IpConfig) (dst : Ip) (ethDa : Mac) (buf : Nat) (m : Mem) (f : Frame) (type : UInt8)
    (id seqno : BitVec 16) (data : List UInt8) (hsize : data.length ≤ 65507) {ip : Ip} (hne : c.ip ≠ ip) (g : Frame) :
    (Other.received (icmpEmitEcho c dst ethDa buf m f type id seqno data).bytes g).Foreign ip := by
  intro m' rx _
  let f' : Frame := { ipAlloc buf f with transport := buf + 34, size := BitVec.ofNat 32 (data.length + 4 + 4) }
  let o := ipSend c dst protocolIcmp ethDa (icmpEchoFields type id seqno data m (buf + 34)) f'
  have hn : o.frame.size.toNat = data.length + 42 := by
    show (BitVec.ofNat 32 (data.length + 4 + 4) + 20 + 14).toNat = _
    bv_omega
  have hcarried : Carried o.mem buf (copyIn m' rx o.bytes) rx o.frame.size.toNat := carried_bytes o m' rx
  have hhdr := (ipSend_header c dst protocolIcmp ethDa (icmpEchoFields type id seqno data m (buf + 34)) f' rfl).carried
    (hcarried.drop (k := 14) (l := 20) (by omega))
  exact fun h => hne (hhdr.src.symm.trans h)

/-- A stack that knows the hardware address of its neighbour. -/
def neighbourKnown : Stack := { idleStack with arpTable := [⟨0x020000000001, 0xc0a83201, 0⟩] }

/-- Its reply to request 8. -/
def neighbourReply : List UInt8 :=
  (icmpEmitEcho { IpConfig.default with ip := 0xc0a83201 } 0xc0a8327c ethAddress 0 (fun _ => 0) zeroFrame icmpEchoReply 1 8
    []).bytes

theorem ping_eok_iff_reply :
    ¬ (ping 4096 0xc0a83201 0 0 7 [] (fun _ => []) [[.received neighbourReply zeroFrame]] neighbourKnown).1 = some .eok := by
  have hforeign : ∀ turn ∈ [[Other.received neighbourReply zeroFrame]], ∀ e ∈ turn, e.Foreign neighbourKnown.addr.ip := by
    intro turn ht e he
    obtain rfl := List.mem_singleton.1 ht
    obtain rfl := List.mem_singleton.1 he
    exact foreign_of_echo _ _ _ _ _ _ _ _ _ [] (by decide) (by decide) _
  rw [ping_eok_iff 4096 0xc0a83201 0 0 7 [] (fun _ => []) [[.received neighbourReply zeroFrame]] neighbourKnown nofun
    (fun _ => nofun) hforeign]
  exact fun h => absurd h.2 (by decide)

end YieldStm32.TCPIP
