import YieldStm32.Lib.Little
import YieldStm32.Lib.Run
import YieldStm32.Sys.Queue.Wait

/-!
# UDP sockets (`net/tcpip/src/udp_sock.c`)

A socket keeps the datagrams that came in one byte queue: size, address and port of the sender, then the payload.
`TCPIPUdpSock_RecvFrom` waits for a size only when the datagram before it is used up; the wait is cut at its yields, so a
call is its entry and the polls after it.

* `processIncoming`, `input` : a datagram at one socket, and at the table;
* `Slot` : a socket of the table with the call that waits at it, and what happened to it since it was created;
* `step` : one event at a table of slots.
-/

namespace YieldStm32.Udp

open Counter Transition

/-- `tcpip_udp_port_t` -/
abbrev Port := BitVec 16

/-- `tcpip_ip_addr_t` -/
abbrev Ip := BitVec 32

/-- A datagram with the addresses it comes with. `data` are the `frame->size` bytes from `frame->ptr` on. -/
structure Datagram where
  srcIp : Ip
  srcPort : Port
  dstPort : Port
  data : List UInt8
deriving DecidableEq

/-- `frame->size` -/
def Datagram.size (d : Datagram) : BitVec 32 := BitVec.ofNat 32 d.data.length

/-- `tcpip_udp_sock_t` -/
structure Sock where
  locPort : Port
  rxq : Queue UInt8
  rxOffs : BitVec 32
  rxSize : BitVec 32
  rxIp : Ip
  rxPort : Port

inductive Err where
  | eok
  | efatal
  | eunreachable
deriving DecidableEq, Repr

/-! ## `TCPIPUdpSock_Input` -/

/-- The destination socket: `sock->loc_port && sock->loc_port == dst_port`. -/
def Sock.Matches (d : Datagram) (s : Sock) : Prop := s.locPort ≠ 0 ∧ s.locPort = d.dstPort

instance (d : Datagram) (s : Sock) : Decidable (s.Matches d) := inferInstanceAs (Decidable (_ ∧ _))

/-- `b_to_put`, a `size_t` -/
def Datagram.bToPut (d : Datagram) : Nat := (4 + 4 + 2 + d.size).toNat

/-- The meta-data, then the frame contents. -/
def Sock.store (d : Datagram) (s : Sock) : Sock :=
  let q := (s.rxq.put (Little.bytes 4 d.size.toNat) 4).2
  let q := (q.put (Little.bytes 4 d.srcIp.toNat) 4).2
  let q := (q.put (Little.bytes 2 d.srcPort.toNat) 2).2
  { s with rxq := (q.put d.data d.data.length).2 }

/-- `TCPIPUdpSock_ProcessIncoming` -/
def processIncoming (d : Datagram) (s : Sock) : Err × Sock :=
  if ¬ s.Matches d then (.eunreachable, s)
  -- unable to store the incoming frame: dropped, and reported as taken
  else if s.rxq.getFree < d.bToPut then (.eok, s)
  else (.eok, s.store d)

/-- The loop of `TCPIPUdpSock_Input`: up to the first socket that takes the datagram. -/
def inputLoop (d : Datagram) (ec : Err) : List Sock → Err × List Sock
  | [] => (ec, [])
  | s :: socks =>
    match processIncoming d s with
    | (.eok, s) => (.eok, s :: socks)
    | (ec, s) => ((inputLoop d ec socks).1, s :: (inputLoop d ec socks).2)

/-- `TCPIPUdpSock_Input` -/
def input (d : Datagram) (socks : List Sock) : Err × List Sock := inputLoop d .efatal socks

/-- The socket with the port takes the datagram, stored or not. -/
theorem processIncoming_eok {d : Datagram} {s : Sock} (hm : s.Matches d) : (processIncoming d s).1 = .eok := by
  unfold processIncoming
  rw [if_neg (not_not.2 hm)]
  split <;> rfl

/-- The datagram goes to the first socket with its port. -/
theorem input_socks (d : Datagram) (socks : List Sock) :
    (input d socks).2 = match socks.findIdx? (fun s => decide (s.Matches d)) with
      | none => socks
      | some i => socks.modify i fun s => (processIncoming d s).2 := by
  unfold input
  generalize Err.efatal = ec
  induction socks generalizing ec with
  | nil => rfl
  | cons s socks ih =>
      rw [List.findIdx?_cons, inputLoop]
      by_cases hm : s.Matches d
      · have hok := processIncoming_eok hm
        rw [if_pos (decide_eq_true hm)]
        generalize hp : processIncoming d s = r at hok
        obtain ⟨ec', s'⟩ := r
        obtain rfl : ec' = .eok := hok
        simp [hp]
      · have hno : processIncoming d s = (.eunreachable, s) := if_pos hm
        rw [if_neg (by simpa using hm), hno]
        simp only [ih]
        cases socks.findIdx? fun s => decide (s.Matches d) <;> rfl

/-- The datagram is put into the queue. -/
def Sock.Stores (d : Datagram) (s : Sock) : Prop := s.Matches d ∧ d.bToPut ≤ s.rxq.getFree

instance (d : Datagram) (s : Sock) : Decidable (s.Stores d) := inferInstanceAs (Decidable (_ ∧ _))

theorem processIncoming_of_not_stores {d : Datagram} {s : Sock} (h : ¬ s.Stores d) : (processIncoming d s).2 = s := by
  unfold processIncoming
  split
  · rfl
  · rename_i hm
    rw [if_pos (Nat.lt_of_not_le fun hle => h ⟨not_not.1 hm, hle⟩)]

theorem processIncoming_of_stores {d : Datagram} {s : Sock} (h : s.Stores d) :
    processIncoming d s = (.eok, s.store d) := by
  unfold processIncoming
  rw [if_neg (not_not.2 h.1), if_neg (Nat.not_lt.2 h.2)]

/-- A datagram that needs room changes the queue it is put into. -/
theorem store_ne {d : Datagram} {s : Sock} (hfree : 0 < s.rxq.getFree) : s.store d ≠ s := by
  intro h
  have hused := congrArg (fun t => t.rxq.getUsed) h
  simp only [Sock.store, Queue.getUsed_put] at hused
  omega

/-- A datagram leaves the whole table as it was exactly when the first socket with its port does not store it. -/
theorem input_eq_self_iff {d : Datagram} (hput : 0 < d.bToPut) (socks : List Sock) :
    (input d socks).2 = socks ↔ ∀ s, socks.find? (fun s => decide (s.Matches d)) = some s → ¬ s.Stores d := by
  unfold input
  generalize Err.efatal = ec
  induction socks generalizing ec with
  | nil => simp [inputLoop]
  | cons s socks ih =>
      rw [inputLoop, List.find?_cons]
      by_cases hst : s.Stores d
      · have hne : s.store d ≠ s := store_ne (Nat.lt_of_lt_of_le hput hst.2)
        simp [processIncoming_of_stores hst, hst.1, hst, hne]
      · have hsame := processIncoming_of_not_stores hst
        by_cases hm : s.Matches d
        · have hdrop : processIncoming d s = (.eok, s) := Prod.ext (processIncoming_eok hm) hsame
          simp [hdrop, hm, hst]
        · have hno : processIncoming d s = (.eunreachable, s) := if_pos hm
          simp [hno, hm, ih]

/-! ## `TCPIPUdpSock_CreateSocket`, `TCPIPUdpSock_DestroySocket` -/

/-- The part of `TCPIPUdpSock_CreateSocket` after the search: only two fields are set. -/
def Sock.create (port : Port) (rxq : Queue UInt8) (s : Sock) : Sock := { s with rxq := rxq, locPort := port }

/-- `TCPIPUdpSock_DestroySocket` -/
def Sock.destroy (s : Sock) : Sock := { s with locPort := 0 }

/-! ## `TCPIPUdpSock_RecvFrom` -/

/-- A call that waits for the header, with the number of bytes `Queue_GetWait` has read so far. -/
structure Call where
  size : BitVec 32
  wait : Queue.Patience
  read : Nat := 0

/-- What a call returns: `*addr`, `*port` and the bytes at `ptr`, of which there was room for `size`. -/
structure Piece where
  size : BitVec 32
  addr : Ip
  port : Port
  data : List UInt8
deriving DecidableEq

/-- A pass of `Queue_GetWait(sock->rxq, &sock->rx_size, sizeof(sock->rx_size), timeout)`. -/
def Sock.readSize (c : Call) (s : Sock) : Call × Sock :=
  let g : Queue.GetCall UInt8 := { count := 4, ptr := Little.byte s.rxSize.toNat, wait := c.wait, read := c.read }
  let r := g.pass s.rxq
  ({ c with read := r.1.read }, { s with rxq := r.2, rxSize := BitVec.ofNat 32 (Little.value r.1.ptr 4) })

/-- The rest of the meta-data. -/
def Sock.readMeta (s : Sock) : Sock :=
  let ip := s.rxq.get 4
  let port := ip.2.get 2
  { s with rxq := port.2, rxIp := Little.overlay s.rxIp ip.1, rxPort := Little.overlay s.rxPort port.1, rxOffs := 0 }

/-- The end of the call. -/
def Sock.readData (size : BitVec 32) (s : Sock) : Piece × Sock :=
  -- the limit is the whole size of the frame, not what is left of it
  let data := s.rxq.get (min size.toNat s.rxSize.toNat)
  (⟨size, s.rxIp, s.rxPort, data.1⟩, { s with rxq := data.2, rxOffs := adv s.rxOffs data.1.length })

/-! ## The table -/

/-- The datagrams stored in a socket and the pieces returned from it, since it was created. -/
structure Log where
  accepted : List Datagram
  pieces : List Piece

/-- A socket of the table, the call that waits at it, and its log where it is in use. -/
structure Slot where
  sock : Sock
  call : Option Call
  log : Option Log

/-- A socket nobody has created yet. -/
def Slot.start (s : Sock) : Slot := ⟨s, none, none⟩

/-- What happens at the table: `create` brings the memory of the new queue, a call the clock it reads. -/
inductive Event where
  | create (port : Port) (rxSize : Nat) (mem : Nat → UInt8)
  | destroy (i : Nat)
  | incoming (d : Datagram)
  | recvFrom (i : Nat) (size : BitVec 32) (wait : Queue.Patience) (p : Queue.Poll)
  | resume (i : Nat) (p : Queue.Poll)

/-- A call returns its bytes. -/
def Slot.finish (size : BitVec 32) (s : Slot) : Slot :=
  let r := s.sock.readData size
  ⟨r.2, none, s.log.map fun log => { log with pieces := log.pieces ++ [r.1] }⟩

/-- A call waits for the next header. -/
def Slot.poll (c : Call) (p : Queue.Poll) (s : Slot) : Slot :=
  let r := s.sock.readSize c
  if r.1.read = 4 ∨ c.wait.GivesUp p then
    -- `ETIMEOUT` only when nothing was read
    if r.1.read = 0 then { s with sock := r.2, call := none }
    else Slot.finish c.size { s with sock := r.2.readMeta }
  else { s with sock := r.2, call := some r.1 }

/-- One event at the socket it is for. A socket is destroyed and received from by its owner, one call at a time. -/
def Slot.step (s : Slot) : Event → Option Slot
  | .create port rxSize mem =>
    -- `none` where there is no memory: the assertion
    if h : 0 < rxSize ∧ rxSize ≤ 2 ^ 31 then
      if s.call.isNone then
        some ⟨s.sock.create port (.create 1 rxSize mem Nat.one_pos h.1 h.2 (by omega)), none, some ⟨[], []⟩⟩
      else none
    else none
  | .destroy _ => if s.log.isSome ∧ s.call.isNone then some ⟨s.sock.destroy, none, none⟩ else none
  | .incoming d =>
    some { s with
      sock := (processIncoming d s.sock).2
      log := if s.sock.Stores d then s.log.map fun log => { log with accepted := log.accepted ++ [d] } else s.log }
  | .recvFrom _ size wait p =>
    if s.log.isSome ∧ s.call.isNone then
      some (if s.sock.rxOffs = s.sock.rxSize then s.poll { size := size, wait := wait } p else s.finish size)
    else none
  | .resume _ p => s.call.map fun c => s.poll c p

/-- The socket of the table an event is for: the first free one, the first with the datagram's port, or a given one. -/
def target (slots : List Slot) : Event → Option Nat
  | .create .. => slots.findIdx? fun s => decide (s.sock.locPort = 0)
  | .destroy i => some i
  | .incoming d => slots.findIdx? fun s => decide (s.sock.Matches d)
  | .recvFrom i .. => some i
  | .resume i _ => some i

/-- One event at the table. -/
def step : List Slot → Event → Option (List Slot) := tableStep Slot.step target

/-- A datagram does to the table what `TCPIPUdpSock_Input` does. -/
theorem step_incoming (d : Datagram) (slots : List Slot) :
    (step slots (.incoming d)).map (List.map Slot.sock) = some (input d (slots.map Slot.sock)).2 := by
  have hfind : (slots.map Slot.sock).findIdx? (fun s => decide (s.Matches d)) =
      slots.findIdx? fun s => decide (s.sock.Matches d) := List.findIdx?_map ..
  rw [input_socks, hfind]
  show (match slots.findIdx? fun s => decide (s.sock.Matches d) with | none => _ | some i => _ : Option _).map _ = _
  cases hi : slots.findIdx? fun s => decide (s.sock.Matches d) with
  | none => rfl
  | some i =>
      obtain ⟨hlt, -⟩ := List.findIdx?_eq_some_iff_getElem.1 hi
      simp [Slot.step, List.getElem?_eq_getElem hlt, List.map_set, List.modify_eq_set_getElem?]

end YieldStm32.Udp
