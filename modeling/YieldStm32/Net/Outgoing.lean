import YieldStm32.Net.Input
import YieldStm32.Net.Tcp.Node

/-!
# Frames to be sent (`rxtx.c`, `eth.c`, `ip.c`, `icmp.c`, `tcp_sock.c`, `udp_sock.c`)

A transmit buffer of `TCPIP_RXTX_BUF_SIZE` bytes is handed down through the layers as a descriptor: each layer moves the
pointer behind its header, and none of them the size, which stays that of the whole buffer.

* `tcpAlloc`, `udpAlloc`, `ipAlloc` : the descriptors of the three senders;
* `Sending` : what they are asked to send, `Sending.copied` what they copy behind the headers;
* `Sending.fits_iff` : when that stays inside the buffer.
-/

namespace YieldStm32.TCPIP

open Traced

/-! ## The descriptor -/

/-- `TCPIPRxTx_Alloc` with the buffer at `buf` -/
def rxTxAlloc (buf : Nat) (f : Frame) : Frame := { f with ptr := buf, size := BitVec.ofNat 32 Tcp.frameSize }

/-- `TCPIPEth_Alloc` -/
def ethAlloc (buf : Nat) (f : Frame) : Frame :=
  let f := rxTxAlloc buf f
  { f with eth := f.ptr, ptr := f.ptr + 14 }

/-- `TCPIPIp_Alloc` -/
def ipAlloc (buf : Nat) (f : Frame) : Frame :=
  let f := ethAlloc buf f
  { f with inet := f.ptr, ptr := f.ptr + 20 }

/-- `TCPIPTcp_Alloc` -/
def tcpAlloc (buf : Nat) (f : Frame) : Frame :=
  let f := ipAlloc buf f
  { f with transport := f.ptr, ptr := f.ptr + 20 }

/-- `TCPIPUdp_Alloc` -/
def udpAlloc (buf : Nat) (f : Frame) : Frame :=
  let f := ipAlloc buf f
  { f with transport := f.ptr, ptr := f.ptr + 8 }

theorem tcpAlloc_ptr (buf : Nat) (f : Frame) : (tcpAlloc buf f).ptr = buf + 54 := rfl

theorem udpAlloc_ptr (buf : Nat) (f : Frame) : (udpAlloc buf f).ptr = buf + 42 := rfl

/-- The headers are not taken off. -/
theorem tcpAlloc_size (buf : Nat) (f : Frame) : (tcpAlloc buf f).size.toNat = Tcp.frameSize := rfl

/-! ## Echo requests -/

/-- The descriptor as `TCPIPIcmp_Input` hands it on. -/
def icmpFrame (m : Mem) (f : Frame) : Frame := { ipFrame m f with transport := (ipFrame m f).ptr }

/-- `echo->data`, in the length that is left of the payload. -/
def echoData (m : Mem) (f : Frame) : List UInt8 := Ring.copyOut m (f.transport + 8) (f.size - 4 - 4).toNat

/-- The datagram at `f.ptr` is accepted, and answered as an echo request. -/
structure AcceptsEcho (s : Stack) (f : Frame) : Prop where
  accepts : s.addr.Accepts s.mem f.ptr
  protocol : ipProtocol s.mem f.ptr = protocolIcmp
  checksum : ~~~ checksum 0 (Ring.copyOut s.mem f.transport (ipPldLen s.mem f.ptr).toNat) = 0
  type : icmpType s.mem f.transport = icmpEchoRequest

theorem icmpProcessEchoRequest_val (f : Frame) (s : Stack) :
    (icmpProcessEchoRequest f s).val =
      let r := icmpSendEcho (ipSrcAddr s.mem f.inet) icmpEchoReply (icmpEchoID s.mem f.transport)
        (icmpEchoSeqNo s.mem f.transport) (echoData s.mem f) s
      ⟨r.1, f, r.2⟩ := by
  simp only [icmpProcessEchoRequest, field, range, minus, val_bind, val_pure, echoData]

theorem ipInput_val_of_echo {f : Frame} {s : Stack} (h : AcceptsEcho s f) :
    (ipInput f s).val = (icmpProcessEchoRequest (icmpFrame s.mem f) s).val := by
  have hsum : ¬ ~~~ TCPIP.checksum 0 (Ring.copyOut s.mem (ipFrame s.mem f).transport (ipFrame s.mem f).size.toNat) ≠ 0 :=
    not_not.2 h.checksum
  have htype : icmpType s.mem (ipFrame s.mem f).transport = icmpEchoRequest := h.type
  have hprotocol : ipProtocol s.mem (ipFrame s.mem f).inet = protocolIcmp := h.protocol
  rw [ipInput_val, if_pos h.accepts, transportInput, if_pos hprotocol]
  simp only [icmpInput, range, field, val_bind, val_ite]
  rw [if_neg hsum, if_pos htype]
  rfl

/-! ## What is copied -/

/-- What there is to send: a tx queue, which `TCPIPTcpSock_Create` makes one of bytes, the arguments `ptr` and `size` of
`TCPIPUdpSock_SendTo`, and an echo request. -/
inductive Sending where
  | tcp (txq : Queue UInt8) (hsize : txq.size = 1)
  | udp (m : Mem) (ptr : Nat) (size : BitVec 32)
  | echo (s : Stack) (f : Frame) (h : AcceptsEcho s f)

/-- Bytes copied to `dst`. -/
structure Copied where
  dst : Nat
  data : List UInt8

/-- The copy of `TCPIPTcpSock_ProcessOutgoing`, `TCPIPUdpSock_SendTo` or `TCPIPIcmp_SendEcho`. -/
def Sending.copied (buf : Nat) (f : Frame) : Sending → Copied
  | .tcp txq _ => ⟨(tcpAlloc buf f).ptr, txq.peek (tcpAlloc buf f).size.toNat⟩
  | .udp m ptr size => ⟨(udpAlloc buf f).ptr, Ring.copyOut m ptr size.toNat⟩
  | .echo s g _ => ⟨(ipAlloc buf f).ptr + 4 + 4, echoData s.mem (icmpFrame s.mem g)⟩

/-- The payload of the segment that the socket puts together. -/
theorem copied_tcp (s : Tcp.Sock) (hsize : s.txq.size = 1) (flags : Tcp.Flags) (buf : Nat) (f : Frame) :
    ((Sending.tcp s.txq hsize).copied buf f).data = (s.buildFrame flags).1.data := rfl

/-- The copy ends inside the buffer. -/
def Sending.Fits (x : Sending) : Prop :=
  ∀ buf f, (x.copied buf f).dst + (x.copied buf f).data.length ≤ buf + Tcp.frameSize

/-- There is room for it behind the headers; an echo request is no shorter than its own. -/
def Sending.Small : Sending → Prop
  | .tcp txq _ => txq.getUsed ≤ 1474
  | .udp _ _ size => size.toNat ≤ 1486
  | .echo s f _ => 8 ≤ (ipPldLen s.mem f.ptr).toNat ∧ (ipPldLen s.mem f.ptr).toNat ≤ 1494

/-- A copy of `n` bytes behind headers of `k` bytes. -/
theorem Sending.fits_of_copied (x : Sending) (k : Nat) {n : Nat} (hdst : ∀ buf f, (x.copied buf f).dst = buf + k)
    (hlength : ∀ buf f, (x.copied buf f).data.length = n) : x.Fits ↔ k + n ≤ 1528 := by
  have hroom (buf : Nat) (f : Frame) :
      (x.copied buf f).dst + (x.copied buf f).data.length ≤ buf + Tcp.frameSize ↔ k + n ≤ 1528 := by
    rw [hdst, hlength, Tcp.frameSize]
    omega
  exact ⟨fun h => (hroom 0 zeroFrame).1 (h 0 zeroFrame), fun h buf f => (hroom buf f).2 h⟩

theorem fits_tcp_iff (txq : Queue UInt8) (hsize : txq.size = 1) :
    (Sending.tcp txq hsize).Fits ↔ txq.getUsed ≤ 1474 := by
  have hlength (buf : Nat) (f : Frame) : ((Sending.tcp txq hsize).copied buf f).data.length = min 1528 txq.getUsed := by
    show (txq.peek Tcp.frameSize).length = _
    rw [Queue.peek_eq, List.length_take, Queue.length_contents, hsize, Nat.mul_one, Nat.mul_one, Tcp.frameSize]
  rw [Sending.fits_of_copied (.tcp txq hsize) 54 tcpAlloc_ptr hlength]
  omega

theorem fits_udp_iff (m : Mem) (ptr : Nat) (size : BitVec 32) :
    (Sending.udp m ptr size).Fits ↔ size.toNat ≤ 1486 := by
  have hlength (buf : Nat) (f : Frame) : ((Sending.udp m ptr size).copied buf f).data.length = size.toNat :=
    Ring.length_copyOut ..
  rw [Sending.fits_of_copied (.udp m ptr size) 42 udpAlloc_ptr hlength]
  omega

/-- What is left of less than eight bytes wraps. -/
theorem fits_echo_iff (s : Stack) (f : Frame) (h : AcceptsEcho s f) :
    (Sending.echo s f h).Fits ↔ 8 ≤ (ipPldLen s.mem f.ptr).toNat ∧ (ipPldLen s.mem f.ptr).toNat ≤ 1494 := by
  have hlength (buf : Nat) (g : Frame) :
      ((Sending.echo s f h).copied buf g).data.length = (ipPldLen s.mem f.ptr - 4 - 4).toNat := Ring.length_copyOut ..
  rw [Sending.fits_of_copied (.echo s f h) 42 (fun buf g => rfl) hlength]
  generalize ipPldLen s.mem f.ptr = n
  bv_omega

theorem Sending.fits_iff (x : Sending) : x.Fits ↔ x.Small := by
  cases x with
  | tcp txq hsize => exact fits_tcp_iff txq hsize
  | udp m ptr size => exact fits_udp_iff m ptr size
  | echo s f h => exact fits_echo_iff s f h

/-- A tx queue of 2048 bytes, with `n` bytes put into it. -/
def filledQueue (n : Nat) : Queue UInt8 :=
  ((Queue.create 1 2048 (fun _ => 0) Nat.one_pos (by decide) (by decide) (by decide)).put (List.replicate n 0) n).2

/-- One byte too much for a segment. -/
theorem not_fits_filledQueue : ¬ (Sending.tcp (filledQueue 1475) (Eq.refl 1)).Fits := by
  have hused : (filledQueue 1475).getUsed = 1475 := Queue.getUsed_put ..
  rw [fits_tcp_iff (filledQueue 1475) (Eq.refl 1), hused]
  decide

end YieldStm32.TCPIP
