import YieldStm32.Lib.Run
import YieldStm32.Net.Dhcp.Lease
import YieldStm32.Net.Dhcp.RenderBounds

/-!
# The DHCP server on the wire (`net/dhcp/src/server.c`, `net/dhcp/frame.h`)

What the server does with the bytes of a datagram, and the bytes it sends.

* `initFrame`, `setXID` and the others : the header of a message;
* `sendResponse`, `sendResponseNAK`, `processDiscoverFrame`, `processRequestFrame`, `input` : the functions of the source;
* `Reads` : what the one who gets the bytes of a message finds in it, `sendResponse_reads` that it is what was put in;
* `Datagram.answer` : what a client makes of the bytes, `Reply.datagram_answer` that it is the reply they were made for;
* `decode` : a datagram as a message of the record book;
* `input_eq` : what the server does with a datagram is what the record book does with the message;
* `wire_refines` : along every run of datagrams;
* `wire_addresses` : the one address that clients are given along it.

A datagram is sent or it is not, `Sent.failed`. Only an ACK is followed by anything, so that elsewhere a reset that runs
while a datagram is sent is one that comes next.
-/

namespace YieldStm32.DHCPFrame

open Ring TCPIP

/-! ## The header -/

/-- `DHCPFrame_Init` -/
def initFrame (m : Mem) (frame : Nat) : Mem :=
  copyIn (copyIn m frame (List.replicate frameSize 0)) (frame + 236) (be32Bytes 0x63825363)

/-- `DHCPFrame_SetOP` -/
def setOP (m : Mem) (frame : Nat) (op : UInt8) : Mem := copyIn m frame [op]

/-- `DHCPFrame_SetHType` -/
def setHType (m : Mem) (frame : Nat) (htype : UInt8) : Mem := copyIn m (frame + 1) [htype]

/-- `DHCPFrame_SetHLen` -/
def setHLen (m : Mem) (frame : Nat) (hlen : UInt8) : Mem := copyIn m (frame + 2) [hlen]

/-- `DHCPFrame_SetHops` -/
def setHops (m : Mem) (frame : Nat) (hops : UInt8) : Mem := copyIn m (frame + 3) [hops]

/-- `DHCPFrame_SetXID` -/
def setXID (m : Mem) (frame : Nat) (xid : BitVec 32) : Mem := copyIn m (frame + 4) (be32Bytes xid)

/-- `DHCPFrame_SetFlags` -/
def setFlags (m : Mem) (frame : Nat) (flags : BitVec 16) : Mem :=
  copyIn m (frame + 10) [.ofBitVec (flags.extractLsb' 8 8), .ofBitVec (flags.extractLsb' 0 8)]

/-- `DHCPFrame_GetOP` -/
def getOP (m : Mem) (frame : Nat) : UInt8 := m frame

/-- `DHCPFrame_GetHType` -/
def getHType (m : Mem) (frame : Nat) : UInt8 := m (frame + 1)

/-- `DHCPFrame_GetHLen` -/
def getHLen (m : Mem) (frame : Nat) : UInt8 := m (frame + 2)

/-- `DHCPFrame_GetXID` -/
def getXID (m : Mem) (frame : Nat) : BitVec 32 := be32 m (frame + 4)

/-- `dhcp_addrset_t adrs = { 0 }` -/
def AddrSet.zero : AddrSet := ⟨fun _ => false, 0, 0, 0, 0, 0⟩

/-- `dhcp_optset_t opts = { 0 }` -/
def OptSet.zero : OptSet := ⟨fun _ => false, 0, 0, 0, 0, fun _ => 0, 0, 0, fun _ => 0, 0, 0⟩

/-! ## Bytes in another place -/

section Moved

variable {m m' : Mem} {p q : Nat}

theorem be16_moved (h : ∀ i < 2, m' (p + i) = m (q + i)) : be16 m' p = be16 m q := by
  unfold be16
  rw [h 1 (by decide)]
  exact congrArg (fun x : UInt8 => x.toBitVec ++ (m (q + 1)).toBitVec) (h 0 (by decide))

theorem be32_moved (h : ∀ i < 4, m' (p + i) = m (q + i)) : be32 m' p = be32 m q := by
  have hlo : be16 m' (p + 2) = be16 m (q + 2) := be16_moved fun i hi => by
    rw [Nat.add_assoc, Nat.add_assoc]
    exact h (2 + i) (by omega)
  unfold be32
  rw [be16_moved fun i hi => h i (by omega), hlo]

theorem mac_moved (h : ∀ i < 6, m' (p + i) = m (q + i)) : mac m' p = mac m q := by
  have hlo : be16 m' (p + 4) = be16 m (q + 4) := be16_moved fun i hi => by
    rw [Nat.add_assoc, Nat.add_assoc]
    exact h (4 + i) (by omega)
  unfold mac
  rw [be32_moved fun i hi => h i (by omega), hlo]

/-- The bytes at `p + k` are those at `q + k`. -/
theorem moved_at {n k j : Nat} (h : ∀ i < n, m' (p + i) = m (q + i)) (hk : k + j ≤ n) :
    ∀ i < j, m' (p + k + i) = m (q + k + i) := by
  intro i hi
  rw [Nat.add_assoc, Nat.add_assoc]
  exact h (k + i) (by omega)

/-- What a message says in its header: the operation, the medium, the transaction, the addresses. -/
structure Header (m : Mem) (p : Nat) (op : UInt8) (xid : BitVec 32) (a : AddrSet) : Prop where
  op : getOP m p = op
  htype : getHType m p = 1
  hlen : getHLen m p = 6
  xid : getXID m p = xid
  ci : getCIAddr m p = if a.addrflags .ciaddr then a.ci else 0
  yi : getYIAddr m p = if a.addrflags .yiaddr then a.yi else 0
  si : getSIAddr m p = if a.addrflags .siaddr then a.si else 0
  gi : getGIAddr m p = if a.addrflags .giaddr then a.gi else 0
  ch : getCHAddr m p = if a.addrflags .chaddr then a.ch else 0

theorem Header.moved {op : UInt8} {xid : BitVec 32} {a : AddrSet} (hh : Header m q op xid a)
    (h : ∀ i < frameSize, m' (p + i) = m (q + i)) : Header m' p op xid a where
  op := (h 0 (by decide)).trans hh.op
  htype := (h 1 (by decide)).trans hh.htype
  hlen := (h 2 (by decide)).trans hh.hlen
  xid := (be32_moved (moved_at h (by decide))).trans hh.xid
  ci := (be32_moved (moved_at h (by decide))).trans hh.ci
  yi := (be32_moved (moved_at h (by decide))).trans hh.yi
  si := (be32_moved (moved_at h (by decide))).trans hh.si
  gi := (be32_moved (moved_at h (by decide))).trans hh.gi
  ch := (mac_moved (moved_at h (by decide))).trans hh.ch

end Moved

end YieldStm32.DHCPFrame

namespace YieldStm32.DHCPSrv

open DHCPFrame Ring TCPIP Transition

/-- `TCPIP_IP_ADDR_BCAST` -/
def ipBcast : Ip := 0xffffffff

/-- A datagram that is handed to `TCPIPUdpSock_SendTo` -/
structure Datagram where
  ip : Ip
  port : BitVec 16
  data : List UInt8
deriving DecidableEq, Repr

/-- What `TCPIPUdpSock_SendTo` sends. -/
def Sent.datagram (sent : Sent) (d : Option Datagram) : Option Datagram := if sent = .failed then none else d

theorem Sent.datagram_none (sent : Sent) : sent.datagram none = none := ite_self _

/-! ## The functions of the source -/

section

-- the stack, with the work buffer at `buf`
variable (c : IpConfig) (now : BitVec 32) (sent : Sent) (stack : Mem) (buf : Nat)

/-- `DHCPSrv_SendResponse`, `none` where it returns `EFATAL` -/
def sendResponse (ip : Ip) (port : BitVec 16) (xid : BitVec 32) (adrs : AddrSet) (opts : OptSet) : Option Datagram :=
  let m := initFrame stack buf
  let m := setOP m buf 2
  let m := setHType m buf 1
  let m := setHLen m buf 6
  let m := setHops m buf 0
  let m := setFlags m buf 0
  let m := setXID m buf xid
  match renderAddresses m buf 512 adrs with
  | none => none
  | some m =>
    match renderOptions m (buf + frameSize) (512 - 240) opts with
    | (_, none) => none
    | (m, some ptr) => some ⟨ip, port, copyOut m buf (ptr - buf)⟩

/-- The addresses of an answer with an address for the client. -/
def leaseAdrs (yi : Ip) (ch : Mac) : AddrSet :=
  { AddrSet.zero with
    addrflags := fun f => f = .yiaddr ∨ f = .siaddr ∨ f = .chaddr ∨ f = .giaddr
    yi := yi
    si := c.ip
    gi := c.gway
    ch := ch }

/-- Its options -/
def leaseOpts (msgType : UInt8) (leaseTime : BitVec 32) : OptSet :=
  { OptSet.zero with
    optflags := fun f => f = .msgtype ∨ f = .subnet ∨ f = .router ∨ f = .leaseTime ∨ f = .dhcpServer ∨ f = .end
    msgType := msgType
    subnet := c.mask
    router := c.gway
    leaseTime := leaseTime
    server := c.ip }

/-- The addresses of a NAK -/
def nakAdrs (ch : Mac) : AddrSet :=
  { AddrSet.zero with addrflags := fun f => f = .siaddr ∨ f = .chaddr, si := c.ip, ch := ch }

/-- The options of a NAK -/
def nakOpts : OptSet := { OptSet.zero with optflags := fun f => f = .msgtype ∨ f = .end, msgType := 6 }

/-- `DHCPSrv_SendResponseNAK` -/
def sendResponseNAK (ip : Ip) (port : BitVec 16) (xid : BitVec 32) (ch : Mac) : Option Datagram :=
  -- we cannot respond to any, we need to respond to broadcast
  let ip := if ip = 0 then ipBcast else ip
  sent.datagram (sendResponse stack buf ip port xid (nakAdrs c ch) nakOpts)

/-- `DHCPSrv_ProcessDiscover` -/
def processDiscoverFrame (port : BitVec 16) (m : Mem) (frame : Nat) (adrs : AddrSet) (recs : List Record) :
    Option Datagram × List Record :=
  let xid := getXID m frame
  if xid = 0 ∨ adrs.addrflags .chaddr = false then (none, recs)
  else
    match reserveAddress now adrs.ch recs with
    | (none, recs) => (none, recs)
    | (some (i, ip), recs) =>
      let recs := recs.modify i fun r => { r with ts := now, state := .offer }
      (sent.datagram (sendResponse stack buf ipBcast port xid (leaseAdrs c ip adrs.ch) (leaseOpts c 2 (1 * 60))), recs)

/-- `DHCPSrv_ProcessRequest` -/
def processRequestFrame (ip : Ip) (port : BitVec 16) (m : Mem) (frame : Nat) (adrs : AddrSet) (opts : OptSet)
    (recs : List Record) : Option Datagram × List Record :=
  let xid := getXID m frame
  if xid = 0 ∨ adrs.addrflags .chaddr = false then (none, recs)
  -- client has received the ip address once in the past
  else if adrs.addrflags .ciaddr then answer xid adrs.ci
  -- this is the request after the offer
  else if opts.optflags .requestedIp then answer xid opts.reqIp
  else (none, recs)
where
  answer (xid : BitVec 32) (reqAddr : Ip) : Option Datagram × List Record :=
    match (findRecord now (some adrs.ch) (some reqAddr) recs).1.bind fun i => recs[i]?.map fun r => (i, r) with
    | none => (sendResponseNAK c sent stack buf ip port xid adrs.ch, recs)
    | some (i, r) =>
      if ¬ (r.state = .offer ∨ r.state = .assigned) then (sendResponseNAK c sent stack buf ip port xid adrs.ch, recs)
      else
        match sent.datagram
          (sendResponse stack buf ipBcast port xid (leaseAdrs c r.ip adrs.ch) (leaseOpts c 5 (15 * 60))) with
        -- unable to send the frame
        | none => (none, recs)
        | some d =>
          let recs := if sent = .okAfterReset then reset recs else recs
          (some d, recs.modify i fun r => { r with state := .assigned, ts := now })

/-- `DHCPSrv_Process` -/
def process (ip : Ip) (port : BitVec 16) (m : Mem) (frame : Nat) (adrs : AddrSet) (opts : OptSet) (recs : List Record) :
    Option Datagram × List Record :=
  if opts.msgType = 1 then processDiscoverFrame c now sent stack buf port m frame adrs recs
  else if opts.msgType = 3 then processRequestFrame c now sent stack buf ip port m frame adrs opts recs
  -- client wants to let go of the address, or asks for something that is not supported
  else (none, recs)

/-- `DHCPSrv_Input` of `size` bytes at `ptr` -/
def input (ip : Ip) (port : BitVec 16) (m : Mem) (ptr : Nat) (size : BitVec 32) (recs : List Record) :
    Option Datagram × List Record :=
  -- unsupported medium
  if getHType m ptr ≠ 1 ∨ getHLen m ptr ≠ 6 then (none, recs)
  else
    match parseAddresses m ptr size .zero with
    | none => (none, recs)
    | some adrs =>
      match parseOptions m (ptr + frameSize) (size - 240) .zero with
      | (none, _) => (none, recs)
      | (some _, opts) =>
        if opts.optflags .msgtype = false then (none, recs)
        else if getOP m ptr = 1 then process c now sent stack buf ip port m ptr adrs opts recs
        else (none, recs)

end

/-! ## What is sent is read -/

/-- The bytes of an option set -/
def optBytes (o : OptSet) : List UInt8 := o.records.flatMap DHCPFrame.Record.encode ++ [0xff]

theorem length_optBytes (o : OptSet) : (optBytes o).length = o.length := List.length_append

/-- What the one who gets a message of `size` bytes finds in it: an answer in the transaction `xid`, with these addresses
and options, that ends with the datagram. -/
structure Reads (m : Mem) (p : Nat) (size : BitVec 32) (xid : BitVec 32) (a : AddrSet) (o : OptSet) : Prop where
  header : Header m p 2 xid a
  last : (parseOptions m (p + frameSize) (size - 240) .zero).1 = some (p + size.toNat)
  options : o.Agrees (parseOptions m (p + frameSize) (size - 240) .zero).2

/-- The option sets that the server puts in: they fit in the buffer. -/
structure Plain (o : OptSet) : Prop where
  last : o.optflags .end
  consistent : o.Consistent
  dns : o.dnsCnt ≤ 3
  noDns : o.optflags .dnsServers = false
  length : o.length ≤ 272

theorem copyIn_cell (m : Mem) {p i : Nat} {xs : List UInt8} (h : i < p ∨ p + xs.length ≤ i) : copyIn m p xs i = m i :=
  dif_neg (by omega)

theorem renderAddresses_below {m m' : Mem} {frame i : Nat} {size : BitVec 32} {a : AddrSet}
    (h : renderAddresses m frame size a = some m') (hi : i < frame + 12) : m' i = m i := by
  unfold renderAddresses at h
  split at h
  case isTrue => cases h
  obtain rfl := Option.some.inj h
  unfold setCHAddr setGIAddr setSIAddr setYIAddr setCIAddr
  rw [copyIn_cell _ (by omega), copyIn_cell _ (by omega), copyIn_cell _ (by omega), copyIn_cell _ (by omega),
    copyIn_cell _ (by omega)]

/-- The basic fields of the frame. -/
theorem basic_fields (m : Mem) (buf : Nat) (xid : BitVec 32) :
    let m := setXID (setFlags (setHops (setHLen (setHType (setOP (initFrame m buf) buf 2) buf 1) buf 6) buf 0) buf 0) buf xid
    getOP m buf = 2 ∧ getHType m buf = 1 ∧ getHLen m buf = 6 ∧ getXID m buf = xid := by
  have hself (m : Mem) (p : Nat) (x : UInt8) : copyIn m p [x] p = x :=
    (Option.some.inj (cell_of_copyOut (copyOut_copyIn_self m p [x]) (i := 0) Nat.zero_lt_one)).symm
  have hlen (x : BitVec 32) : (be32Bytes x).length = 4 := rfl
  intro m
  refine ⟨?_, ?_, ?_, be32_copyIn_self ..⟩
  · show setXID _ _ _ _ = _
    unfold setXID setFlags setHops setHLen setHType setOP
    rw [copyIn_cell _ (by omega), copyIn_cell _ (by omega), copyIn_cell _ (by omega), copyIn_cell _ (by omega),
      copyIn_cell _ (by omega), hself]
  · show setXID _ _ _ _ = _
    unfold setXID setFlags setHops setHLen setHType
    rw [copyIn_cell _ (by omega), copyIn_cell _ (by omega), copyIn_cell _ (by simp), copyIn_cell _ (by simp), hself]
  · show setXID _ _ _ _ = _
    unfold setXID setFlags setHops setHLen
    rw [copyIn_cell _ (by omega), copyIn_cell _ (by omega), copyIn_cell _ (by simp), hself]

/-- The message in the work buffer -/
theorem sendResponse_eq (stack : Mem) (buf : Nat) (ip : Ip) (port : BitVec 16) (xid : BitVec 32) (a : AddrSet) {o : OptSet}
    (ho : Plain o) :
    ∃ m, sendResponse stack buf ip port xid a o = some ⟨ip, port, copyOut m buf (frameSize + o.length)⟩ ∧
      Header m buf 2 xid a ∧ copyOut m (buf + frameSize) o.length = optBytes o := by
  unfold sendResponse
  dsimp only
  obtain ⟨hop, hhtype, hhlen, hxid⟩ := basic_fields stack buf xid
  generalize setXID (setFlags (setHops (setHLen (setHType (setOP (initFrame stack buf) buf 2) buf 1) buf 6) buf 0) buf 0)
    buf xid = m₀ at hop hhtype hhlen hxid
  obtain ⟨m₁, hm₁⟩ : ∃ m, renderAddresses m₀ buf 512 a = some m := ⟨_, if_neg (by decide)⟩
  obtain ⟨hci, hyi, hsi, hgi, hch⟩ := renderAddresses_fields hm₁
  have hbelow : ∀ i < 12, m₁ (buf + i) = m₀ (buf + i) := fun i hi => renderAddresses_below hm₁ (by omega)
  have hheader : Header m₁ buf 2 xid a :=
    ⟨(hbelow 0 (by decide)).trans hop, (hbelow 1 (by decide)).trans hhtype, (hbelow 2 (by decide)).trans hhlen,
      (be32_moved (moved_at hbelow (by decide))).trans hxid, hci, hyi, hsi, hgi, hch⟩
  have hroom : (512 - 240 : BitVec 32).toNat = 272 := rfl
  obtain ⟨hptr, hbytes⟩ := @renderOptions_records m₁ (buf + frameSize) (512 - 240) o ho.last ho.consistent
    (hroom ▸ ho.length)
  have hinside := (renderOptions_comes m₁ (buf + frameSize) (512 - 240) o ho.dns
    fun h => absurd h (by rw [ho.noDns]; exact Bool.false_ne_true)).inside
  rw [hm₁]
  dsimp only
  rcases hr : renderOptions m₁ (buf + frameSize) (512 - 240) o with ⟨m, ptr⟩
  rw [hr] at hptr hbytes hinside
  obtain rfl : ptr = some (buf + frameSize + o.length) := hptr.trans (by rw [List.length_append]; rfl)
  refine ⟨m, ?_, hheader.moved fun i hi => hinside _ (Or.inl (by omega)), ?_⟩
  · dsimp only
    rw [Nat.add_assoc, Nat.add_sub_cancel_left]
  · rw [List.length_append] at hbytes
    exact hbytes

/-- The options in the bytes of a message -/
theorem parseOptions_optBytes {m : Mem} {p : Nat} {size : BitVec 32} {o : OptSet} (o0 : OptSet) (ho : Plain o)
    (hbytes : copyOut m p o.length = optBytes o) (hsize : o.length = size.toNat) :
    (parseOptions m p size o0).1 = some (p + size.toNat) ∧ o.Agrees (parseOptions m p size o0).2 := by
  have hlen : o.length = (o.records.flatMap DHCPFrame.Record.encode).length + 1 := rfl
  have hcount := length_le_flatMap o.records
  rw [hlen, copyOut_add] at hbytes
  obtain ⟨hrecs, hmark⟩ := List.append_inj hbytes (length_copyOut ..)
  have hff : m (p + (o.records.flatMap DHCPFrame.Record.encode).length) = 0xff :=
    (Option.some.inj (cell_of_copyOut hmark (i := 0) Nat.zero_lt_one)).symm
  have hpos : size ≠ 0 := by
    rintro rfl
    exact absurd (hlen.symm.trans hsize) (Nat.succ_ne_zero _)
  have hq : parseOptions m p size o0 = (some (p + (o.records.flatMap DHCPFrame.Record.encode).length + 1),
      (o.records.foldl DHCPFrame.Record.apply { o0 with optflags := fun _ => false }).mark .end) := by
    unfold parseOptions
    dsimp only
    rw [if_neg hpos]
    exact parseLoop_records _ o.records ho.consistent.fits (Nat.le_refl p) hrecs hff (by omega) (by omega)
  rw [hq]
  refine ⟨?_, OptSet.agrees_foldl ho.last rfl⟩
  rw [← hsize, hlen, Nat.add_assoc]

/-- **An answer of the server is read as it was meant**, wherever its bytes come to. -/
theorem sendResponse_reads (stack : Mem) (buf : Nat) (ip : Ip) (port : BitVec 16) (xid : BitVec 32) (a : AddrSet)
    {o : OptSet} (ho : Plain o) :
    ∃ data, sendResponse stack buf ip port xid a o = some ⟨ip, port, data⟩ ∧
      ∀ m p, copyOut m p data.length = data → Reads m p (BitVec.ofNat 32 data.length) xid a o := by
  obtain ⟨mf, hsend, hheader, hbytes⟩ := sendResponse_eq stack buf ip port xid a ho
  have hlong := ho.length
  have hframe : frameSize = 240 := rfl
  refine ⟨_, hsend, fun m p hdata => ?_⟩
  rw [length_copyOut] at hdata ⊢
  have hcells : ∀ i < frameSize + o.length, m (p + i) = mf (buf + i) := fun i hi => by
    have hcell := cell_of_copyOut hdata hi
    rw [copyOut, List.getElem?_map, List.getElem?_range hi, Option.map_some] at hcell
    exact (Option.some.inj hcell).symm
  have hsize : (BitVec.ofNat 32 (frameSize + o.length)).toNat = frameSize + o.length :=
    Nat.mod_eq_of_lt (by omega)
  have hleft : (BitVec.ofNat 32 (frameSize + o.length) - 240).toNat = o.length := by bv_omega
  have hopts : copyOut m (p + frameSize) o.length = optBytes o := by
    rw [← hbytes, copyOut, copyOut]
    exact List.map_congr_left fun i hi => moved_at hcells (Nat.le_refl _) i (List.mem_range.1 hi)
  obtain ⟨hlast, hagrees⟩ := parseOptions_optBytes .zero ho hopts hleft.symm
  refine ⟨hheader.moved fun i hi => hcells i (by omega), hlast.trans ?_, hagrees⟩
  rw [hleft, hsize, Nat.add_assoc]

theorem plain_leaseOpts (c : IpConfig) (msgType : UInt8) (leaseTime : BitVec 32) : Plain (leaseOpts c msgType leaseTime) :=
  ⟨rfl, ⟨nofun, nofun⟩, Nat.zero_le 3, rfl, (by decide : 28 ≤ 272)⟩

theorem plain_nakOpts : Plain nakOpts := ⟨rfl, ⟨nofun, nofun⟩, by decide, rfl, by decide⟩

/-! ## What a client makes of an answer -/

/-- An answer as a client takes it: where it was sent, the transaction, the server, the subnet mask and the router, and
what the server said. -/
structure Answer where
  ip : Ip
  port : BitVec 16
  xid : BitVec 32
  server : Ip
  net : Option (Ip × Ip)
  reply : Reply
deriving DecidableEq, Repr

/-- The answer that an option set stands for. -/
def meaning (ip : Ip) (port : BitVec 16) (xid : BitVec 32) (server yi : Ip) (ch : Mac) (o : OptSet) : Option Answer :=
  let net := if o.optflags .subnet ∧ o.optflags .router then some (o.subnet, o.router) else none
  if o.optflags .msgtype = false then none
  else if o.msgType = 2 then some ⟨ip, port, xid, server, net, .offer yi ch o.leaseTime.toNat⟩
  else if o.msgType = 5 then some ⟨ip, port, xid, server, net, .ack yi ch o.leaseTime.toNat⟩
  else if o.msgType = 6 then some ⟨ip, port, xid, server, net, .nak ch⟩
  else none

/-- The answer in the bytes of a datagram, which come to `p` in a client's memory. -/
def Datagram.answer (m : Mem) (p : Nat) (d : Datagram) : Option Answer :=
  let m := copyIn m p d.data
  if getOP m p ≠ 2 then none
  else
    match parseOptions m (p + frameSize) (BitVec.ofNat 32 d.data.length - 240) .zero with
    | (none, _) => none
    | (some _, o) => meaning d.ip d.port (getXID m p) (getSIAddr m p) (getYIAddr m p) (getCHAddr m p) o

/-- The option sets of the server mean the same where they agree. -/
theorem meaning_agrees {o o' : OptSet} (h : o.Agrees o') (ht : o.optflags .msgtype)
    (hl : o.msgType = 6 ∨ o.optflags .leaseTime) (ip : Ip) (port : BitVec 16) (xid : BitVec 32) (server yi : Ip) (ch : Mac) :
    meaning ip port xid server yi ch o' = meaning ip port xid server yi ch o := by
  have hnet : (if o'.optflags .subnet ∧ o'.optflags .router then some (o'.subnet, o'.router) else none) =
      if o.optflags .subnet ∧ o.optflags .router then some (o.subnet, o.router) else none := by
    rw [h.optflags]
    split
    case isTrue hs => rw [h.subnet hs.1, h.router hs.2]
    case isFalse => rfl
  unfold meaning
  rw [hnet, h.optflags, h.msgType ht]
  rcases hl with hl | hl
  · rw [hl]
    rfl
  · rw [h.leaseTime hl]

/-- **An answer is read as it was meant**, at any place in a client's memory. -/
theorem sendResponse_answer (stack rx : Mem) (buf p : Nat) (ip : Ip) (port : BitVec 16) (xid : BitVec 32) (a : AddrSet)
    {o : OptSet} (ho : Plain o) (ht : o.optflags .msgtype) (hl : o.msgType = 6 ∨ o.optflags .leaseTime) :
    ∃ d, sendResponse stack buf ip port xid a o = some d ∧
      d.answer rx p = meaning ip port xid (if a.addrflags .siaddr then a.si else 0) (if a.addrflags .yiaddr then a.yi else 0)
        (if a.addrflags .chaddr then a.ch else 0) o := by
  obtain ⟨data, hsend, hreads⟩ := sendResponse_reads stack buf ip port xid a ho
  have hr := hreads (copyIn rx p data) p (copyOut_copyIn_self rx p data)
  refine ⟨_, hsend, ?_⟩
  unfold Datagram.answer
  dsimp only
  have hlast := hr.last
  have hagrees := hr.options
  rw [if_neg (not_not_intro hr.header.op), hr.header.xid, hr.header.si, hr.header.yi, hr.header.ch]
  rcases hq : parseOptions (copyIn rx p data) (p + frameSize) (BitVec.ofNat 32 data.length - 240) .zero with ⟨last, o'⟩
  rw [hq] at hlast hagrees
  obtain rfl : last = _ := hlast
  exact meaning_agrees hagrees ht hl ip port xid _ _ _

/-! ## The record book behind the bytes -/

/-- What a client asks for. -/
inductive Request where
  | discover (m : Msg)
  | request (m : Msg)
deriving DecidableEq, Repr

/-- The parts of a message that the record book takes. -/
def Msg.parsed (xid : BitVec 32) (adrs : AddrSet) (opts : OptSet) : Msg where
  xid := xid
  ch := if adrs.addrflags .chaddr then some adrs.ch else none
  ci := if adrs.addrflags .ciaddr then some adrs.ci else none
  reqIp := if opts.optflags .requestedIp then some opts.reqIp else none

/-- What the `size` bytes of a datagram at `ptr` ask for, if the server takes them. -/
def decode (m : Mem) (ptr : Nat) (size : BitVec 32) : Option Request :=
  if getHType m ptr ≠ 1 ∨ getHLen m ptr ≠ 6 ∨ getOP m ptr ≠ 1 then none
  else
    (parseAddresses m ptr size .zero).bind fun adrs =>
      match parseOptions m (ptr + frameSize) (size - 240) .zero with
      | (none, _) => none
      | (some _, opts) =>
        let msg := Msg.parsed (getXID m ptr) adrs opts
        if opts.optflags .msgtype = false then none
        else if opts.msgType = 1 then some (.discover msg)
        else if opts.msgType = 3 then some (.request msg)
        else none

/-- What the record book answers. -/
def Request.process (now : BitVec 32) (sent : Sent) (recs : List Record) : Request → Option Reply × List Record
  | .discover m => processDiscover now m recs
  | .request m => processRequest now m sent recs

section

variable (c : IpConfig) (now : BitVec 32) (sent : Sent) (stack : Mem) (buf : Nat) (ip : Ip) (port : BitVec 16)

/-- A reply as a datagram. -/
def Reply.datagram (xid : BitVec 32) : Reply → Option Datagram
  | .offer yi ch t => sendResponse stack buf ipBcast port xid (leaseAdrs c yi ch) (leaseOpts c 2 (BitVec.ofNat 32 t))
  | .ack yi ch t => sendResponse stack buf ipBcast port xid (leaseAdrs c yi ch) (leaseOpts c 5 (BitVec.ofNat 32 t))
  | .nak ch => sendResponse stack buf (if ip = 0 then ipBcast else ip) port xid (nakAdrs c ch) nakOpts

theorem datagram_offer (xid : BitVec 32) (yi : Ip) (ch : Mac) :
    Reply.datagram c stack buf ip port xid (.offer yi ch (1 * 60)) =
      sendResponse stack buf ipBcast port xid (leaseAdrs c yi ch) (leaseOpts c 2 (1 * 60)) := by
  have htime : BitVec.ofNat 32 (1 * 60) = 1 * 60 := by decide
  unfold Reply.datagram
  dsimp only
  rw [htime]

theorem datagram_ack (xid : BitVec 32) (yi : Ip) (ch : Mac) :
    Reply.datagram c stack buf ip port xid (.ack yi ch (15 * 60)) =
      sendResponse stack buf ipBcast port xid (leaseAdrs c yi ch) (leaseOpts c 5 (15 * 60)) := by
  have htime : BitVec.ofNat 32 (15 * 60) = 15 * 60 := by decide
  unfold Reply.datagram
  dsimp only
  rw [htime]

theorem datagram_nak (xid : BitVec 32) (ch : Mac) :
    sent.datagram (Reply.datagram c stack buf ip port xid (.nak ch)) = sendResponseNAK c sent stack buf ip port xid ch := by
  unfold Reply.datagram sendResponseNAK
  dsimp only

/-- What a client is told by a reply. -/
def Reply.told (xid : BitVec 32) : Reply → Answer
  | .offer yi ch t => ⟨ipBcast, port, xid, c.ip, some (c.mask, c.gway), .offer yi ch (BitVec.ofNat 32 t).toNat⟩
  | .ack yi ch t => ⟨ipBcast, port, xid, c.ip, some (c.mask, c.gway), .ack yi ch (BitVec.ofNat 32 t).toNat⟩
  | .nak ch => ⟨if ip = 0 then ipBcast else ip, port, xid, c.ip, none, .nak ch⟩

/-- **Each reply goes out and comes in.** -/
theorem Reply.datagram_answer (xid : BitVec 32) (r : Reply) (rx : Mem) (p : Nat) :
    ∃ d, r.datagram c stack buf ip port xid = some d ∧ d.answer rx p = some (r.told c ip port xid) := by
  cases r with
  | offer yi ch t =>
      obtain ⟨d, hd, hanswer⟩ := sendResponse_answer stack rx buf p ipBcast port xid (leaseAdrs c yi ch)
        (plain_leaseOpts c 2 (.ofNat 32 t)) rfl (.inr rfl)
      exact ⟨d, hd, hanswer.trans rfl⟩
  | ack yi ch t =>
      obtain ⟨d, hd, hanswer⟩ := sendResponse_answer stack rx buf p ipBcast port xid (leaseAdrs c yi ch)
        (plain_leaseOpts c 5 (.ofNat 32 t)) rfl (.inr rfl)
      exact ⟨d, hd, hanswer.trans rfl⟩
  | nak ch =>
      obtain ⟨d, hd, hanswer⟩ := sendResponse_answer stack rx buf p (if ip = 0 then ipBcast else ip) port xid (nakAdrs c ch)
        plain_nakOpts rfl (.inl rfl)
      exact ⟨d, hd, hanswer.trans rfl⟩

theorem datagram_answers (xid : BitVec 32) (r : Option Reply) (rx : Mem) (p : Nat) :
    ((sent.datagram (r.bind (Reply.datagram c stack buf ip port xid))).map (Datagram.answer rx p)).toList =
      if sent = .failed then [] else (r.map fun r => some (r.told c ip port xid)).toList := by
  unfold Sent.datagram
  split
  case isTrue => rfl
  case isFalse =>
    cases r with
    | none => rfl
    | some r =>
        obtain ⟨d, hd, hanswer⟩ := r.datagram_answer c stack buf ip port xid rx p
        rw [Option.bind_some, hd, Option.map_some, Option.map_some, hanswer]

theorem processDiscoverFrame_eq (m : Mem) (frame : Nat) (adrs : AddrSet) (opts : OptSet) (recs : List Record) :
    processDiscoverFrame c now sent stack buf port m frame adrs recs =
      let r := processDiscover now (.parsed (getXID m frame) adrs opts) recs
      (sent.datagram (r.1.bind (Reply.datagram c stack buf ip port (getXID m frame))), r.2) := by
  unfold processDiscoverFrame processDiscover
  by_cases hch : adrs.addrflags .chaddr
  · have hmsg : (Msg.parsed (getXID m frame) adrs opts).ch = some adrs.ch := if_pos hch
    have hid : (Msg.parsed (getXID m frame) adrs opts).xid = getXID m frame := rfl
    rw [hmsg, hid]
    dsimp only
    by_cases hxid : getXID m frame = 0
    · rw [if_pos (.inl hxid), if_pos hxid]
      exact Prod.ext sent.datagram_none.symm rfl
    · rw [if_neg (not_or.2 ⟨hxid, Bool.not_eq_false _ ▸ hch⟩), if_neg hxid]
      rcases reserveAddress now adrs.ch recs with ⟨_ | ⟨i, yi⟩, recs'⟩
      · exact Prod.ext sent.datagram_none.symm rfl
      · dsimp only [Option.bind_some]
        rw [datagram_offer]
  · have hmsg : (Msg.parsed (getXID m frame) adrs opts).ch = none := if_neg hch
    rw [hmsg, if_pos (.inr (Bool.of_not_eq_true hch))]
    exact Prod.ext sent.datagram_none.symm rfl

theorem answer_eq {msg : Msg} {adrs : AddrSet} {reqAddr : Ip} (hch : msg.ch = some adrs.ch)
    (hreq : msg.reqAddr = some reqAddr) (hxid : msg.xid ≠ 0) (recs : List Record) :
    processRequestFrame.answer c now sent stack buf ip port adrs recs msg.xid reqAddr =
      let r := processRequest now msg sent recs
      (sent.datagram (r.1.bind (Reply.datagram c stack buf ip port msg.xid)), r.2) := by
  unfold processRequestFrame.answer processRequest
  rw [hch, hreq]
  dsimp only
  rw [if_neg hxid]
  cases (findRecord now (some adrs.ch) (some reqAddr) recs).1.bind fun i => recs[i]?.map fun r => (i, r) with
  | none =>
      dsimp only [Option.bind_some]
      rw [datagram_nak]
  | some x =>
      obtain ⟨i, r⟩ := x
      dsimp only
      by_cases hst : r.state = .offer ∨ r.state = .assigned
      · obtain ⟨data, hsend, -⟩ := sendResponse_reads stack buf ipBcast port msg.xid (leaseAdrs c r.ip adrs.ch)
          (plain_leaseOpts c 5 (15 * 60))
        rw [if_neg (not_not_intro hst), if_pos hst, hsend]
        cases sent with
        | failed => rfl
        | ok | okAfterReset =>
            dsimp only [Option.bind_some]
            rw [datagram_ack, hsend]
            rfl
      · rw [if_pos hst, if_neg hst]
        dsimp only [Option.bind_some]
        rw [datagram_nak]

theorem processRequestFrame_eq (m : Mem) (frame : Nat) (adrs : AddrSet) (opts : OptSet) (recs : List Record) :
    processRequestFrame c now sent stack buf ip port m frame adrs opts recs =
      let r := processRequest now (.parsed (getXID m frame) adrs opts) sent recs
      (sent.datagram (r.1.bind (Reply.datagram c stack buf ip port (getXID m frame))), r.2) := by
  unfold processRequestFrame
  by_cases hbad : getXID m frame = 0 ∨ adrs.addrflags .chaddr = false
  · rw [if_pos hbad]
    unfold processRequest Msg.parsed
    rcases hbad with hxid | hch
    · by_cases hch : adrs.addrflags .chaddr <;> cases h : Msg.reqAddr _ <;> simp [hxid, hch, Sent.datagram_none]
    · simp [hch, Sent.datagram_none]
  · rw [if_neg hbad]
    obtain ⟨hxid, hch⟩ := not_or.1 hbad
    have hmsg : (Msg.parsed (getXID m frame) adrs opts).ch = some adrs.ch := if_pos (Bool.of_not_eq_false hch)
    by_cases hci : adrs.addrflags .ciaddr
    · rw [if_pos hci]
      exact answer_eq c now sent stack buf ip port hmsg (by simp [Msg.reqAddr, Msg.parsed, hci]) hxid recs
    · rw [if_neg hci]
      by_cases hreq : opts.optflags .requestedIp
      · rw [if_pos hreq]
        exact answer_eq c now sent stack buf ip port hmsg (by simp [Msg.reqAddr, Msg.parsed, hci, hreq]) hxid recs
      · rw [if_neg hreq]
        unfold processRequest
        simp [Msg.reqAddr, Msg.parsed, hci, hreq, Sent.datagram_none]

/-- **What the server does with a datagram is what the record book does with the message in it.** -/
theorem input_eq (m : Mem) (ptr : Nat) (size : BitVec 32) (recs : List Record) :
    input c now sent stack buf ip port m ptr size recs =
      match decode m ptr size with
      | none => (none, recs)
      | some q =>
        let r := q.process now sent recs
        (sent.datagram (r.1.bind (Reply.datagram c stack buf ip port (getXID m ptr))), r.2) := by
  unfold input decode
  by_cases hmedium : getHType m ptr ≠ 1 ∨ getHLen m ptr ≠ 6
  · rw [if_pos hmedium, if_pos (hmedium.imp_right .inl)]
  · rw [if_neg hmedium]
    by_cases hop : getOP m ptr = 1
    · rw [if_neg (by tauto)]
      cases parseAddresses m ptr size .zero with
      | none => rfl
      | some adrs =>
          dsimp only [Option.bind_some]
          rcases parseOptions m (ptr + frameSize) (size - 240) .zero with ⟨_ | last, opts⟩
          · rfl
          · dsimp only
            by_cases hmsg : opts.optflags .msgtype = false
            · rw [if_pos hmsg, if_pos hmsg]
            · rw [if_neg hmsg, if_neg hmsg, if_pos hop]
              unfold process
              by_cases hdiscover : opts.msgType = 1
              · rw [if_pos hdiscover, if_pos hdiscover]
                exact processDiscoverFrame_eq c now sent stack buf ip port m ptr adrs opts recs
              · rw [if_neg hdiscover, if_neg hdiscover]
                by_cases hrequest : opts.msgType = 3
                · rw [if_pos hrequest, if_pos hrequest]
                  exact processRequestFrame_eq c now sent stack buf ip port m ptr adrs opts recs
                · rw [if_neg hrequest, if_neg hrequest]
    · rw [if_pos (.inr (.inr hop))]
      cases parseAddresses m ptr size .zero with
      | none => rfl
      | some adrs =>
          dsimp only
          rcases parseOptions m (ptr + frameSize) (size - 240) .zero with ⟨_ | last, opts⟩
          · rfl
          · dsimp only
            rw [if_neg hop, ite_self]

end

/-! ## Runs -/

/-- A datagram of `size` bytes at `ptr` that comes from `ip` and `port`, `dt` milliseconds after the last, and the stack
while it is answered. -/
structure Arrival where
  dt : Nat
  ip : Ip
  port : BitVec 16
  mem : Mem
  ptr : Nat
  size : BitVec 32
  config : IpConfig
  sent : Sent
  stack : Mem
  buf : Nat

inductive Heard where
  | datagram (a : Arrival)
  | reset

/-- The server: the time since start in milliseconds, and the record book. -/
structure Server where
  clock : Nat
  recs : List Record
deriving DecidableEq, Repr

def Arrival.input (a : Arrival) (clock : Nat) (recs : List Record) : Option Datagram × List Record :=
  DHCPSrv.input a.config (BitVec.ofNat 32 clock) a.sent a.stack a.buf a.ip a.port a.mem a.ptr a.size recs

/-- `dt` milliseconds pass, and the datagram is processed. -/
def hear (s : Server) : Heard → Option Server
  | .datagram a => some ⟨s.clock + a.dt, (a.input (s.clock + a.dt) s.recs).2⟩
  | .reset => some { s with recs := reset s.recs }

/-- What clients make of the bytes that the server sends, at `p` in their memory. -/
def Server.answers (rx : Mem) (p : Nat) (s : Server) : Heard → Server → List (Option Answer)
  | .datagram a, _ => ((a.input (s.clock + a.dt) s.recs).1.map (Datagram.answer rx p)).toList
  | .reset, _ => []

/-- The event of the record book. A datagram that the server does not take is a message without a client, which changes
nothing. -/
def Heard.event : Heard → Event
  | .datagram a =>
    match decode a.mem a.ptr a.size with
    | none => .discover a.dt ⟨0, none, none, none⟩
    | some (.discover m) => .discover a.dt m
    | some (.request m) => .request a.dt m a.sent
  | .reset => .reset

/-- The record book, message by message. -/
def Srv.hear (s : Srv) (e : Heard) : Option Srv := step s e.event

/-- The answers of the record book, where they can be sent. -/
def Srv.answers (s : Srv) : Heard → Srv → List (Option Answer)
  | .datagram a, _ =>
    if a.sent = .failed then []
    else
      match decode a.mem a.ptr a.size with
      | none => []
      | some q =>
        ((q.process (BitVec.ofNat 32 (s.clock + a.dt)) a.sent s.recs).1.map fun r =>
          some (r.told a.config a.ip a.port (getXID a.mem a.ptr))).toList
  | .reset, _ => []

/-- The server holds the time and the records of the record book. -/
structure Refines (s : Server) (b : Srv) : Prop where
  clock : s.clock = b.clock
  recs : s.recs = b.recs

theorem hear_simulates {s : Server} {b : Srv} (h : Refines s b) (rx : Mem) (p : Nat) (e : Heard) :
    ∃ s' b', hear s e = some s' ∧ b.hear e = some b' ∧ Refines s' b' ∧ s.answers rx p e s' = b.answers e b' := by
  cases e with
  | reset => exact ⟨_, _, rfl, rfl, ⟨h.clock, congrArg reset h.recs⟩, rfl⟩
  | datagram a =>
      have hclock : s.clock + a.dt = b.clock + a.dt := congrArg (· + a.dt) h.clock
      unfold hear Srv.hear Heard.event Server.answers Srv.answers Arrival.input
      dsimp only
      rw [input_eq, h.recs, hclock]
      cases decode a.mem a.ptr a.size with
      | none =>
          exact ⟨_, _, rfl, rfl, ⟨rfl, rfl⟩, (ite_self []).symm⟩
      | some q =>
          have hanswers := datagram_answers a.config a.sent a.stack a.buf a.ip a.port (getXID a.mem a.ptr)
            (q.process (BitVec.ofNat 32 (b.clock + a.dt)) a.sent b.recs).1 rx p
          cases q with
          | discover m => exact ⟨_, _, rfl, rfl, ⟨rfl, rfl⟩, hanswers⟩
          | request m => exact ⟨_, _, rfl, rfl, ⟨rfl, rfl⟩, hanswers⟩

theorem run_hear (b : Srv) (es : List Heard) : run Srv.hear b es = run step b (es.map Heard.event) := by
  induction es generalizing b with
  | nil => rfl
  | cons e es ih =>
      show (step b e.event).bind _ = (step b e.event).bind _
      simp only [ih]

theorem run_simulates {s : Server} {b : Srv} (h : Refines s b) (rx : Mem) (p : Nat) (es : List Heard) :
    ∃ s' b', run hear s es = some s' ∧ run Srv.hear b es = some b' ∧ Refines s' b' ∧
      trace hear (Server.answers rx p) s es = trace Srv.hear Srv.answers b es := by
  induction es generalizing s b with
  | nil => exact ⟨s, b, rfl, rfl, h, rfl⟩
  | cons e es ih =>
      obtain ⟨s', b', hs, hb, h', hout⟩ := hear_simulates h rx p e
      obtain ⟨s'', b'', hs', hb', h'', houts⟩ := ih h'
      refine ⟨s'', b'', (run_cons es hs).trans hs', (run_cons es hb).trans hb', h'', ?_⟩
      rw [trace_cons es hs, trace_cons es hb, hout, houts]

/-- **The server on the wire is the record book**: whatever datagrams come in, the records are those that the messages in
them make, and what clients make of the bytes that go out is what the record book answers. -/
theorem wire_refines (rx : Mem) (p : Nat) (es : List Heard) :
    ∃ s b, run hear ⟨0, start.recs⟩ es = some s ∧ run step start (es.map Heard.event) = some b ∧ Refines s b ∧
      trace hear (Server.answers rx p) ⟨0, start.recs⟩ es = trace Srv.hear Srv.answers start es := by
  obtain ⟨s, b, hs, hb, h, hout⟩ := run_simulates (s := ⟨0, start.recs⟩) (b := start) ⟨rfl, rfl⟩ rx p es
  exact ⟨s, b, hs, (run_hear start es).symm.trans hb, h, hout⟩

/-! ## The addresses that are given out -/

/-- The address that a reply gives to the client. -/
def Reply.address : Reply → Option Ip
  | .offer yi _ _ => some yi
  | .ack yi _ _ => some yi
  | .nak _ => none

/-- The message that is asked with. -/
def Request.msg : Request → Msg
  | .discover m => m
  | .request m => m

section Address

variable {now : BitVec 32} {m : Msg} {sent : Sent} {recs : List Record}

theorem Settled.modify (h : Settled recs) (i : Nat) {f : Record → Record}
    (hf : ∀ r, (f r).mac = r.mac ∧ (f r).ip = r.ip) : Settled (recs.modify i f) := by
  intro r hr
  obtain ⟨j, hj⟩ := List.mem_iff_getElem?.1 hr
  rw [List.getElem?_modify] at hj
  obtain ⟨q, hq, rfl⟩ := Option.map_eq_some_iff.1 hj
  have hset := h q (List.mem_of_getElem? hq)
  split
  · rw [(hf q).1, (hf q).2]
    exact hset
  · exact hset

theorem settled_reset (recs : List Record) : Settled (reset recs) := fun _ hr =>
  .inl ⟨congrArg Record.mac (mem_reset hr), congrArg Record.ip (mem_reset hr)⟩

theorem settled_processDiscover (h : Settled recs) : Settled (processDiscover now m recs).2 := by
  rw [processDiscover_eq h]
  split
  · exact h
  · intro r hr
    rcases List.mem_or_eq_of_mem_set hr with hr | rfl
    · exact h r hr
    · exact .inr rfl

theorem settled_processRequest (h : Settled recs) : Settled (processRequest now m sent recs).2 := by
  obtain ⟨reply, heq, -⟩ | ⟨i, r, -, -, -, heq⟩ := processRequest_cases now m sent recs
  · rw [heq]
    exact h
  · rw [heq]
    refine Settled.modify ?_ i fun r => ⟨rfl, rfl⟩
    split
    · exact settled_reset recs
    · exact h

theorem settled_hear {b b' : Srv} {e : Heard} (h : Settled b.recs) (hs : b.hear e = some b') : Settled b'.recs := by
  unfold Srv.hear at hs
  cases hev : e.event with
  | discover dt m =>
      rw [hev] at hs
      obtain rfl := Option.some.inj hs
      exact settled_processDiscover h
  | request dt m sent =>
      rw [hev] at hs
      obtain rfl := Option.some.inj hs
      exact settled_processRequest h
  | reset =>
      rw [hev] at hs
      obtain rfl := Option.some.inj hs
      exact settled_reset b.recs

theorem processDiscover_address (h : Settled recs) {r : Reply} (hr : (processDiscover now m recs).1 = some r) :
    r.address = some leaseIp := by
  unfold processDiscover at hr
  cases hch : m.ch with
  | none =>
      rw [hch] at hr
      cases hr
  | some ch =>
      rw [hch] at hr
      dsimp only at hr
      split at hr
      · cases hr
      · cases ht : target now ch recs with
        | none =>
            rw [reserveAddress_none ht] at hr
            cases hr
        | some i =>
            obtain ⟨recs', hres, -⟩ := reserveAddress_some h ht
            rw [hres] at hr
            obtain rfl := Option.some.inj hr
            rfl

/-- A REQUEST is answered with a NAK, or with an ACK of the address in a record of the client. -/
theorem processRequest_reply {r : Reply} (hr : (processRequest now m sent recs).1 = some r) :
    r.address = none ∨ ∃ q ∈ recs, m.ch = some q.mac ∧ r.address = some q.ip := by
  unfold processRequest at hr
  split at hr
  case h_2 => cases hr
  case h_1 ch reqAddr hch _ =>
    split at hr
    · cases hr
    · rw [findRecord_addr now (by simp)] at hr
      split at hr
      · obtain rfl := Option.some.inj hr
        exact .inl rfl
      · rename_i i q hfind
        obtain ⟨j, hj, hget⟩ := Option.bind_eq_some_iff.1 hfind
        obtain ⟨q', hq, heq⟩ := Option.map_eq_some_iff.1 hget
        obtain ⟨rfl, rfl⟩ := Prod.mk.inj heq
        obtain ⟨hlt, hmatch, -⟩ := List.findIdx?_eq_some_iff_getElem.1 hj
        have hmac : q'.mac = ch := by
          rw [← (List.getElem?_eq_some_iff.1 hq).2]
          simpa [eq_comm] using (of_decide_eq_true hmatch).1
        split at hr
        · cases sent with
          | failed => cases hr
          | ok | okAfterReset =>
              obtain rfl := Option.some.inj hr
              exact .inr ⟨q', List.mem_of_getElem? hq, hch.trans (congrArg some hmac.symm), rfl⟩
        · obtain rfl := Option.some.inj hr
          exact .inl rfl

theorem processRequest_address (h : Settled recs) (hch : m.ch ≠ some 0) {r : Reply}
    (hr : (processRequest now m sent recs).1 = some r) : ∀ yi ∈ r.address, yi = leaseIp := by
  intro yi hyi
  obtain hnone | ⟨q, hq, hmac, hip⟩ := processRequest_reply hr
  · rw [hnone] at hyi
    cases hyi
  · rw [hip] at hyi
    obtain rfl := Option.some.inj hyi
    exact (h q hq).resolve_left fun h0 => hch (h0.1 ▸ hmac)

theorem orFlag_other {n : Nat} (other flag : AddrFlag) (h : other ≠ flag) (flags : AddrFlag → Bool) (x : BitVec n) :
    orFlag flags flag x other = flags other := by
  unfold orFlag
  split
  · exact Function.update_of_ne h ..
  · rfl

/-- A hardware address that is found is not zero. -/
theorem parseAddresses_ch {mem : Mem} {ptr : Nat} {size : BitVec 32} {adrs : AddrSet}
    (h : parseAddresses mem ptr size .zero = some adrs) (hflag : adrs.addrflags .chaddr) : adrs.ch ≠ 0 := by
  unfold parseAddresses at h
  split at h
  · cases h
  · obtain rfl := Option.some.inj h
    intro hzero
    have hch : getCHAddr mem ptr = 0 := hzero
    have hnone : ∀ flags, orFlag flags .chaddr (0 : Mac) = flags := fun flags => if_neg (not_not_intro rfl)
    dsimp only at hflag
    rw [hch, hnone, orFlag_other .chaddr .giaddr (by decide), orFlag_other .chaddr .siaddr (by decide),
      orFlag_other .chaddr .yiaddr (by decide), orFlag_other .chaddr .ciaddr (by decide)] at hflag
    cases hflag

/-- The hardware address that a client asks with is not zero. -/
theorem decode_ch {mem : Mem} {ptr : Nat} {size : BitVec 32} {q : Request} (hq : decode mem ptr size = some q) :
    q.msg.ch ≠ some 0 := by
  unfold decode at hq
  split at hq
  · cases hq
  · obtain ⟨adrs, hadrs, hq⟩ := Option.bind_eq_some_iff.1 hq
    have hch : ∀ opts, (Msg.parsed (getXID mem ptr) adrs opts).ch ≠ some 0 := fun opts h0 => by
      unfold Msg.parsed at h0
      dsimp only at h0
      split at h0
      case isTrue hflag => exact parseAddresses_ch hadrs hflag (Option.some.inj h0)
      case isFalse => cases h0
    split at hq
    · cases hq
    · dsimp only at hq
      split at hq
      · cases hq
      · split at hq
        · obtain rfl := Option.some.inj hq
          exact hch _
        · split at hq
          · obtain rfl := Option.some.inj hq
            exact hch _
          · cases hq

theorem process_address (h : Settled recs) {mem : Mem} {ptr : Nat} {size : BitVec 32} {q : Request}
    (hq : decode mem ptr size = some q) {r : Reply} (hr : (q.process now sent recs).1 = some r) :
    ∀ yi ∈ r.address, yi = leaseIp := by
  cases q with
  | discover m => exact fun yi hyi => Option.some.inj (hyi.symm.trans (processDiscover_address h hr))
  | request m => exact processRequest_address h (decode_ch hq) hr

theorem answers_address {b : Srv} (h : Settled b.recs) (e : Heard) (b' : Srv) :
    ∀ x ∈ b.answers e b', ∃ a, x = some a ∧ ∀ yi ∈ a.reply.address, yi = leaseIp := by
  intro x hx
  cases e with
  | reset => cases hx
  | datagram a =>
      unfold Srv.answers at hx
      dsimp only at hx
      split at hx
      · cases hx
      · cases hq : decode a.mem a.ptr a.size with
        | none =>
            rw [hq] at hx
            cases hx
        | some q =>
            rw [hq] at hx
            obtain ⟨r, hr, rfl⟩ := Option.map_eq_some_iff.1 (Option.mem_toList.1 hx)
            have haddress := process_address h hq hr
            cases r with
            | offer yi ch t => exact ⟨_, rfl, haddress⟩
            | ack yi ch t => exact ⟨_, rfl, haddress⟩
            | nak ch => exact ⟨_, rfl, haddress⟩

end Address

/-- A list of answers, each of which could be read, is one of answers. -/
theorem exists_map_some {P : Answer → Prop} {xs : List (Option Answer)} (h : ∀ x ∈ xs, ∃ a, x = some a ∧ P a) :
    ∃ as : List Answer, xs = as.map some ∧ ∀ a ∈ as, P a := by
  induction xs with
  | nil => exact ⟨[], rfl, fun a ha => absurd ha List.not_mem_nil⟩
  | cons x xs ih =>
      obtain ⟨a, rfl, ha⟩ := h x List.mem_cons_self
      obtain ⟨as, rfl, has⟩ := ih fun x hx => h x (List.mem_cons_of_mem _ hx)
      exact ⟨a :: as, rfl, List.forall_mem_cons.2 ⟨ha, has⟩⟩

/-- **One address for all**: whatever datagrams come in, every one that goes out is an answer that a client can read, and an
address that it offers or acknowledges is the second one of the range. -/
theorem wire_addresses (rx : Mem) (p : Nat) (es : List Heard) :
    ∃ as : List Answer, trace hear (Server.answers rx p) ⟨0, start.recs⟩ es = as.map some ∧
      ∀ a ∈ as, ∀ yi ∈ a.reply.address, yi = leaseIp := by
  obtain ⟨s, b, -, -, -, hout⟩ := run_simulates (s := ⟨0, start.recs⟩) (b := start) ⟨rfl, rfl⟩ rx p es
  have hall : ∀ x ∈ trace Srv.hear Srv.answers start es, ∃ a, x = some a ∧ ∀ yi ∈ a.reply.address, yi = leaseIp :=
    forall_mem_trace (fun b e b' h hs => ⟨settled_hear h hs, answers_address h e b'⟩) inv_start.settled
  rw [hout]
  exact exists_map_some hall

end YieldStm32.DHCPSrv
