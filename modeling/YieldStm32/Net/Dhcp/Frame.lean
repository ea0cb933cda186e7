import Mathlib.Logic.Function.Basic
import YieldStm32.Net.Frame

/-!
# DHCP messages (`net/dhcp/frame.h`, `net/dhcp/src/frame.c`)

The address fields of the header, and the options: records of a code, a size and a payload, up to the end mark. Writers
and readers work on memory, from a pointer on; what is left of the buffer is a `size_t`.

* `renderAddresses`, `parseAddresses` : the fields of the header;
* `setRecord`, `getU32` : what the accessors of the single options have in common;
* `renderOptions`, `parseOptions` : the options.
-/

namespace YieldStm32.DHCPFrame

open Ring TCPIP

/-- The bytes that `HTOBE32` stores. -/
def be32Bytes (x : BitVec 32) : List UInt8 :=
  [.ofBitVec (x.extractLsb' 24 8), .ofBitVec (x.extractLsb' 16 8), .ofBitVec (x.extractLsb' 8 8),
    .ofBitVec (x.extractLsb' 0 8)]

/-- The bytes of a hardware address. -/
def macBytes (x : Mac) : List UInt8 :=
  be32Bytes (x.extractLsb' 16 32) ++ [.ofBitVec (x.extractLsb' 8 8), .ofBitVec (x.extractLsb' 0 8)]

/-! ## Addresses -/

/-- `dhcp_addrflags` -/
inductive AddrFlag where
  | ciaddr
  | yiaddr
  | siaddr
  | giaddr
  | chaddr
deriving DecidableEq, Repr

/-- `dhcp_addrset_t` -/
structure AddrSet where
  addrflags : AddrFlag → Bool
  ci : Ip
  yi : Ip
  si : Ip
  gi : Ip
  ch : Mac

/-- `sizeof(dhcp_frame_t)` -/
def frameSize : Nat := 240

/-- `DHCPFrame_SetCIAddr` -/
def setCIAddr (m : Mem) (frame : Nat) (ip : Ip) : Mem := copyIn m (frame + 12) (be32Bytes ip)

/-- `DHCPFrame_SetYIAddr` -/
def setYIAddr (m : Mem) (frame : Nat) (ip : Ip) : Mem := copyIn m (frame + 16) (be32Bytes ip)

/-- `DHCPFrame_SetSIAddr` -/
def setSIAddr (m : Mem) (frame : Nat) (ip : Ip) : Mem := copyIn m (frame + 20) (be32Bytes ip)

/-- `DHCPFrame_SetGIAddr` -/
def setGIAddr (m : Mem) (frame : Nat) (ip : Ip) : Mem := copyIn m (frame + 24) (be32Bytes ip)

/-- `DHCPFrame_SetCHAddr` -/
def setCHAddr (m : Mem) (frame : Nat) (ch : Mac) : Mem := copyIn m (frame + 28) (macBytes ch)

/-- `DHCPFrame_GetCIAddr` -/
def getCIAddr (m : Mem) (frame : Nat) : Ip := be32 m (frame + 12)

/-- `DHCPFrame_GetYIAddr` -/
def getYIAddr (m : Mem) (frame : Nat) : Ip := be32 m (frame + 16)

/-- `DHCPFrame_GetSIAddr` -/
def getSIAddr (m : Mem) (frame : Nat) : Ip := be32 m (frame + 20)

/-- `DHCPFrame_GetGIAddr` -/
def getGIAddr (m : Mem) (frame : Nat) : Ip := be32 m (frame + 24)

/-- `DHCPFrame_GetCHAddr` -/
def getCHAddr (m : Mem) (frame : Nat) : Mac := mac m (frame + 28)

/-- `DHCPFrame_RenderAddresses`, `none` where it returns `EFATAL` -/
def renderAddresses (m : Mem) (frame : Nat) (size : BitVec 32) (a : AddrSet) : Option Mem :=
  if size.toNat < frameSize then none
  else
    let m := setCIAddr m frame (if a.addrflags .ciaddr then a.ci else 0)
    let m := setYIAddr m frame (if a.addrflags .yiaddr then a.yi else 0)
    let m := setSIAddr m frame (if a.addrflags .siaddr then a.si else 0)
    let m := setGIAddr m frame (if a.addrflags .giaddr then a.gi else 0)
    some (setCHAddr m frame (if a.addrflags .chaddr then a.ch else 0))

/-- `addrflags |= flag`, where the address is not zero -/
def orFlag {w : Nat} (flags : AddrFlag → Bool) (flag : AddrFlag) (x : BitVec w) : AddrFlag → Bool :=
  if x ≠ 0 then Function.update flags flag true else flags

/-- `DHCPFrame_ParseAddresses` -/
def parseAddresses (m : Mem) (frame : Nat) (size : BitVec 32) (a : AddrSet) : Option AddrSet :=
  if size.toNat < frameSize then none
  else
    let a := { a with ci := getCIAddr m frame, addrflags := orFlag a.addrflags .ciaddr (getCIAddr m frame) }
    let a := { a with yi := getYIAddr m frame, addrflags := orFlag a.addrflags .yiaddr (getYIAddr m frame) }
    let a := { a with si := getSIAddr m frame, addrflags := orFlag a.addrflags .siaddr (getSIAddr m frame) }
    let a := { a with gi := getGIAddr m frame, addrflags := orFlag a.addrflags .giaddr (getGIAddr m frame) }
    some { a with ch := getCHAddr m frame, addrflags := orFlag a.addrflags .chaddr (getCHAddr m frame) }

/-! ## Options -/

/-- `dhcp_optflags` -/
inductive OptFlag where
  | msgtype
  | subnet
  | router
  | dnsServers
  | requestedIp
  | leaseTime
  | dhcpServer
  | reqParamList
  | end
deriving DecidableEq, Repr

/-- `dhcp_optset_t`. `dns` has three elements, `reqList` 32; their enumerations are one byte wide. -/
structure OptSet where
  optflags : OptFlag → Bool
  msgType : UInt8
  subnet : Ip
  router : Ip
  server : Ip
  dns : Nat → Ip
  dnsCnt : Nat
  leaseTime : BitVec 32
  reqList : Nat → UInt8
  reqListCnt : Nat
  reqIp : Ip

/-- `optflags |= flag` -/
def OptSet.mark (flag : OptFlag) (o : OptSet) : OptSet := { o with optflags := Function.update o.optflags flag true }

/-- A writer: memory, a pointer and the room there; `none` in place of a pointer where it does not fit. -/
abbrev Writer := Mem → Nat → BitVec 32 → Mem × Option Nat

/-- A record of a payload with a size of its own. -/
def setRecord (option : UInt8) (pld : List UInt8) : Writer := fun m p size =>
  if size.toNat < 2 + pld.length then (m, none)
  else (copyIn m p (option :: .ofNat pld.length :: pld), some (p + 2 + pld.length))

/-- `DHCPFrameOpt_SetMessageType` -/
def setMessageType (t : UInt8) : Writer := setRecord 53 [t]

/-- `DHCPFrameOpt_SetSubnetMask` -/
def setSubnetMask (ip : Ip) : Writer := setRecord 1 (be32Bytes ip)

/-- `DHCPFrameOpt_SetRouterIP` -/
def setRouterIP (ip : Ip) : Writer := setRecord 3 (be32Bytes ip)

/-- `DHCPFrameOpt_SetRequestedIP` -/
def setRequestedIP (ip : Ip) : Writer := setRecord 50 (be32Bytes ip)

/-- `DHCPFrameOpt_SetLeaseTime` -/
def setLeaseTime (seconds : BitVec 32) : Writer := setRecord 51 (be32Bytes seconds)

/-- `DHCPFrameOpt_SetDHCPServerIP` -/
def setDHCPServerIP (ip : Ip) : Writer := setRecord 54 (be32Bytes ip)

/-- `DHCPFrameOpt_SetParameterRequestList` -/
def setParameterRequestList (list : Nat → UInt8) (cnt : Nat) : Writer := setRecord 55 ((List.range cnt).map list)

/-- `DHCPFrameOpt_SetDNSServerIP`: there must be room for the header only, and the record is as long as its size field
says. -/
def setDNSServerIP (ips : Nat → Ip) (count : Nat) : Writer := fun m p size =>
  if size.toNat < 2 then (m, none)
  else
    let len := UInt8.ofNat (count * 4)
    (copyIn m p (6 :: len :: (List.range count).flatMap fun i => be32Bytes (ips i)), some (p + 2 + len.toNat))

/-- `DHCPFrameOpt_SetOptionsEnd` -/
def setOptionsEnd : Writer := fun m p size => if size.toNat < 1 then (m, none) else (copyIn m p [0xff], some (p + 1))

/-- One statement of `DHCPFrame_RenderOptions`: nothing is written after an error. -/
def put (ptr : Nat) (size : BitVec 32) (flag : Bool) (set : Writer) (s : Mem × Option Nat) : Mem × Option Nat :=
  match s.2 with
  | none => s
  | some p => if flag then set s.1 p (size - BitVec.ofNat 32 (p - ptr)) else s

/-- `DHCPFrame_RenderOptions`, for a pointer that is not null -/
def renderOptions (m : Mem) (ptr : Nat) (size : BitVec 32) (o : OptSet) : Mem × Option Nat :=
  let s := (m, some ptr)
  let s := put ptr size (o.optflags .msgtype) (setMessageType o.msgType) s
  let s := put ptr size (o.optflags .subnet) (setSubnetMask o.subnet) s
  let s := put ptr size (o.optflags .router) (setRouterIP o.router) s
  let s := put ptr size (o.optflags .dnsServers) (setDNSServerIP o.dns o.dnsCnt) s
  let s := put ptr size (o.optflags .requestedIp) (setRequestedIP o.reqIp) s
  let s := put ptr size (o.optflags .leaseTime) (setLeaseTime o.leaseTime) s
  let s := put ptr size (o.optflags .dhcpServer) (setDHCPServerIP o.server) s
  let s := put ptr size (o.optflags .reqParamList) (setParameterRequestList o.reqList o.reqListCnt) s
  put ptr size (o.optflags .end) setOptionsEnd s

/-- `DHCPFrameOpt_GetOptionHdr`: the code and the next record. -/
def getOptionHdr (m : Mem) (p : Nat) (size : BitVec 32) : Option (UInt8 × Nat) :=
  if size.toNat < 2 ∨ size.toNat < 2 + (m (p + 1)).toNat then none
  else if m p = 0xff then none
  else some (m p, p + 2 + (m (p + 1)).toNat)

/-- `DHCPFrameOpt_GetMessageType` -/
def getMessageType (m : Mem) (p : Nat) : Option UInt8 := if m p ≠ 53 ∨ m (p + 1) ≠ 1 then none else some (m (p + 2))

/-- A record of four bytes. -/
def getU32 (option : UInt8) (m : Mem) (p : Nat) : Option (BitVec 32) :=
  if m p ≠ option ∨ m (p + 1) ≠ 4 then none else some (be32 m (p + 2))

/-- `DHCPFrameOpt_GetRequestedIP` -/
def getRequestedIP (m : Mem) (p : Nat) : Option Ip := getU32 50 m p

/-- `DHCPFrameOpt_GetSubnetMask` -/
def getSubnetMask (m : Mem) (p : Nat) : Option Ip := getU32 1 m p

/-- `DHCPFrameOpt_GetRouterIP` -/
def getRouterIP (m : Mem) (p : Nat) : Option Ip := getU32 3 m p

/-- `DHCPFrameOpt_GetLeaseTime` -/
def getLeaseTime (m : Mem) (p : Nat) : Option (BitVec 32) := getU32 51 m p

/-- `DHCPFrameOpt_GetDHCPServerIP` -/
def getDHCPServerIP (m : Mem) (p : Nat) : Option Ip := getU32 54 m p

/-- `DHCPFrameOpt_GetDNSServerIP` -/
def getDNSServerIP (m : Mem) (p index : Nat) : Option Ip :=
  if m p ≠ 6 ∨ (m (p + 1)).toNat % 4 ≠ 0 then none
  else if (m (p + 1)).toNat ≤ index * 4 then none
  else some (be32 m (p + 2 + index * 4))

/-- `DHCPFrameOpt_GetParameterRequestList` -/
def getParameterRequestList (m : Mem) (p index : Nat) : Option UInt8 :=
  if m p ≠ 55 ∨ (m (p + 1)).toNat ≤ index then none else some (m (p + 2 + index))

/-- The loops over the elements of a record: the array, and how many elements were read. -/
def readList {α : Type} (get : Nat → Option α) (n : Nat) (arr : Nat → α) : (Nat → α) × Nat :=
  (List.range n).foldl (fun s i => match get i with
    | some x => (Function.update s.1 i x, s.2 + 1)
    | none => s) (arr, 0)

/-- The switch of `DHCPFrame_ParseOptions`. -/
def parseOption (m : Mem) (p : Nat) (code : UInt8) (o : OptSet) : OptSet :=
  if code = 53 then (getMessageType m p).elim o fun t => { o with msgType := t }.mark .msgtype
  else if code = 50 then (getRequestedIP m p).elim o fun ip => { o with reqIp := ip }.mark .requestedIp
  else if code = 1 then (getSubnetMask m p).elim o fun ip => { o with subnet := ip }.mark .subnet
  else if code = 3 then (getRouterIP m p).elim o fun ip => { o with router := ip }.mark .router
  else if code = 51 then (getLeaseTime m p).elim o fun s => { o with leaseTime := s }.mark .leaseTime
  else if code = 6 then
    let dns := readList (getDNSServerIP m p) 3 o.dns
    let o := { o with dns := dns.1, dnsCnt := dns.2 }
    if o.dnsCnt ≠ 0 then o.mark .dnsServers else o
  else if code = 54 then (getDHCPServerIP m p).elim o fun ip => { o with server := ip }.mark .dhcpServer
  else if code = 55 then
    let list := readList (getParameterRequestList m p) 32 o.reqList
    let o := { o with reqList := list.1, reqListCnt := list.2 }
    if o.reqListCnt ≠ 0 then o.mark .reqParamList else o
  -- unsupported option
  else o

/-- The loop of `DHCPFrame_ParseOptions`, for up to `n` records. -/
def parseLoop (m : Mem) (ptr : Nat) (size : BitVec 32) : Nat → Nat → OptSet → Option Nat × OptSet
  | 0, _, o => (none, o)
  | n + 1, p, o =>
    if m p = 0xff then (some (p + 1), o.mark .end)
    else
      match getOptionHdr m p (size - BitVec.ofNat 32 (p - ptr)) with
      | none => (none, o)
      | some (code, next) => parseLoop m ptr size n next (parseOption m p code o)

/-- `DHCPFrame_ParseOptions`: a record has two bytes or more. -/
def parseOptions (m : Mem) (ptr : Nat) (size : BitVec 32) (o : OptSet) : Option Nat × OptSet :=
  let o := { o with optflags := fun _ => false }
  if size = 0 then (none, o) else parseLoop m ptr size size.toNat ptr o

/-- What is left of an area behind its first bytes. -/
theorem room_behind (size : BitVec 32) {n : Nat} (h : n ≤ size.toNat) :
    (size - BitVec.ofNat 32 n).toNat = size.toNat - n := by
  have := size.isLt
  bv_omega

/-- The rounds of `parseOptions` are enough: with more of them the loop ends the same. -/
theorem parseLoop_ends {m : Mem} {ptr p n : Nat} {size : BitVec 32} {o : OptSet} (hp : ptr ≤ p)
    (hle : p - ptr ≤ size.toNat) (hn : size.toNat < p - ptr + 2 * n) (k : Nat) :
    parseLoop m ptr size (n + k) p o = parseLoop m ptr size n p o := by
  induction n generalizing p o with
  | zero => omega
  | succ n ih =>
      have hroom := room_behind size (n := p - ptr) (by omega)
      rw [Nat.succ_add, parseLoop, parseLoop]
      split
      · rfl
      · cases hh : getOptionHdr m p (size - BitVec.ofNat 32 (p - ptr)) with
        | none => rfl
        | some r =>
            obtain ⟨code, next⟩ := r
            unfold getOptionHdr at hh
            split at hh
            case isTrue => cases hh
            obtain ⟨-, rfl⟩ := Prod.mk.inj (Option.some.inj hh)
            exact ih (by omega) (by omega) (by omega)

end YieldStm32.DHCPFrame
