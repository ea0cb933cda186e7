import Mathlib.Data.List.Basic

/-!
# The DHCP server (`net/dhcp/src/server.c`)

The record book and the two messages that change it. A lookup walks the book and, when it looks for an empty record,
frees an expired one on the way; every other function is a pass over its result. `time(0)` is a parameter: one reading
for each message.
-/

namespace YieldStm32.DHCPSrv

/-- `tcpip_eth_addr_t` -/
abbrev Mac := BitVec 48

/-- `tcpip_ip_addr_t`, its `u32` -/
abbrev Ip := BitVec 32

/-- `DHCP_SRV_IP_RANGE_START`: 192.168.50.100 -/
def ipRangeStart : Ip := 0xc0a83264

/-- `DHCP_SRV_IP_RANGE_END` (exclusive): 192.168.50.110 -/
def ipRangeEnd : Ip := 0xc0a8326e

/-- `DHCP_SRV_RECORDBOOK_CAPACITY` -/
def recordbookCapacity : Nat := 4

/-- How long a record is kept, in milliseconds. -/
def recordLife : Nat := 15 * 60 * 1000

inductive RecState where
  | free
  | offer
  | assigned
deriving DecidableEq, Repr

/-- `dhcp_record_t` -/
structure Record where
  state : RecState
  ts : BitVec 32
  mac : Mac
  ip : Ip
deriving DecidableEq, Repr

/-- A zeroed record. -/
def Record.zero : Record := ⟨.free, 0, 0, 0⟩

/-- `r->state != STATE_FREE && dtime_now(r->ts) > 15 * 60 * 1000` -/
def Record.old (now : BitVec 32) (r : Record) : Bool :=
  decide (r.state ≠ .free) && decide ((recordLife : Int) < (now - r.ts).toInt)

/-- `TCPIPIpAddr_Next` -/
def nextIp (ip : Ip) : Ip := ip + 1

/-! ## `DHCPSrv_FindRecord` -/

/-- The record with the addresses given, or an empty one when none is given, and the book after the search. -/
def findRecord (now : BitVec 32) (ha : Option Mac) (ip : Option Ip) : List Record → Option Nat × List Record
  | [] => (none, [])
  | r :: rs =>
    let rest := findRecord now ha ip rs
    if ha = none ∧ ip = none then
      let r := if r.old now then { r with state := .free } else r
      if r.state = .free then (some 0, r :: rs) else (rest.1.map (· + 1), r :: rest.2)
    else if (ha = none ∨ ha = some r.mac) ∧ (ip = none ∨ ip = some r.ip) then (some 0, r :: rs)
    else (rest.1.map (· + 1), r :: rest.2)

/-! ## `DHCPSrv_ReserveAddress` -/

/-- The loop over the range: the address after the first one that is in no record. -/
def scan (now : BitVec 32) (recs : List Record) : Nat → Ip → Option Ip
  | 0, _ => none
  | n + 1, ip =>
    if ip = ipRangeEnd then none
    -- `found = 1` ends the loop, but only after `ip = TCPIPIpAddr_Next(ip)`
    else if (findRecord now none (some ip) recs).1 = none then some (nextIp ip)
    else scan now recs n (nextIp ip)

/-- The record to fill: the one with this MAC, else an empty one. -/
def recordFor (now : BitVec 32) (hw : Mac) (recs : List Record) : Option Nat × List Record :=
  match findRecord now (some hw) none recs with
  | (some i, recs) => (some i, recs)
  | (none, recs) => findRecord now none none recs

/-- The record reserved for `hw` and its address, and the book after the call. -/
def reserveAddress (now : BitVec 32) (hw : Mac) (recs : List Record) : Option (Nat × Ip) × List Record :=
  match (findRecord now (some hw) none recs).1.bind fun i => recs[i]?.map fun r => (i, r.ip) with
  | some (i, ip) =>
    if ip ≠ 0 then (some (i, ip), recs) else fill (recordFor now hw recs)
  | none => fill (recordFor now hw recs)
where
  fill : Option Nat × List Record → Option (Nat × Ip) × List Record
    | (none, recs) => (none, recs)
    | (some i, recs) =>
      match scan now recs (ipRangeEnd - ipRangeStart).toNat ipRangeStart with
      | none => (none, recs)
      | some ip => (some (i, ip), recs.modify i fun r => { r with ip := ip, mac := hw })

/-! ## Messages -/

/-- The parts of a parsed message the server looks at: `xid`, the flagged addresses and the requested one. -/
structure Msg where
  xid : BitVec 32
  ch : Option Mac
  ci : Option Ip
  reqIp : Option Ip
deriving DecidableEq, Repr

/-- A response: the message type, the address given and the lease time in seconds. -/
inductive Reply where
  | offer (yi : Ip) (ch : Mac) (leaseTime : Nat)
  | ack (yi : Ip) (ch : Mac) (leaseTime : Nat)
  | nak (ch : Mac)
deriving DecidableEq, Repr

/-- `DHCPSrv_ProcessDiscover` -/
def processDiscover (now : BitVec 32) (m : Msg) (recs : List Record) : Option Reply × List Record :=
  match m.ch with
  | none => (none, recs)
  | some ch =>
    if m.xid = 0 then (none, recs)
    else match reserveAddress now ch recs with
      | (none, recs) => (none, recs)
      | (some (i, ip), recs) =>
        (some (.offer ip ch (1 * 60)), recs.modify i fun r => { r with ts := now, state := .offer })

/-- The address a REQUEST is for: `ciaddr`, else the requested-ip option. -/
def Msg.reqAddr (m : Msg) : Option Ip := m.ci.orElse fun _ => m.reqIp

/-- `DHCPSrv_Reset` -/
def reset (recs : List Record) : List Record := recs.map fun _ => Record.zero

/-- How the sending of an ACK ends. It may yield, and a stack reset may run before it returns. -/
inductive Sent where
  | failed
  | ok
  | okAfterReset
deriving DecidableEq, Repr

/-- `DHCPSrv_ProcessRequest` -/
def processRequest (now : BitVec 32) (m : Msg) (sent : Sent) (recs : List Record) : Option Reply × List Record :=
  match m.ch, m.reqAddr with
  | some ch, some reqAddr =>
    if m.xid = 0 then (none, recs)
    else match (findRecord now (some ch) (some reqAddr) recs).1.bind fun i => recs[i]?.map fun r => (i, r) with
      | none => (some (.nak ch), recs)
      | some (i, r) =>
        if r.state = .offer ∨ r.state = .assigned then
          let update := fun r : Record => { r with state := .assigned, ts := now }
          match sent with
          | .failed => (none, recs)
          | .ok => (some (.ack r.ip ch (15 * 60)), recs.modify i update)
          | .okAfterReset => (some (.ack r.ip ch (15 * 60)), (reset recs).modify i update)
        else (some (.nak ch), recs)
  | _, _ => (none, recs)

end YieldStm32.DHCPSrv
