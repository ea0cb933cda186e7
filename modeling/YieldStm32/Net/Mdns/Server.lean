import YieldStm32.Lib.Traced
import YieldStm32.Net.Dhcp.Frame
import YieldStm32.Net.Mdns.Frame
import YieldStm32.Util.Stdio

/-!
# The mDNS server (`net/mdns/src/server.c`)

A message is its size and the memory from its start on. The functions note each byte of the message that they read, and
each byte that they write into `qname` and into `rsps`. Names are decoded in at most `k` passes of the loop: `none`
where more are needed.

* `findRecord`, `renderAnswerA`, `processQuestion` : the records of the device, an answer, a question;
* `input` : a message, with the response that is handed to the socket.
-/

namespace YieldStm32.MDNSSrv

open Ring TCPIP DHCPFrame Mdns

/-- A byte of the message is read, or one of a buffer is written. -/
inductive Note where
  | message (i : Nat)
  | qname (i : Nat)
  | rsps (i : Nat)

/-- The address of the device, and what is on the stack where the buffers lie. -/
structure Host where
  ip : Ip
  qname : Mem
  rsps : Mem

/-! ## Fields -/

/-- `BETOH16` of the field at `p`. -/
def field16 (m : Mem) (p : Nat) : Traced Note (BitVec 16) := .notes [.message p, .message (p + 1)] (be16 m p)

/-- The bytes that `HTOBE16` stores. -/
def be16Bytes (x : BitVec 16) : List UInt8 := [.ofBitVec (x.extractLsb' 8 8), .ofBitVec (x.extractLsb' 0 8)]

/-- Bytes are written into `rsps`. -/
def store (rsps : Mem) (p : Nat) (bs : List UInt8) : Traced Note Mem :=
  .notes ((List.range' p bs.length).map .rsps) (copyIn rsps p bs)

/-- `MDNS_RECORD_TYPE_A` -/
def typeA : BitVec 16 := 1

/-- `MDNS_RECORD_CLASS_IA` -/
def classIA : BitVec 16 := 1

/-- `MDNS_FRAME_HDR_FLAGS_QR` -/
def flagsQr : BitVec 16 := 0x8000

/-- `MDNS_FRAME_HDR_FLAGS_OPCODE` -/
def flagsOpcode : BitVec 16 := 0x7800

/-! ## Records -/

/-- `mdns_record_t` -/
structure Record where
  type : BitVec 16
  ip : Ip
  name : List UInt8

/-- `MDNS_SRV_DEVICE_NAME` -/
def deviceName : List UInt8 := Stdio.ascii "stm32.local"

def records : List Record := [⟨typeA, 0, deviceName⟩]

/-- `strcmp`, from `s1 + i` on -/
def strcmp (s1 : Mem) : Nat → List UInt8 → Int
  | i, [] => (s1 i).toNat
  | i, c :: s2 => if s1 i ≠ 0 ∧ s1 i = c then strcmp s1 (i + 1) s2 else ((s1 i).toNat : Int) - c.toNat

/-- `MDNSSrv_FindRecord` -/
def findRecord (type : BitVec 16) (name : Mem) : Option Record :=
  records.find? fun r => r.type = type ∧ strcmp name 0 r.name = 0

/-! ## Answers -/

/-- `MDNSSrv_SendResponse`: the frame that is sent. -/
def sendResponse (transactionId rcode answersCnt : BitVec 16) (rsps : Mem) (rspsSize : Nat) : Option (List UInt8) :=
  if 512 < rspsSize + 12 then none
  else
    some (be16Bytes transactionId ++ be16Bytes (0x8000 ||| rcode) ++ be16Bytes 0 ++ be16Bytes answersCnt ++ be16Bytes 0 ++
      be16Bytes 0 ++ copyOut rsps 0 rspsSize)

/-- `MDNSFrame_EncodeName` at `p`. Each pass of its loop takes a byte of the name. -/
def encode (rsps : Mem) (p size : Nat) (name : List UInt8) : Traced Note (Option Int × Mem) :=
  let (ec, e) := encodeName name (fun i => rsps (p + i)) size (name.length + 1)
  .notes (e.log.map fun i => .rsps (p + i)) (ec, fun i => if i < p then rsps i else e.dst (i - p))

/-- `MDNSSrv_RenderAnswerA`: the pointer to after the record. -/
def renderAnswerA (ip : Ip) (rsps : Mem) (p size : Nat) (rec : Record) : Traced Note (Option Nat × Mem) := do
  let (ec, rsps) ← encode rsps p size rec.name
  match ec with
  | none => pure (none, rsps)
  | some ec =>
      if ec < 0 then pure (none, rsps)
      else if size < ec.toNat + 10 + 4 then pure (none, rsps)
      else do
        let fields := be16Bytes typeA ++ be16Bytes classIA ++ be32Bytes 60 ++ be16Bytes 4
        let rdata := be32Bytes (if rec.ip = 0 then ip else rec.ip)
        let rsps ← store rsps (p + ec.toNat) (fields ++ rdata)
        pure (some (p + ec.toNat + 10 + 4), rsps)

/-! ## Questions -/

/-- `MDNSFrame_DecodeName` into `qname`. -/
def decode (m : Mem) (n k p : Nat) (qname : Mem) : Traced Note (Option Int × Mem) :=
  let (ec, c) := decodeName m n p 255 qname k
  .notes (c.log.map fun
    | .read i => .message i
    | .write i => .qname i) (ec, c.dst)

/-- What `MDNSSrv_ProcessQuestion` returns and leaves: the pointer to the next question, `*rsp` and `*rsp_count`. -/
structure Processed where
  next : Option Nat
  rsp : Option Nat
  rsps : Mem
  rspCount : Nat

/-- `MDNSSrv_ProcessQuestion` -/
def processQuestion (h : Host) (m : Mem) (n k p r size : Nat) (rsps : Mem) : Traced Note (Option Processed) := do
  let (ec, qname) ← decode m n k p h.qname
  match ec with
  | none => pure none
  | some ec =>
      if ec < 0 then pure (some ⟨none, some r, rsps, 0⟩)
      else do
        let p := p + ec.toNat
        let cls ← field16 m (p + 2)
        if cls ≠ classIA then pure (some ⟨none, some r, rsps, 0⟩)
        else do
          let qtype ← field16 m p
          match findRecord qtype qname with
          | none => pure (some ⟨some (p + 4), some r, rsps, 0⟩)
          | some rec =>
              if qtype = typeA then do
                let (r', rsps) ← renderAnswerA h.ip rsps r size rec
                pure (some ⟨some (p + 4), r', rsps, if r'.isSome then 1 else 0⟩)
              -- `assert(0, ...)`: there is no such record
              else pure (some ⟨some (p + 4), some r, rsps, 1⟩)

/-- The loop of `MDNSSrv_Input`, for the questions that are left: `rsps`, `r` and `rtotal`, or an error. -/
def questions (h : Host) (m : Mem) (n k : Nat) :
    Nat → Nat → Nat → Mem → Nat → Traced Note (Option (Option (Mem × Nat × Nat)))
  | 0, _, r, rsps, rtotal => pure (some (some (rsps, r, rtotal)))
  | q + 1, p, r, rsps, rtotal => do
      match ← processQuestion h m n k p r (256 - r) rsps with
      | none => pure none
      | some ⟨some p, some r, rsps, rnum⟩ => questions h m n k q p r rsps (rtotal + rnum)
      | some _ => pure (some none)

/-- `MDNSSrv_Input`: the response, if there is one. -/
def input (h : Host) (m : Mem) (n k : Nat) : Traced Note (Option (Option (List UInt8))) := do
  let transactionId ← field16 m 0
  let flags ← field16 m 2
  if flags &&& flagsQr ≠ 0 then pure (some none)
  else if flags &&& flagsOpcode ≠ 0 then pure (some none)
  else do
    let qnum ← field16 m 4
    match ← questions h m n k qnum.toNat 12 0 h.rsps 0 with
    | none => pure none
    | some none => pure (some none)
    | some (some (rsps, r, rtotal)) =>
        if rtotal = 0 then pure (some none)
        else pure (some (sendResponse transactionId 0 (BitVec.ofNat 16 rtotal) rsps r))

end YieldStm32.MDNSSrv
