import Mathlib.Data.Nat.ModEq
import YieldStm32.Lib.Ring

/-!
# WebSocket frames (`net/websocket/src/websocket.c`, `net/uhttpsrv/src/ws.c`)

Reception and transmission of frames over a TCP socket. The two files have the same functions but for one test in the
header's error path and the roles: a server inside the HTTP daemon is never a client.

* `Env`, `Sock` : what the TCP layer makes of each call, and the socket;
* `recvHeader`, `recvPayload`, `sendHeader`, `sendPayload` : the parts of a frame;
* `webSocketRecv`, `uhttpSrvWSRecv` : one call of `WebSocket_Recv`, `UHTTPSrvWS_Recv`;
* `readFrame` : consecutive calls, until the frame is read.
-/

namespace YieldStm32

namespace WebSocket

def efatal : Int := -1
def enoconnect : Int := -11

/-! ## The TCP layer -/

/-- What is outside of the frame code: how much each receive returns, what becomes of each send, what the stack holds
before a header is received into it, and the clock. -/
structure Env where
  /-- The `i`-th receive returns up to `splits i + 1` bytes of those it is asked for. -/
  splits : Nat → Nat
  /-- The error reported when no bytes are left. -/
  fail : Int
  /-- The `i`-th send takes everything, or some bytes before it fails. -/
  refuse : Nat → Option (Nat × Int)
  junk : Nat → Nat → UInt8
  clock : Nat → BitVec 32

/-- The bytes still to be received, the bytes sent, and how many calls there were. -/
structure Sock where
  incoming : List UInt8
  recvs : Nat := 0
  wire : List UInt8 := []
  sends : Nat := 0

/-- `TCPIPTcpSock_Recv` -/
def Sock.recv (env : Env) (t : Sock) (size : Nat) : Except Int (List UInt8) × Sock :=
  let n := min (env.splits t.recvs + 1) (min size t.incoming.length)
  if size ≠ 0 ∧ n = 0 then
    (.error env.fail, { t with recvs := t.recvs + 1 })
  else
    (.ok (t.incoming.take n), { t with incoming := t.incoming.drop n, recvs := t.recvs + 1 })

/-- `TCPIPTcpSock_Send` -/
def Sock.send (env : Env) (t : Sock) (bytes : List UInt8) : Except Int Nat × Sock :=
  match env.refuse t.sends with
  | none => (.ok bytes.length, { t with wire := t.wire ++ bytes, sends := t.sends + 1 })
  | some (k, ec) => (.error ec, { t with wire := t.wire ++ bytes.take k, sends := t.sends + 1 })

/-! ## Headers -/

inductive Role where
  | server
  | client
deriving DecidableEq, Repr

abbrev Mask := Fin 4 → UInt8

/-- `websocket_t`, `uhttp_ws_t`: the part frames use. -/
structure Conn where
  isOpen : Bool
  rxSize : Nat
  rxOffs : Nat
  rxOpcode : Nat
  mask : Mask
  role : Role

/-- `ws->rx_size - ws->rx_offs` -/
def Conn.left (ws : Conn) : Nat := (ws.rxSize + 2 ^ 32 - ws.rxOffs) % 2 ^ 32

def hdrFin : Nat := 0x8000
def hdrOpcode : Nat := 0x0f00
def opcodeText : Nat := 0x0100
def opcodeBin : Nat := 0x0200
def opcodeClose : Nat := 0x0800
def opcodePing : Nat := 0x0900
def opcodePong : Nat := 0x0a00
def hdrMasked : Nat := 0x0080
def hdrPldLen : Nat := 0x007f

/-- The `n` bytes at `i`, most significant first. -/
def bigEndian (pld : Nat → UInt8) (i : Nat) : Nat → Nat
  | 0 => 0
  | n + 1 => bigEndian pld i n * 256 + (pld (i + n)).toNat

/-- A number in `n` bytes, most significant first. -/
def bytesBE : Nat → Nat → List UInt8
  | 0, _ => []
  | n + 1, x => bytesBE n (x / 256) ++ [UInt8.ofNat x]

/-- `bytes_to_get`: the mask, and the size where it has a field of its own: two bytes, or four of its eight. -/
def bytesToGet (hdr : Nat) : Nat :=
  (if hdr &&& hdrMasked ≠ 0 then 4 else 0) +
    if hdr &&& hdrPldLen < 126 then 0 else if hdr &&& hdrPldLen = 126 then 2 else 4

/-- The size and the mask out of `pld`, 14 bytes of stack with the union at offset 2. -/
def Conn.takeHeader (ws : Conn) (hdr : Nat) (pld : Nat → UInt8) : Conn :=
  let decodedSize := hdr &&& hdrPldLen
  let maskPtr := if decodedSize = 126 then 4 else if decodedSize = 127 then 10 else 2
  { ws with
    rxSize :=
      if decodedSize = 126 then bigEndian pld 2 2
      else if decodedSize = 127 then bigEndian pld 2 8 % 2 ^ 32
      else ws.rxSize
    mask := if hdr &&& hdrMasked ≠ 0 then fun i => pld (maskPtr + i) else ws.mask }

/-- `WebSocket_RecvHeader`, `UHTTPSrvWS_RecvHeader` -/
def recvHeader (env : Env) (ws : Conn) (t : Sock) : Except Int Nat × Conn × Sock :=
  match t.recv env 2 with
  | (.error ec, t1) => (.error ec, ws, t1)
  | (.ok bs, t1) =>
      let pld := Ring.copyIn (env.junk t.recvs) 0 bs
      let hdr := bigEndian pld 0 2
      if (ws.role = .server ∧ hdr &&& hdrMasked = 0) ∨ (ws.role = .client ∧ hdr &&& hdrMasked ≠ 0) then
        (.error efatal, ws, t1)
      else
        let ws1 := if hdr &&& hdrPldLen < 126 then { ws with rxSize := hdr &&& hdrPldLen } else ws
        match t1.recv env (bytesToGet hdr) with
        | (.error ec, t2) => (.error ec, ws1, t2)
        | (.ok bs, t2) => (.ok hdr, ws1.takeHeader hdr (Ring.copyIn pld 2 bs), t2)

/-- `WebSocket_SendHeader`, `UHTTPSrvWS_SendHeader` -/
def sendHeader (env : Env) (ws : Conn) (t : Sock) (hdr size : Nat) : Except Int Nat × Conn × Sock :=
  let len := if size < 126 then size else if size < 0xffff then 126 else 127
  let hdr := hdr ||| hdrFin ||| len
  let field := if size < 126 then [] else if size < 0xffff then bytesBE 2 size else bytesBE 8 size
  match ws.role with
  | .client =>
      let now := env.clock t.sends
      let ws := { ws with mask := fun i => UInt8.ofNat (now.toNat / 256 ^ (i : Nat)) }
      let r := t.send env (bytesBE 2 (hdr ||| hdrMasked) ++ field ++ List.ofFn ws.mask)
      (r.1, ws, r.2)
  | .server =>
      let r := t.send env (bytesBE 2 hdr ++ field)
      (r.1, ws, r.2)

/-! ## Payloads -/

/-- Bytes combined with the mask, the first of them with its byte `p % 4`. -/
def applyMask (mask : Mask) (p : Nat) (xs : List UInt8) : List UInt8 :=
  xs.mapIdx fun i x => x ^^^ mask (Fin.ofNat 4 (p + i))

/-- The loop of `WebSocket_RecvPayload`, `UHTTPSrvWS_RecvPayload`; `out` is what was stored. -/
def recvPayloadLoop (env : Env) (ws : Conn) (size : Nat) :
    Nat → List UInt8 → Sock → Except Int (List UInt8) × Sock
  | 0, out, t => (.ok out, t)
  | fuel + 1, out, t =>
      if out.length < size then
        match t.recv env (min 32 (size - out.length)) with
        | (.error ec, t1) => (.error ec, t1)
        | (.ok buf, t1) =>
            let buf := if ws.role = .server then applyMask ws.mask 0 buf else buf
            recvPayloadLoop env ws size fuel (out ++ buf) t1
      else (.ok out, t)

def recvPayload (env : Env) (ws : Conn) (size : Nat) (t : Sock) : Except Int (List UInt8) × Sock :=
  recvPayloadLoop env ws size size [] t

/-- The loop of `WebSocket_SendPayload`. -/
def sendPayloadLoop (env : Env) (ws : Conn) (ptr : List UInt8) : Nat → Nat → Sock → Except Int Nat × Sock
  | 0, offs, t => (.ok offs, t)
  | fuel + 1, offs, t =>
      if offs < ptr.length then
        let buf := (ptr.drop offs).take 32
        let buf := if ws.role = .client then applyMask ws.mask 0 buf else buf
        match t.send env buf with
        | (.error ec, t1) => (.error ec, t1)
        | (.ok n, t1) => sendPayloadLoop env ws ptr fuel (offs + n) t1
      else (.ok offs, t)

def sendPayload (env : Env) (ws : Conn) (ptr : List UInt8) (t : Sock) : Except Int Nat × Sock :=
  sendPayloadLoop env ws ptr ptr.length 0 t

/-! ## Calls -/

inductive DataType where
  | text
  | bin
deriving DecidableEq, Repr

/-- What becomes of a call before its `switch`. -/
inductive Header where
  | ready
  | again
  | stop (ec : Int)

/-- The part of a call up to the `switch`: a header if one is needed; on an error, the end or a ping. `http` is the one
test that `UHTTPSrvWS_Recv` has and `WebSocket_Recv` has not; no ping is ever counted. -/
def nextHeader (http : Bool) (env : Env) (timeout : Int) (pongCnt : Nat) (ws : Conn) (t : Sock) :
    Header × Conn × Sock :=
  if ws.rxSize = ws.rxOffs then
    let hdrTo := if timeout ≠ 0 then min timeout 1000 else 1000
    match recvHeader env ws t with
    | (.ok hdr, ws, t) => (.ready, { ws with rxOpcode := hdr &&& hdrOpcode, rxOffs := 0 }, t)
    | (.error ec, ws, t) =>
        if (http ∧ ec = enoconnect) ∨ hdrTo < 1000 ∨ 0 > pongCnt + 3 then (.stop ec, ws, t)
        else
          match sendHeader env ws t opcodePing 0 with
          | (.error ec, ws, t) => (.stop ec, ws, t)
          | (.ok _, ws, t) => (.again, ws, t)
  else (.ready, ws, t)

/-- The answer to a ping or to a close. -/
def answer (env : Env) (ws : Conn) (pld : List UInt8) (t : Sock) : Except Int Nat × Conn × Sock :=
  let rsp := if ws.rxOpcode = opcodeClose then opcodeClose else opcodePong
  let r : Except Int Nat × Conn × Sock :=
    match sendHeader env ws t rsp pld.length with
    | (.error ec, ws, t) => (.error ec, ws, t)
    | (.ok _, ws, t) => ((sendPayload env ws pld t).1, ws, (sendPayload env ws pld t).2)
  (if rsp = opcodeClose then .error enoconnect else r.1, { r.2.1 with rxSize := 0, rxOffs := 0 }, r.2.2)

/-- One call, from its label `again` on. -/
def recvLoop (http : Bool) (env : Env) (size : Nat) :
    Nat → Int → Nat → Conn → Sock → Option (Except Int (DataType × List UInt8) × Conn × Sock)
  | 0, _, _, _, _ => none
  | fuel + 1, timeout, pongCnt, ws, t =>
      match nextHeader http env timeout pongCnt ws t with
      | (.stop ec, ws, t) => some (.error ec, { ws with isOpen := false }, t)
      | (.again, ws, t) =>
          recvLoop http env size fuel (if timeout ≠ 0 then timeout - 1000 else timeout) pongCnt ws t
      | (.ready, ws, t) =>
          if ws.rxOpcode = opcodeText ∨ ws.rxOpcode = opcodeBin then
            match recvPayload env ws (min size ws.left) t with
            | (.error ec, t) => some (.error ec, { ws with isOpen := false }, t)
            | (.ok out, t) =>
                some (.ok (if ws.rxOpcode = opcodeText then .text else .bin, out),
                  { ws with rxOffs := ws.rxOffs + out.length }, t)
          else if ws.rxOpcode = opcodePong then
            match recvPayload env ws ws.rxSize t with
            | (.error ec, t) => some (.error ec, { ws with rxSize := 0, rxOffs := 0, isOpen := false }, t)
            | (.ok _, t) =>
                recvLoop http env size fuel timeout (pongCnt + 1) { ws with rxSize := 0, rxOffs := 0 } t
          else if ws.rxOpcode = opcodePing ∨ ws.rxOpcode = opcodeClose then
            match recvPayload env ws (min 125 ws.rxSize) t with
            | (.error ec, t) => some (.error ec, { ws with isOpen := false }, t)
            | (.ok pld, t) =>
                match answer env ws pld t with
                | (.error ec, ws, t) => some (.error ec, { ws with isOpen := false }, t)
                | (.ok _, ws, t) => recvLoop http env size fuel timeout pongCnt ws t
          else some (.error efatal, { ws with isOpen := false }, t)

/-- `WebSocket_Recv` -/
def webSocketRecv (env : Env) (fuel size : Nat) (timeout : Int) (ws : Conn) (t : Sock) :
    Option (Except Int (DataType × List UInt8) × Conn × Sock) :=
  recvLoop false env size fuel timeout 0 ws t

/-- `UHTTPSrvWS_Recv` -/
def uhttpSrvWSRecv (env : Env) (fuel size : Nat) (timeout : Int) (ws : Conn) (t : Sock) :
    Option (Except Int (DataType × List UInt8) × Conn × Sock) :=
  recvLoop true env size fuel timeout 0 { ws with role := .server } t

/-- Consecutive calls with the application's sizes and time-outs, until the frame is read: the bytes they return. -/
def readFrame (recv : Nat → Int → Conn → Sock → Option (Except Int (DataType × List UInt8) × Conn × Sock)) :
    List (Nat × Int) → Conn → Sock → Option (Except Int (List UInt8))
  | [], _, _ => some (.ok [])
  | (size, timeout) :: reads, ws, t =>
      match recv size timeout ws t with
      | none => none
      | some (.error ec, _, _) => some (.error ec)
      | some (.ok (_, out), ws, t) =>
          if ws.rxOffs = ws.rxSize then some (.ok out)
          else (readFrame recv reads ws t).map fun r => r.map (out ++ ·)

end WebSocket

end YieldStm32
