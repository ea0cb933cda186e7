import YieldStm32.Net.Tcp.Ends

/-!
# Two sockets on one network

A socket that listens, one that connects to it, and the frames that each of them has sent. The network delivers any of
these at any time, again and again, in any order, or never; the applications and the output tasks at both ends go on by
themselves. A frame arrives as the segment with the same fields, as it does between any two stacks.

* `Intact` : what the client has read, what is in its receive queue and the end of what is in the server's transmit
  queue are the bytes that the server was given, and the end of the stream is only taken behind all of them;
* `intact_of_run` : every state of such a run is intact.

The server's number reaches the client with the SYN|ACK. Before that the server is `Waiting` and the client
`Connecting`, and only SYN segments are on the way; after it the two ends are tied together by `Synced`.
-/

namespace YieldStm32.Tcp

open Counter Transition

/-- The two ends, the bytes that were read at the client's, and all frames sent. -/
structure Pair where
  server : TxState
  client : RxState
  read : List UInt8
  toClient : List Frame
  toServer : List Frame

namespace Pair

/-- A step at one of the ends, or the delivery of one of the frames sent to it. -/
inductive Event where
  | server (e : Tcp.Event)
  | client (e : Tcp.Event)
  | serverGets (now rnd : U32) (k : Nat)
  | clientGets (now rnd : U32) (k : Nat)
deriving DecidableEq, Repr

def atServer (p : Pair) (e : Tcp.Event) : Option Pair :=
  (txStep p.server e).map fun s => { p with server := s, toClient := p.toClient ++ p.server.node.out.sent e }

def atClient (p : Pair) (e : Tcp.Event) : Option Pair :=
  (rxStep p.client e).map fun s =>
    { p with
      client := s
      read := p.read ++ p.client.node.sock.readBy e
      toServer := p.toServer ++ p.client.node.out.sent e }

def step (serverIp clientIp : Ip) (p : Pair) : Event → Option Pair
  | .server e => if e.isOwn then p.atServer e else none
  | .client e => if e.isOwn then p.atClient e else none
  | .serverGets now rnd k => p.toServer[k]?.bind fun fr => p.atServer (.incoming now rnd (fr.segment clientIp))
  | .clientGets now rnd k => p.toClient[k]?.bind fun fr => p.atClient (.incoming now rnd (fr.segment serverIp))

/-- A FIN is sent with the last of the data and taken with all of them; fewer bytes are sent than there are numbers; and
neither end is opened again. -/
def Guard (p : Pair) : Event → Prop
  | .server e => p.server.node.sock.Stays e ∧ p.server.stream.length + e.data.length + 2 < 2 ^ 32 ∧
      (e = .outAlloc true → p.server.node.out.picksFin = true → p.server.node.sock.txq.getUsed ≤ frameSize)
  | .client e => p.client.node.sock.Stays e
  | .serverGets .. => True
  | .clientGets _ _ k => ∀ fr ∈ p.toClient[k]?, fr.flags.fin = true → fr.seq = p.client.node.sock.rxSeqRecvd →
      fr.data.length ≤ p.client.node.sock.rxq.getFree

structure Intact (p : Pair) : Prop where
  stream : ∃ rest, rest <:+ p.server.node.sock.txq.contents ∧
    p.read ++ p.client.node.sock.rxq.contents ++ rest = p.server.stream
  fin : p.client.fin = true → p.read ++ p.client.node.sock.rxq.contents = p.server.stream

end Pair

/-! ## Both ends -/

namespace Pair

/-- No number has been taken. -/
structure Before (p : Pair) : Prop where
  server : Waiting p.server
  client : Connecting p.client
  toClient : ∀ fr ∈ p.toClient, fr.flags.syn = true
  toServer : ∀ fr ∈ p.toServer, fr.flags.Bare

/-- The client took the server's number, and acknowledges what it received. -/
structure Synced (i : U32) (p : Pair) : Prop where
  iss : p.server.iss = some i
  rx : RxInv i p.server.stream p.client
  units : p.server.units ≤ 1 + p.client.pos
  acks : ∀ fr, fr ∈ p.toServer ∨ p.client.node.out = .send fr → fr.flags.ack = true →
    ∃ k ≤ p.client.pos, fr.ack = adv i (1 + k)
  fin : p.client.fin = true → p.server.node.sock.Ended

structure Inv (q : Queue UInt8) (p : Pair) : Prop where
  tx : TxInv q p.server
  txq : p.server.node.sock.txq.count ∣ 2 ^ 32
  rxq : p.client.node.sock.rxq.size = 1 ∧ p.client.node.sock.rxq.count ∣ 2 ^ 32
  read : p.read ++ p.client.node.sock.rxq.contents = p.client.put
  length : p.server.stream.length + 2 < 2 ^ 32
  sent : Sent p.toClient p.server
  phase : Before p ∨ ∃ i, Synced i p

section Step

variable {q : Queue UInt8} {p p' : Pair} {e : Tcp.Event} {i : U32}

theorem Inv.live (h : Inv q p) (hs : Synced i p) : Live i p.server := by
  rcases h.tx.phase with he | ⟨j, hv⟩
  · exact absurd (he.iss.symm.trans hs.iss) nofun
  · obtain rfl := Option.some.inj (hv.iss.symm.trans hs.iss)
    exact hv

theorem Inv.client_ne_listen (h : Inv q p) : p.client.node.sock.state ≠ .listen := by
  rcases h.phase with hb | ⟨i, hs⟩
  · rcases hb.client.state with hst | hst <;> rw [hst] <;> decide
  · exact hs.rx.state.1

/-- The SYN|ACK is acknowledged before the connection is established. -/
theorem Inv.inOrder (h : Inv q p)
    (hinc : ∀ now rnd f, e = .incoming now rnd f → ∃ ip, ∃ fr ∈ p.toServer, f = fr.segment ip)
    (hfin : e = .outAlloc true → p.server.node.out.picksFin = true → p.server.node.sock.txq.getUsed ≤ frameSize) :
    InOrder p.server e := by
  cases e with
  | incoming now rnd f =>
      obtain ⟨ip, fr, hfr, rfl⟩ := hinc now rnd f rfl
      intro ho hacc ha hest htx
      rcases h.phase with hb | ⟨i, hs⟩
      · exact absurd ((hb.toServer fr hfr).ack.symm.trans ha) (by decide)
      · obtain ⟨k, hk, hack⟩ := hs.acks fr (.inl hfr) ha
        have hv := h.live hs
        have hpos := hs.rx.pos_le
        have hlen := h.length
        show fr.ack ≠ _
        rw [hack, hv.sock.start, (hv.sock.establishing hest).1]
        exact fun heq => absurd (adv_inj (by omega) (by omega) heq) (by omega)
  | outAlloc ok =>
      cases ok with
      | true => exact hfin rfl
      | false => trivial
  | send data => exact fun _ => .inl h.txq
  | _ => trivial

theorem atServer_inv (hq : q.getUsed = 0) (hsize : q.size = 1) (h : Inv q p)
    (hinc : ∀ now rnd f, e = .incoming now rnd f → ∃ ip, ∃ fr ∈ p.toServer, f = fr.segment ip)
    (hstays : p.server.node.sock.Stays e) (hlen : p.server.stream.length + e.data.length + 2 < 2 ^ 32)
    (hfin : e = .outAlloc true → p.server.node.out.picksFin = true → p.server.node.sock.txq.getUsed ≤ frameSize)
    (hs : p.atServer e = some p') : Inv q p' := by
  obtain ⟨s, ht, rfl⟩ := Option.map_eq_some_iff.1 hs
  have hnode := txStep_node ht
  obtain ⟨hstream, hle, hsame, hiss⟩ := txStep_stream ht
  have hsyn : p.server.iss = none → ∀ fr ∈ p.server.node.out.sent e, fr.flags.syn = true := by
    intro hi fr hfr
    rcases h.phase with hb | ⟨i, hsync⟩
    · exact hb.server.flags fr.flags (by rw [(mem_sent hfr).1]; rfl)
    · exact absurd (hi.symm.trans hsync.iss) nofun
  obtain ⟨htx, hsent⟩ := h.sent.step hq hsize h.tx hstays (h.inOrder hinc hfin) hsyn ht
  refine ⟨htx, ?_, h.rxq, h.read, ?_, hsent, ?_⟩
  · show s.node.sock.txq.count ∣ _
    rw [(step_sizes hnode).2.2]
    exact h.txq
  · show s.stream.length + 2 < _
    omega
  rcases h.phase with hb | ⟨i, hsync⟩
  · refine .inl ⟨hb.server.step (fun now rnd f he => ?_) hstays ht, hb.client, fun fr hfr => ?_, hb.toServer⟩
    · obtain ⟨ip, fr, hfr, rfl⟩ := hinc now rnd f he
      exact hb.toServer fr hfr
    · rcases List.mem_append.1 hfr with hfr | hfr
      · exact hb.toClient fr hfr
      · exact hb.server.flags fr.flags (by rw [(mem_sent hfr).1]; rfl)
  · have hpos := hsync.rx.pos_le
    have hunits : s.units ≤ 1 + p.client.pos := by
      refine (h.live hsync).units h.length (by omega) hsync.units (fun now rnd f he ha => ?_) ht
      obtain ⟨ip, fr, hfr, rfl⟩ := hinc now rnd f he
      obtain ⟨k, hk, hack⟩ := hsync.acks fr (.inl hfr) ha
      exact ⟨1 + k, by omega, hack⟩
    exact .inr ⟨i, hiss i hsync.iss, hsync.rx.extends hstream fun hf => hsame (hsync.fin hf).ne.2.2, hunits, hsync.acks,
      fun hf => (hsync.fin hf).step hstays hnode⟩

/-- The client's part of the invariant that does not depend on the phase. -/
theorem Inv.client (h : Inv q p) {c : RxState} (hstays : p.client.node.sock.Stays e) (hs : rxStep p.client e = some c)
    (hphase : let p' := { p with
        client := c
        read := p.read ++ p.client.node.sock.readBy e
        toServer := p.toServer ++ p.client.node.out.sent e }
      Before p' ∨ ∃ i, Synced i p') :
    Inv q { p with
      client := c
      read := p.read ++ p.client.node.sock.readBy e
      toServer := p.toServer ++ p.client.node.out.sent e } := by
  obtain ⟨hsize, hcount, -⟩ := step_sizes (rxStep_node hs)
  refine ⟨h.tx, h.txq, ⟨?_, ?_⟩, rxStep_contents h.rxq.1 h.rxq.2 h.client_ne_listen hstays h.read hs, h.length, h.sent,
    hphase⟩
  · exact hsize.trans h.rxq.1
  · show c.node.sock.rxq.count ∣ _
    rw [hcount]
    exact h.rxq.2

/-- A step of the client's own. -/
theorem atClient_inv (h : Inv q p) (hinc : ∀ now rnd f, e ≠ .incoming now rnd f) (hstays : p.client.node.sock.Stays e)
    (hs : p.atClient e = some p') : Inv q p' := by
  obtain ⟨c, hc, rfl⟩ := Option.map_eq_some_iff.1 hs
  refine h.client hstays hc ?_
  rcases h.phase with hb | ⟨i, hsync⟩
  · refine .inl ⟨hb.server, hb.client.step hinc hstays hc, hb.toClient, fun fr hfr => ?_⟩
    rcases List.mem_append.1 hfr with hfr | hfr
    · exact hb.toServer fr hfr
    · exact hb.client.flags fr.flags (by rw [(mem_sent hfr).1]; rfl)
  · have hd : Delivered i p.server.stream p.client e := by
      cases e with
      | incoming now rnd f => exact absurd rfl (hinc now rnd f)
      | _ => exact hstays
    have hfit : Fitting i p.server.stream p.client e := by
      cases e with
      | incoming now rnd f => exact absurd rfl (hinc now rnd f)
      | _ => trivial
    have hrx := rxInv_step hsync.rx ⟨hd, hfit⟩ hc
    have hghost := hc
    rw [rxStep_own hinc] at hghost
    obtain ⟨n, hn, rfl⟩ := Option.map_eq_some_iff.1 hghost
    refine .inr ⟨i, hsync.iss, hrx, hsync.units, fun fr hfr ha => ?_, hsync.fin⟩
    rcases hfr with hfr | hfr
    · rcases List.mem_append.1 hfr with hfr | hfr
      · exact hsync.acks fr (.inl hfr) ha
      · exact hsync.acks fr (.inr (mem_sent hfr).1) ha
    · rcases step_out hn hfr with ho | hack
      · exact hsync.acks fr (.inr ho) ha
      · exact ⟨p.client.pos, Nat.le_refl _, hack.trans hsync.rx.count⟩

/-- A frame that was sent to the client arrives, now or again. -/
theorem clientGets_inv (h : Inv q p) {fr : Frame} (hfr : fr ∈ p.toClient)
    (hroom : fr.flags.fin = true → fr.seq = p.client.node.sock.rxSeqRecvd →
      fr.data.length ≤ p.client.node.sock.rxq.getFree) {now rnd : U32} {ip : Ip}
    (hs : p.atClient (.incoming now rnd (fr.segment ip)) = some p') : Inv q p' := by
  obtain ⟨c, hc, rfl⟩ := Option.map_eq_some_iff.1 hs
  refine h.client True.intro hc ?_
  obtain ⟨j, hj, hn⟩ := h.sent.numbered fr hfr
  obtain ⟨hnode, ho, hput, hfin, hfin'⟩ := rxStep_incoming hc
  have hsame : p.toServer ++ p.client.node.out.sent (.incoming now rnd (fr.segment ip)) = p.toServer := by
    rw [ho]
    exact List.append_nil _
  have hidle : c.node.out = .idle := by rw [hnode]
  rw [hsame]
  rcases h.phase with hb | ⟨i, hsync⟩
  · rcases hb.client.gets hn (hb.toClient fr hfr) h.length hc with hconn | hrx
    · exact .inl ⟨hb.server, hconn, hb.toClient, hb.toServer⟩
    · refine .inr ⟨j, hj, hrx, ?_, fun fr' hfr' ha => ?_, fun hf => ?_⟩
      · show p.server.units ≤ _
        rw [hb.server.units]
        exact Nat.zero_le _
      · rcases hfr' with hfr' | hfr'
        · exact absurd ((hb.toServer fr' hfr').ack.symm.trans ha) (by decide)
        · exact absurd (hidle.symm.trans hfr') nofun
      · rcases hfin' hf with hf | hf
        · exact absurd (hb.client.fin.symm.trans hf) (by decide)
        · exact h.sent.ended fr hfr hf
  · obtain rfl := Option.some.inj (hj.symm.trans hsync.iss)
    have hpos : p.client.pos ≤ c.pos := by
      have hle := hput.length_le
      unfold RxState.pos
      by_cases hf : p.client.fin = true
      · rw [if_pos hf, if_pos (hfin hf)]
        omega
      · rw [if_neg hf]
        omega
    refine .inr ⟨j, hj, hsync.rx.gets hn h.length hroom hc, Nat.le_trans hsync.units (by dsimp only; omega),
      fun fr' hfr' ha => ?_, fun hf => ?_⟩
    · rcases hfr' with hfr' | hfr'
      · obtain ⟨k, hk, hack⟩ := hsync.acks fr' (.inl hfr') ha
        exact ⟨k, Nat.le_trans hk hpos, hack⟩
      · exact absurd (hidle.symm.trans hfr') nofun
    · rcases hfin' hf with hf | hf
      · exact hsync.fin hf
      · exact h.sent.ended fr hfr hf

theorem inv_step (hq : q.getUsed = 0) (hsize : q.size = 1) (serverIp clientIp : Ip) (h : Inv q p) {e : Event}
    (hg : Guard p e) (hs : step serverIp clientIp p e = some p') : Inv q p' := by
  cases e with
  | server e =>
      obtain ⟨hstays, hlen, hfin⟩ := hg
      obtain ⟨he, hs⟩ := Option.ite_none_right_eq_some.1 hs
      have hown := Tcp.Event.ne_incoming he
      exact atServer_inv hq hsize h (fun now rnd f h => absurd h (hown now rnd f)) hstays hlen hfin hs
  | client e =>
      obtain ⟨he, hs⟩ := Option.ite_none_right_eq_some.1 hs
      exact atClient_inv h (Tcp.Event.ne_incoming he) hg hs
  | serverGets now rnd k =>
      obtain ⟨fr, hfr, hs⟩ := Option.bind_eq_some_iff.1 hs
      have hinc : ∀ now' rnd' f, Tcp.Event.incoming now rnd (fr.segment clientIp) = .incoming now' rnd' f →
          ∃ ip, ∃ fr' ∈ p.toServer, f = fr'.segment ip := by
        intro now' rnd' f he
        obtain ⟨-, -, rfl⟩ := Tcp.Event.incoming.inj he
        exact ⟨clientIp, fr, List.mem_of_getElem? hfr, rfl⟩
      have hstays : p.server.node.sock.Stays (.incoming now rnd (fr.segment clientIp)) := True.intro
      exact atServer_inv hq hsize h hinc hstays h.length (fun he => by cases he) hs
  | clientGets now rnd k =>
      obtain ⟨fr, hfr, hs⟩ := Option.bind_eq_some_iff.1 hs
      exact clientGets_inv h (List.mem_of_getElem? hfr) (hg fr hfr) hs

theorem Inv.intact (h : Inv q p) : Intact p := by
  rcases h.phase with hb | ⟨i, hs⟩
  · have hread := h.read.trans hb.client.put
    refine ⟨⟨[], List.nil_suffix, ?_⟩, fun hf => absurd (hb.client.fin.symm.trans hf) (by decide)⟩
    rw [hread, hb.server.stream]
    rfl
  · have hv := h.live hs
    have hput := hs.rx.put
    have hunits := hs.units
    have hdropped := hv.sock.dropped
    have hpos : p.server.dropped ≤ p.client.put.length := by
      unfold RxState.pos at hunits
      split at hunits
      · rw [hs.rx.fin ‹_›]
        omega
      · omega
    refine ⟨⟨p.server.stream.drop p.client.put.length, ?_, ?_⟩, fun hf => h.read.trans (hs.rx.fin hf)⟩
    · rw [hv.sock.contents, ← Nat.add_sub_cancel' hpos, ← List.drop_drop]
      exact List.drop_suffix ..
    · rw [h.read]
      obtain ⟨rest, hrest⟩ := hput
      rw [← hrest, List.drop_left]

end Step

/-- A socket that listens, and one that has begun to connect, with nothing on the way. -/
def start (s c : Sock) (port : Port) (now rnd : U32) (ip : Ip) (dst : Port) : Pair :=
  ⟨listening s port, ⟨⟨c.connect now rnd ip dst, .idle⟩, [], false⟩, [], [], []⟩

section Start

variable {s c : Sock} {port dst : Port}

theorem listen_eq (hs : s.state = .closed ∨ s.state = .listen) (hp : port ≠ 0) :
    s.listen port = { s.renew with locPort := port, state := .listen } := by
  rw [Sock.listen, if_neg (not_and_or.2 (hs.imp not_not.2 not_not.2)), if_neg hp]
  rfl

theorem connect_eq (hc : c.state = .closed) (hd : dst ≠ 0) (now rnd : U32) (ip : Ip) :
    ∃ locPort, c.connect now rnd ip dst = { c.renew with
      remPort := dst, addr := ip, locPort := locPort, txSeqStart := now, txSeqInit := now, state := .connect } := by
  refine ⟨BitVec.ofNat 16 (rnd.toNat % 34567 + 10000), ?_⟩
  rw [Sock.connect, if_neg (by rw [hc]; exact fun h => absurd h.1 (by decide)), if_neg (not_not.2 hc), if_neg hd]
  rfl

theorem txInv_listening (hs : s.state = .closed ∨ s.state = .listen) (hp : port ≠ 0) :
    TxInv (s.txq.drop s.txq.getUsed).2 (listening s port) := by
  refine ⟨?_, fun _ fl hfl => ?_, .inl ⟨?_, rfl, rfl, rfl, rfl, fun _ => rfl, fun fl hfl => ?_, fun fr hfr => ?_⟩⟩
  · rw [listening, listen_eq hs hp]
    constructor <;> simp [Sock.renew]
  · cases hfl
  · rw [listening, listen_eq hs hp]
    exact ⟨rfl, by simp, rfl, rfl⟩
  · cases hfl
  · cases hfr

theorem before_start (hs : s.state = .closed ∨ s.state = .listen) (hp : port ≠ 0) (hc : c.state = .closed)
    (hd : dst ≠ 0) (now rnd : U32) (ip : Ip) : Before (start s c port now rnd ip dst) := by
  obtain ⟨locPort, hconnect⟩ := connect_eq hc hd now rnd ip
  refine ⟨⟨.inl ?_, ?_, fun fl hfl => ?_, rfl, rfl⟩, ⟨.inl ?_, ?_, fun fl hfl => ?_, rfl, rfl⟩, fun fr hfr => ?_,
    fun fr hfr => ?_⟩
  · show (s.listen port).state = _
    rw [listen_eq hs hp]
  · show (s.listen port).locLink = _
    rw [listen_eq hs hp]
    rfl
  · cases hfl
  · show (c.connect now rnd ip dst).state = _
    rw [hconnect]
  · show (c.connect now rnd ip dst).locLink = _
    rw [hconnect]
    rfl
  · cases hfl
  · cases hfr
  · cases hfr

theorem inv_start (hs : s.state = .closed ∨ s.state = .listen) (hp : port ≠ 0) (htx : s.txq.count ∣ 2 ^ 32)
    (hc : c.state = .closed) (hd : dst ≠ 0) (hrx : c.rxq.size = 1 ∧ c.rxq.count ∣ 2 ^ 32) (now rnd : U32) (ip : Ip) :
    Inv (s.txq.drop s.txq.getUsed).2 (start s c port now rnd ip dst) := by
  have htxq : (s.listen port).txq.count = s.txq.count := by
    rw [listen_eq hs hp]
    rfl
  have hrxq : (c.connect now rnd ip dst).rxq = (c.rxq.drop c.rxq.getUsed).2 := by
    obtain ⟨locPort, hconnect⟩ := connect_eq hc hd now rnd ip
    rw [hconnect]
    rfl
  have hempty : (c.rxq.drop c.rxq.getUsed).2.getUsed = 0 := by simp [Queue.getUsed_drop]
  refine ⟨txInv_listening hs hp, ?_, ?_, ?_, ?_, ⟨fun fr hfr => ?_, fun fr hfr => ?_⟩,
    .inl (before_start hs hp hc hd now rnd ip)⟩
  · show (s.listen port).txq.count ∣ _
    rw [htxq]
    exact htx
  · show (c.connect now rnd ip dst).rxq.size = 1 ∧ (c.connect now rnd ip dst).rxq.count ∣ _
    rw [hrxq]
    exact hrx
  · show (c.connect now rnd ip dst).rxq.contents = []
    rw [hrxq]
    exact Queue.contents_eq_nil hempty
  · show ([] : List UInt8).length + 2 < 2 ^ 32
    decide
  · cases hfr
  · cases hfr

end Start

/-- **The stream arrives intact**: along every run from a Listen and a Connect on, over a network that loses, repeats
and reorders what it carries, no byte is lost, repeated or moved on its way from Send at the server to Recv at the
client. -/
theorem intact_of_run (serverIp clientIp : Ip) (s c : Sock) (port dst : Port) (now rnd : U32) (ip : Ip)
    (es : List Event) (hs : s.state = .closed ∨ s.state = .listen) (hp : port ≠ 0) (htx : s.txq.size = 1 ∧ s.txq.count ∣ 2 ^ 32)
    (hc : c.state = .closed) (hd : dst ≠ 0) (hrx : c.rxq.size = 1 ∧ c.rxq.count ∣ 2 ^ 32)
    (hg : Meets (step serverIp clientIp) Guard (start s c port now rnd ip dst) es) :
    Along (step serverIp clientIp) (fun _ _ p => Intact p) (start s c port now rnd ip dst) es := by
  have hq : (s.txq.drop s.txq.getUsed).2.getUsed = 0 := by simp [Queue.getUsed_drop]
  refine along_of_meets (I := Inv (s.txq.drop s.txq.getUsed).2) (fun p e p' h hg hs => ?_)
    (inv_start hs hp htx.2 hc hd hrx now rnd ip) hg
  have h' := inv_step hq htx.1 serverIp clientIp h hg hs
  exact ⟨h', h'.intact⟩

instance (s : Sock) : ∀ e, Decidable (s.Stays e)
  | .listen _ | .connect .. => inferInstanceAs (Decidable (s.state ≠ .closed))
  | .incoming .. | .outStart _ | .outAlloc _ | .outSend .. | .listenPoll _ | .connectPoll _ | .recv _ | .send _
  | .close .. | .closeFlush .. | .closeWait _ | .reset => isTrue trivial

instance (p : Pair) : ∀ e, Decidable (Guard p e)
  | .server e => inferInstanceAs (Decidable (p.server.node.sock.Stays e ∧ _ ∧ (e = .outAlloc true → _ → _)))
  | .client e => inferInstanceAs (Decidable (p.client.node.sock.Stays e))
  | .serverGets .. => isTrue trivial
  | .clientGets _ _ k => inferInstanceAs (Decidable (∀ fr ∈ p.toClient[k]?, _ → _ → _))

/-- The output task, from the start to the sending of a frame. -/
def output (now : U32) : List Tcp.Event := [.outStart now, .outAlloc true, .outSend now true]

/-- A socket that was never used, with queues of eight bytes. -/
def unused : Sock := Sock.create smallQueue smallQueue

/-- SYN, SYN|ACK and ACK. -/
def connects : List Event :=
  (output 1).map .client ++ [.serverGets 1 7 0] ++ (output 1).map .server ++ [.clientGets 2 9 0] ++
    (output 2).map .client ++ [.serverGets 2 0 1]

/-- Three bytes are sent twice; the second frame is the first to arrive, and then both arrive again. -/
def repeats : List Event :=
  .server (.send [1, 2, 3]) :: (output 1000).map .server ++ (output 2000).map .server ++
    [.clientGets 2001 0 2, .client (.recv 2), .clientGets 2001 0 1, .clientGets 2001 0 2, .client (.recv 2)] ++
    (output 3000).map .client ++ [.serverGets 3001 0 2]

theorem intact_of_run_repeats :
    (∀ p ∈ run (step 1 2) (start unused unused 80 100 3 1 80) (connects ++ repeats),
      p.read = [1, 2, 3] ∧ p.server.dropped = 3) ∧
    Along (step 1 2) (fun _ _ p => Intact p) (start unused unused 80 100 3 1 80) (connects ++ repeats) :=
  ⟨by decide, intact_of_run 1 2 unused unused 80 80 100 3 1 _ (.inl rfl) (by decide) (by decide) rfl (by decide)
    (by decide) (by decide)⟩

/-- A server with sixteen bytes of queue. -/
def roomy : Sock :=
  Sock.create smallQueue (.create 1 16 (fun _ => 0) Nat.one_pos (Nat.succ_pos 15) (by decide) (by decide))

/-- The client closes while nine bytes wait at the server, which then sends them with its FIN. -/
def finWithData : List Event :=
  .server (.send [1, 2, 3, 4, 5, 6, 7, 8, 9]) :: .client (.close 1000 false) :: (output 1000).map .client ++
    [.serverGets 1001 0 2] ++ (output 1001).map .server ++ [.clientGets 1002 0 1]

/-- The ninth byte has no room in the client's queue: the FIN is taken all the same, and the byte is not sent again. -/
theorem not_intact_finWithData :
    ¬ ∀ p ∈ run (step 1 2) (start roomy unused 80 100 3 1 80) (connects ++ finWithData), Intact p := by
  intro h
  have hrun : (run (step 1 2) (start roomy unused 80 100 3 1 80) (connects ++ finWithData)).isSome := by decide
  have hlost : ∀ p ∈ run (step 1 2) (start roomy unused 80 100 3 1 80) (connects ++ finWithData),
      p.client.fin = true ∧ p.read ++ p.client.node.sock.rxq.contents ≠ p.server.stream := by decide
  obtain ⟨p, hp⟩ := Option.isSome_iff_exists.1 hrun
  exact (hlost p hp).2 ((h p hp).fin (hlost p hp).1)

end Pair

end YieldStm32.Tcp
