import YieldStm32.Net.Dhcp.RoundTrip

/-!
# What the option renderer writes (`DHCPFrame_RenderOptions`)

* `Guarded` : a writer that checks the room for all it writes;
* `Comes` : where the statements have come to, kept by each of them (`put_comes`);
* `respectsBuffer_iff` : when the buffer is respected.

`DHCPFrameOpt_SetDNSServerIP` checks the room for the header of its record only, and the room that is computed behind a
record that went over the end is that of a size that wrapped.
-/

namespace YieldStm32.DHCPFrame

open Ring TCPIP

/-! ## The bytes of an option set -/

/-- The records that are written before those of the DNS servers. -/
def OptSet.firstRecords (o : OptSet) : List Record :=
  optRecord (o.optflags .msgtype) (.msgType o.msgType) ++ optRecord (o.optflags .subnet) (.subnet o.subnet) ++
    optRecord (o.optflags .router) (.router o.router)

/-- The encoded options, with the end mark where it is flagged. -/
def OptSet.encoded (o : OptSet) : List UInt8 :=
  o.records.flatMap Record.encode ++ if o.optflags .end then [0xff] else []

theorem flatMap_optRecord (flag : Bool) (r : Record) :
    (optRecord flag r).flatMap Record.encode = if flag then r.encode else [] := by
  unfold optRecord
  cases flag with
  | false => rfl
  | true => exact List.flatMap_singleton ..

theorem OptSet.length_firstRecords_le (o : OptSet) : (o.firstRecords.flatMap Record.encode).length ≤ 15 := by
  have hle {n : Nat} (flag : Bool) (r : Record) (hr : r.encode.length = n) :
      ((optRecord flag r).flatMap Record.encode).length ≤ n := by
    rw [flatMap_optRecord]
    cases flag with
    | false => exact Nat.zero_le _
    | true => exact Nat.le_of_eq hr
  unfold firstRecords
  rw [List.flatMap_append, List.flatMap_append, List.length_append, List.length_append]
  have hmsg := hle (n := 3) (o.optflags .msgtype) (.msgType o.msgType) rfl
  have hsubnet := hle (n := 6) (o.optflags .subnet) (.subnet o.subnet) rfl
  have hrouter := hle (n := 6) (o.optflags .router) (.router o.router) rfl
  omega

/-- The DNS servers come behind the first records, and before the rest. -/
theorem OptSet.length_dns_le (o : OptSet) :
    (o.firstRecords.flatMap Record.encode).length +
        ((optRecord (o.optflags .dnsServers) (.dns ((List.range o.dnsCnt).map o.dns))).flatMap Record.encode).length ≤
      o.encoded.length := by
  rw [← List.length_append, ← List.flatMap_append, encoded, List.length_append]
  refine Nat.le_trans ?_ (Nat.le_add_right ..)
  unfold records firstRecords
  exact (length_le_append ..).trans ((length_le_append ..).trans ((length_le_append ..).trans (length_le_append ..)))

/-! ## Writers -/

/-- With this room, the bytes are written where there is room for all of them, and nothing is where there is not. -/
def Guarded (set : Writer) (bytes : List UInt8) (size : BitVec 32) : Prop :=
  ∀ (m : Mem) (p : Nat),
    set m p size = if bytes.length ≤ size.toNat then (copyIn m p bytes, some (p + bytes.length)) else (m, none)

theorem setRecord_guarded (r : Record) (size : BitVec 32) : Guarded (setRecord r.code r.pld) r.encode size := by
  intro m p
  have hlength := r.length_encode
  unfold setRecord
  by_cases hroom : r.encode.length ≤ size.toNat
  · rw [if_neg (by omega), if_pos hroom, hlength, Nat.add_assoc]
    rfl
  · rw [if_pos (by omega), if_neg hroom]

theorem setOptionsEnd_guarded (size : BitVec 32) : Guarded setOptionsEnd [0xff] size := by
  intro m p
  unfold setOptionsEnd
  by_cases hroom : 1 ≤ size.toNat
  · rw [if_neg (Nat.not_lt.2 hroom), List.length_singleton, if_pos hroom]
  · rw [if_pos (Nat.lt_of_not_le hroom), List.length_singleton, if_neg hroom]

theorem length_encode_dns (ips : Nat → Ip) (count : Nat) :
    (Record.dns ((List.range count).map ips)).encode.length = 2 + 4 * count := by
  rw [Record.length_encode, Record.pld, Record.length_dns, List.length_map, List.length_range]

theorem setDNSServerIP_guarded {ips : Nat → Ip} {count : Nat} (hcount : count ≤ 3) {size : BitVec 32}
    (hsize : 2 ≤ size.toNat → 2 + 4 * count ≤ size.toNat) :
    Guarded (setDNSServerIP ips count) (Record.dns ((List.range count).map ips)).encode size := by
  intro m p
  have hlength := length_encode_dns ips count
  by_cases hroom : 2 ≤ size.toNat
  · rw [if_pos (by rw [hlength]; exact hsize hroom)]
    exact setDNSServerIP_writes hcount m p size (by rw [hlength]; exact hsize hroom)
  · rw [if_neg (by omega)]
    exact if_pos (Nat.lt_of_not_le hroom)

/-! ## Statements -/

/-- The bytes to write so far, `bs`, are in the buffer with the pointer behind them, or there is no pointer; nothing is
written outside of it. -/
structure Comes (m : Mem) (ptr : Nat) (size : BitVec 32) (bs : List UInt8) (s : Mem × Option Nat) : Prop where
  inside : ∀ q, q < ptr ∨ ptr + size.toNat ≤ q → s.1 q = m q
  rendered : bs.length ≤ size.toNat → Rendered ptr bs s
  full : size.toNat < bs.length → s.2 = none

section Statements

variable {m : Mem} {ptr : Nat} {size : BitVec 32} {s : Mem × Option Nat} {flag : Bool} {set : Writer}

theorem put_none (h : s.2 = none) : put ptr size flag set s = s := by
  unfold put
  rw [h]

theorem put_some {p : Nat} (h : s.2 = some p) :
    put ptr size flag set s = if flag then set s.1 p (size - BitVec.ofNat 32 (p - ptr)) else s := by
  unfold put
  rw [h]

theorem put_comes {bs bytes : List UInt8} (h : Comes m ptr size bs s)
    (hset : flag → bs.length ≤ size.toNat → Guarded set bytes (size - BitVec.ofNat 32 bs.length)) :
    Comes m ptr size (bs ++ if flag then bytes else []) (put ptr size flag set s) := by
  cases flag with
  | false =>
      have hput : put ptr size false set s = s := by
        cases hs : s.2 with
        | none => exact put_none hs
        | some p => exact put_some hs
      rw [hput, if_neg Bool.false_ne_true, List.append_nil]
      exact h
  | true =>
      rw [if_pos rfl]
      rcases Nat.lt_or_ge size.toNat bs.length with hfull | hroom
      · have hnone := h.full hfull
        rw [put_none hnone]
        refine ⟨h.inside, fun hle => ?_, fun _ => hnone⟩
        rw [List.length_append] at hle
        omega
      · obtain ⟨hpcurr, hbytes⟩ := h.rendered hroom
        have hwritten := hset rfl hroom s.1 (ptr + bs.length)
        rw [room_behind size hroom] at hwritten
        rw [put_some hpcurr, if_pos rfl, Nat.add_sub_cancel_left, hwritten]
        by_cases hfits : bytes.length ≤ size.toNat - bs.length
        · rw [if_pos hfits]
          refine ⟨fun q hq => ?_, fun _ => ⟨?_, ?_⟩, fun hfull => ?_⟩
          · rw [← h.inside q hq]
            exact dif_neg (by omega)
          · rw [List.length_append, Nat.add_assoc]
          · rw [List.length_append]
            exact (copyOut_copyIn_behind s.1 ptr _ bytes).trans (by rw [hbytes])
          · rw [List.length_append] at hfull
            omega
        · rw [if_neg hfits]
          refine ⟨h.inside, fun hle => ?_, fun _ => rfl⟩
          rw [List.length_append] at hle
          omega

/-- The same for a record. -/
theorem put_comes_record {rs : List Record} {r : Record} (h : Comes m ptr size (rs.flatMap Record.encode) s)
    (hset : flag → (rs.flatMap Record.encode).length ≤ size.toNat →
      Guarded set r.encode (size - BitVec.ofNat 32 (rs.flatMap Record.encode).length)) :
    Comes m ptr size ((rs ++ optRecord flag r).flatMap Record.encode) (put ptr size flag set s) := by
  rw [List.flatMap_append, flatMap_optRecord]
  exact put_comes h hset

theorem put_setRecord_comes {rs : List Record} (flag : Bool) (r : Record) (h : Comes m ptr size (rs.flatMap Record.encode) s) :
    Comes m ptr size ((rs ++ optRecord flag r).flatMap Record.encode) (put ptr size flag (setRecord r.code r.pld) s) :=
  put_comes_record h fun _ _ => setRecord_guarded r _

/-- The pointer is behind the end of the buffer, and no further than `k` behind its start. -/
def Overrun (ptr : Nat) (size : BitVec 32) (k : Nat) (s : Mem × Option Nat) : Prop :=
  ∃ p, s.2 = some p ∧ size.toNat < p - ptr ∧ p - ptr ≤ k

/-- From there on, the room is no less than all that is left to write. -/
theorem put_overrun (flag : Bool) {k j : Nat} {bytes : List UInt8} (h : Overrun ptr size k s) (hset : ∀ size, Guarded set bytes size)
    (hbytes : bytes.length ≤ j) (hk : k + j < 2 ^ 31) : Overrun ptr size (k + j) (put ptr size flag set s) := by
  obtain ⟨p, hp, hover, hle⟩ := h
  rw [put_some hp]
  cases flag with
  | false => exact ⟨p, hp, hover, by omega⟩
  | true =>
      have hroom : bytes.length ≤ (size - BitVec.ofNat 32 (p - ptr)).toNat := by
        have hwrap : (size - BitVec.ofNat 32 (p - ptr)).toNat = 2 ^ 32 + size.toNat - (p - ptr) := by
          have := size.isLt
          bv_omega
        omega
      rw [if_pos rfl, hset, if_pos hroom]
      exact ⟨p + bytes.length, rfl, by omega, by omega⟩

theorem put_setRecord_overrun (flag : Bool) (r : Record) (j : Nat) {k : Nat} (h : Overrun ptr size k s)
    (hr : r.pld.length ≤ j) (hk : k + (2 + j) < 2 ^ 31) :
    Overrun ptr size (k + (2 + j)) (put ptr size flag (setRecord r.code r.pld) s) :=
  put_overrun flag h (setRecord_guarded r) (by rw [r.length_encode]; exact Nat.add_le_add_left hr 2) hk

end Statements

/-! ## All of them -/

section Render

variable (m : Mem) (ptr : Nat) (size : BitVec 32) (o : OptSet)

/-- The statements before the one for the DNS servers. -/
def renderFirst : Mem × Option Nat :=
  let s := (m, some ptr)
  let s := put ptr size (o.optflags .msgtype) (setMessageType o.msgType) s
  let s := put ptr size (o.optflags .subnet) (setSubnetMask o.subnet) s
  put ptr size (o.optflags .router) (setRouterIP o.router) s

/-- The statements behind it. -/
def renderRest (s : Mem × Option Nat) : Mem × Option Nat :=
  let s := put ptr size (o.optflags .requestedIp) (setRequestedIP o.reqIp) s
  let s := put ptr size (o.optflags .leaseTime) (setLeaseTime o.leaseTime) s
  let s := put ptr size (o.optflags .dhcpServer) (setDHCPServerIP o.server) s
  let s := put ptr size (o.optflags .reqParamList) (setParameterRequestList o.reqList o.reqListCnt) s
  put ptr size (o.optflags .end) setOptionsEnd s

theorem renderOptions_eq :
    renderOptions m ptr size o =
      renderRest ptr size o
        (put ptr size (o.optflags .dnsServers) (setDNSServerIP o.dns o.dnsCnt) (renderFirst m ptr size o)) := rfl

theorem renderFirst_comes : Comes m ptr size (o.firstRecords.flatMap Record.encode) (renderFirst m ptr size o) := by
  have h0 : Comes m ptr size (([] : List Record).flatMap Record.encode) (m, some ptr) :=
    ⟨fun _ _ => rfl, fun _ => ⟨rfl, rfl⟩, fun h => absurd h (Nat.not_lt_zero _)⟩
  have h1 := put_setRecord_comes (o.optflags .msgtype) (.msgType o.msgType) h0
  have h2 := put_setRecord_comes (o.optflags .subnet) (.subnet o.subnet) h1
  exact put_setRecord_comes (o.optflags .router) (.router o.router) h2

/-- The DNS servers of the set fit behind the first records, or not even the header of theirs does. -/
def OptSet.DnsFits : Prop :=
  o.optflags .dnsServers → (o.firstRecords.flatMap Record.encode).length + 2 ≤ size.toNat →
    (o.firstRecords.flatMap Record.encode).length + (2 + 4 * o.dnsCnt) ≤ size.toNat

instance : Decidable (o.DnsFits size) := inferInstanceAs (Decidable (_ → _ → _))

/-- Nothing is written outside the buffer; there is no pointer where the encoded options do not fit; and where they do, they
are in the buffer, with the pointer behind them. -/
structure RespectsBuffer : Prop where
  inside : ∀ q, q < ptr ∨ ptr + size.toNat ≤ q → (renderOptions m ptr size o).1 q = m q
  null : (renderOptions m ptr size o).2 = none ↔ size.toNat < o.encoded.length
  behind : (renderOptions m ptr size o).2 ≠ none → Rendered ptr o.encoded (renderOptions m ptr size o)

theorem respectsBuffer_of_comes (h : Comes m ptr size o.encoded (renderOptions m ptr size o)) :
    RespectsBuffer m ptr size o := by
  have hnone : (renderOptions m ptr size o).2 = none ↔ size.toNat < o.encoded.length := by
    refine ⟨fun hnone => ?_, h.full⟩
    by_contra hle
    exact nomatch hnone.symm.trans (h.rendered (Nat.not_lt.1 hle)).pcurr
  exact ⟨h.inside, hnone, fun hsome => h.rendered (Nat.not_lt.1 fun hlt => hsome (hnone.2 hlt))⟩

/-- Behind the DNS servers, each statement checks what it writes. -/
theorem renderOptions_comes (hdns : o.dnsCnt ≤ 3) (hfits : o.DnsFits size) :
    Comes m ptr size o.encoded (renderOptions m ptr size o) := by
  have h3 := renderFirst_comes m ptr size o
  have hguarded (hflag : o.optflags .dnsServers) (hroom : (o.firstRecords.flatMap Record.encode).length ≤ size.toNat) :
      Guarded (setDNSServerIP o.dns o.dnsCnt) (Record.dns ((List.range o.dnsCnt).map o.dns)).encode
        (size - BitVec.ofNat 32 (o.firstRecords.flatMap Record.encode).length) := by
    have hall := hfits hflag
    refine setDNSServerIP_guarded hdns fun hheader => ?_
    rw [room_behind size hroom] at hheader ⊢
    omega
  have h4 := put_comes_record h3 hguarded
  have h5 := put_setRecord_comes (o.optflags .requestedIp) (.requestedIp o.reqIp) h4
  have h6 := put_setRecord_comes (o.optflags .leaseTime) (.leaseTime o.leaseTime) h5
  have h7 := put_setRecord_comes (o.optflags .dhcpServer) (.dhcpServer o.server) h6
  have h8 := put_setRecord_comes (o.optflags .reqParamList) (.paramList ((List.range o.reqListCnt).map o.reqList)) h7
  exact put_comes h8 fun _ _ => setOptionsEnd_guarded _

/-- Behind DNS servers that went over the end, no statement fails. -/
theorem renderOptions_overrun (hdns : o.dnsCnt ≤ 3) (hreq : o.reqListCnt ≤ 32) (hflag : o.optflags .dnsServers)
    (hheader : (o.firstRecords.flatMap Record.encode).length + 2 ≤ size.toNat)
    (hover : size.toNat < (o.firstRecords.flatMap Record.encode).length + (2 + 4 * o.dnsCnt)) :
    (renderOptions m ptr size o).2 ≠ none := by
  have hfirst := o.length_firstRecords_le
  obtain ⟨hpcurr, -⟩ := (renderFirst_comes m ptr size o).rendered (by omega)
  have hdnsServers : Overrun ptr size 29
      (put ptr size (o.optflags .dnsServers) (setDNSServerIP o.dns o.dnsCnt) (renderFirst m ptr size o)) := by
    have hleft := room_behind size (n := (o.firstRecords.flatMap Record.encode).length) (by omega)
    have hlen : (UInt8.ofNat (o.dnsCnt * 4)).toNat = o.dnsCnt * 4 := UInt8.toNat_ofNat_of_lt' (show _ < 256 by omega)
    rw [put_some hpcurr, if_pos hflag, Nat.add_sub_cancel_left]
    unfold setDNSServerIP
    rw [if_neg (by omega)]
    dsimp only
    rw [hlen]
    exact ⟨_, rfl, by omega, by omega⟩
  have hreqIp := put_setRecord_overrun (o.optflags .requestedIp) (.requestedIp o.reqIp) 4 hdnsServers
    (length_be32Bytes _).le (by decide)
  have hleaseTime := put_setRecord_overrun (o.optflags .leaseTime) (.leaseTime o.leaseTime) 4 hreqIp (length_be32Bytes _).le
    (by decide)
  have hserver := put_setRecord_overrun (o.optflags .dhcpServer) (.dhcpServer o.server) 4 hleaseTime (length_be32Bytes _).le
    (by decide)
  have hparams : (Record.paramList ((List.range o.reqListCnt).map o.reqList)).pld.length ≤ 32 := by
    rw [Record.pld, List.length_map, List.length_range]
    exact hreq
  have hlist := put_setRecord_overrun (o.optflags .reqParamList) _ 32 hserver hparams (by decide)
  obtain ⟨p, hp, -⟩ := put_overrun (o.optflags .end) hlist setOptionsEnd_guarded (Nat.le_refl 1) (by decide)
  rw [renderOptions_eq]
  intro h
  cases hp.symm.trans h

theorem respectsBuffer_iff (hdns : o.dnsCnt ≤ 3) (hreq : o.reqListCnt ≤ 32) :
    RespectsBuffer m ptr size o ↔ o.DnsFits size := by
  constructor
  · intro h hflag hheader
    by_contra hover
    -- there is a pointer, though the options are longer than the buffer
    apply renderOptions_overrun m ptr size o hdns hreq hflag hheader (Nat.lt_of_not_le hover)
    have hlength := o.length_dns_le
    rw [flatMap_optRecord, if_pos hflag, length_encode_dns] at hlength
    exact h.null.2 (Nat.lt_of_lt_of_le (Nat.lt_of_not_le hover) hlength)
  · intro hfits
    exact respectsBuffer_of_comes m ptr size o (renderOptions_comes m ptr size o hdns hfits)

end Render

/-- 42 bytes for them. -/
theorem respectsBuffer_twoServers :
    (twoServers.dnsCnt ≤ 3 ∧ twoServers.reqListCnt ≤ 32) ∧ RespectsBuffer (fun _ => 0) 240 42 twoServers :=
  ⟨⟨by decide, by decide⟩, (respectsBuffer_iff (fun _ => 0) 240 42 twoServers (by decide) (by decide)).2 (by decide)⟩

/-- Two bytes for two servers: eight more are written. -/
theorem not_respectsBuffer_header :
    ¬ RespectsBuffer (fun _ => 0) 0 2 { twoServers with optflags := fun f => f = .dnsServers } := by
  intro h
  have hinside := h.inside 9 (by decide)
  exact absurd hinside (by decide)

end YieldStm32.DHCPFrame
