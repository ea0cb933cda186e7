import Mathlib.Tactic.IntervalCases
import YieldStm32.Net.Dhcp.Frame

/-!
# DHCP messages there and back

* `Record` : an option by what it says, with its bytes and what it does to an option set;
* `renderOptions_records`, `parseLoop_records` : the writer puts the records of a set one after the other, the reader
  applies them one after the other;
* `round_trip` : what is rendered is parsed again.
-/

namespace YieldStm32.DHCPFrame

open Ring TCPIP

/-! ## Numbers in network order -/

@[simp] theorem length_be32Bytes (x : BitVec 32) : (be32Bytes x).length = 4 := rfl

@[simp] theorem length_macBytes (x : Mac) : (macBytes x).length = 6 := rfl

/-- The cells of a copy. -/
theorem cell_of_copyOut {m : Mem} {p k i : Nat} {bs : List UInt8} (h : copyOut m p k = bs) (hi : i < k) :
    bs[i]? = some (m (p + i)) := by
  rw [← h, copyOut, List.getElem?_map, List.getElem?_range hi, Option.map_some]

theorem be16_of_copyOut {m : Mem} {p : Nat} {a b : UInt8} (h : copyOut m p 2 = [a, b]) :
    be16 m p = a.toBitVec ++ b.toBitVec := by
  have h0 := cell_of_copyOut h (i := 0) (by decide)
  have h1 := cell_of_copyOut h (i := 1) (by decide)
  unfold be16
  rw [← Option.some.inj h1]
  exact congrArg (fun x : UInt8 => x.toBitVec ++ b.toBitVec) (Option.some.inj h0).symm

theorem bytes_append (x : BitVec 32) :
    (x.extractLsb' 24 8 ++ x.extractLsb' 16 8) ++ (x.extractLsb' 8 8 ++ x.extractLsb' 0 8) = x := by
  apply BitVec.eq_of_getLsbD_eq
  intro i hi
  simp only [BitVec.getLsbD_append, BitVec.getLsbD_extractLsb']
  interval_cases i <;> simp

theorem be32_of_copyOut {m : Mem} {p : Nat} {x : BitVec 32} (h : copyOut m p 4 = be32Bytes x) : be32 m p = x := by
  rw [show 4 = 2 + 2 from rfl, copyOut_add] at h
  have happ : copyOut m p 2 ++ copyOut m (p + 2) 2 = [UInt8.ofBitVec (x.extractLsb' 24 8), .ofBitVec (x.extractLsb' 16 8)] ++
      [.ofBitVec (x.extractLsb' 8 8), .ofBitVec (x.extractLsb' 0 8)] := h
  obtain ⟨hhi, hlo⟩ := List.append_inj happ (length_copyOut ..)
  unfold be32
  rw [be16_of_copyOut hhi, be16_of_copyOut hlo]
  exact bytes_append x

/-! ## Addresses -/

/-- The flags are the same, and every flagged address is. -/
structure AddrSet.Agrees (a a' : AddrSet) : Prop where
  addrflags : a'.addrflags = a.addrflags
  ci : a.addrflags .ciaddr → a'.ci = a.ci
  yi : a.addrflags .yiaddr → a'.yi = a.yi
  si : a.addrflags .siaddr → a'.si = a.si
  gi : a.addrflags .giaddr → a'.gi = a.gi
  ch : a.addrflags .chaddr → a'.ch = a.ch

/-- No flagged address is zero. -/
structure AddrSet.NonZero (a : AddrSet) : Prop where
  ci : a.addrflags .ciaddr → a.ci ≠ 0
  yi : a.addrflags .yiaddr → a.yi ≠ 0
  si : a.addrflags .siaddr → a.si ≠ 0
  gi : a.addrflags .giaddr → a.gi ≠ 0
  ch : a.addrflags .chaddr → a.ch ≠ 0

theorem mac_append (x : Mac) :
    x.extractLsb' 16 32 ++ (x.extractLsb' 8 8 ++ x.extractLsb' 0 8) = x := by
  apply BitVec.eq_of_getLsbD_eq
  intro i hi
  simp only [BitVec.getLsbD_append, BitVec.getLsbD_extractLsb']
  interval_cases i <;> simp

theorem mac_of_copyOut {m : Mem} {p : Nat} {x : Mac} (h : copyOut m p 6 = macBytes x) : mac m p = x := by
  rw [show 6 = 4 + 2 from rfl, copyOut_add, macBytes] at h
  obtain ⟨hhi, hlo⟩ := List.append_inj h (length_copyOut ..)
  unfold mac
  rw [be32_of_copyOut hhi, be16_of_copyOut hlo]
  exact mac_append x

/-- A field reads what was written to it, whatever was written to fields around it. -/
theorem be32_copyIn_self (m : Mem) (p : Nat) (x : BitVec 32) : be32 (copyIn m p (be32Bytes x)) p = x :=
  be32_of_copyOut (copyOut_copyIn_self m p (be32Bytes x))

theorem be32_copyIn_of_disjoint (m : Mem) {p q : Nat} {bs : List UInt8} (h : q + 4 ≤ p ∨ p + bs.length ≤ q) :
    be32 (copyIn m p bs) q = be32 m q := by
  have hcell : ∀ i < 4, copyIn m p bs (q + i) = m (q + i) := fun i hi => dif_neg (by omega)
  unfold be32 be16
  rw [hcell 1 (by decide), hcell 2 (by decide), Nat.add_assoc q 2 1, hcell 3 (by decide), show q = q + 0 from rfl,
    hcell 0 (by decide)]

/-- The fields after `DHCPFrame_RenderAddresses`. -/
theorem renderAddresses_fields {m m' : Mem} {frame : Nat} {size : BitVec 32} {a : AddrSet}
    (h : renderAddresses m frame size a = some m') :
    getCIAddr m' frame = (if a.addrflags .ciaddr then a.ci else 0) ∧
      getYIAddr m' frame = (if a.addrflags .yiaddr then a.yi else 0) ∧
      getSIAddr m' frame = (if a.addrflags .siaddr then a.si else 0) ∧
      getGIAddr m' frame = (if a.addrflags .giaddr then a.gi else 0) ∧
      getCHAddr m' frame = (if a.addrflags .chaddr then a.ch else 0) := by
  unfold renderAddresses at h
  split at h
  case isTrue => cases h
  obtain rfl := Option.some.inj h
  have hlen : ∀ x : Mac, (macBytes x).length = 6 := fun _ => rfl
  refine ⟨?_, ?_, ?_, ?_, mac_of_copyOut (copyOut_copyIn_self _ _ _)⟩
  · unfold getCIAddr setCHAddr setGIAddr setSIAddr setYIAddr setCIAddr
    rw [be32_copyIn_of_disjoint _ (by omega), be32_copyIn_of_disjoint _ (by omega), be32_copyIn_of_disjoint _ (by omega),
      be32_copyIn_of_disjoint _ (by omega), be32_copyIn_self]
  · unfold getYIAddr setCHAddr setGIAddr setSIAddr setYIAddr
    rw [be32_copyIn_of_disjoint _ (by omega), be32_copyIn_of_disjoint _ (by omega), be32_copyIn_of_disjoint _ (by omega),
      be32_copyIn_self]
  · unfold getSIAddr setCHAddr setGIAddr setSIAddr
    rw [be32_copyIn_of_disjoint _ (by omega), be32_copyIn_of_disjoint _ (by omega), be32_copyIn_self]
  · unfold getGIAddr setCHAddr setGIAddr
    rw [be32_copyIn_of_disjoint _ (by omega), be32_copyIn_self]

/-- A flag is set again exactly where it was, for addresses that are not zero. -/
theorem orFlag_ite {w : Nat} (flags : AddrFlag → Bool) (flag : AddrFlag) {b : Bool} {x : BitVec w} (hx : b → x ≠ 0) :
    orFlag flags flag (if b then x else 0) = if b then Function.update flags flag true else flags := by
  unfold orFlag
  cases b with
  | false => simp
  | true => rw [if_pos rfl, if_pos rfl, if_pos (hx rfl)]

theorem parseAddresses_renderAddresses {m : Mem} {frame : Nat} {size : BitVec 32} {a a0 : AddrSet}
    (hsize : frameSize ≤ size.toNat) (ha : a.NonZero) (h0 : a0.addrflags = fun _ => false) :
    ∃ m' a', renderAddresses m frame size a = some m' ∧ parseAddresses m' frame size a0 = some a' ∧ a.Agrees a' := by
  have hroom : ¬ size.toNat < frameSize := Nat.not_lt.2 hsize
  obtain ⟨m', hm⟩ : ∃ m', renderAddresses m frame size a = some m' := ⟨_, if_neg hroom⟩
  obtain ⟨hci, hyi, hsi, hgi, hch⟩ := renderAddresses_fields hm
  refine ⟨m', _, hm, if_neg hroom, ?_, ?_, ?_, ?_, ?_, ?_⟩
  · simp only [hci, hyi, hsi, hgi, hch, h0, orFlag_ite _ _ ha.ci, orFlag_ite _ _ ha.yi, orFlag_ite _ _ ha.si,
      orFlag_ite _ _ ha.gi, orFlag_ite _ _ ha.ch]
    funext flag
    cases flag <;> simp [ite_apply]
  · intro h
    simp [hci, h]
  · intro h
    simp [hyi, h]
  · intro h
    simp [hsi, h]
  · intro h
    simp [hgi, h]
  · intro h
    simp [hch, h]

/-! ## Options -/

/-- An option by what it says. -/
inductive Record where
  | msgType (t : UInt8)
  | subnet (ip : Ip)
  | router (ip : Ip)
  | dns (ips : List Ip)
  | requestedIp (ip : Ip)
  | leaseTime (seconds : BitVec 32)
  | dhcpServer (ip : Ip)
  | paramList (list : List UInt8)

namespace Record

def code : Record → UInt8
  | msgType _ => 53
  | subnet _ => 1
  | router _ => 3
  | dns _ => 6
  | requestedIp _ => 50
  | leaseTime _ => 51
  | dhcpServer _ => 54
  | paramList _ => 55

def pld : Record → List UInt8
  | msgType t => [t]
  | dns ips => ips.flatMap be32Bytes
  | paramList list => list
  | subnet ip | router ip | requestedIp ip | dhcpServer ip => be32Bytes ip
  | leaseTime seconds => be32Bytes seconds

def encode (r : Record) : List UInt8 := r.code :: .ofNat r.pld.length :: r.pld

/-- One to three servers, one to 32 parameters. -/
def Fits : Record → Prop
  | dns ips => 1 ≤ ips.length ∧ ips.length ≤ 3
  | paramList list => 1 ≤ list.length ∧ list.length ≤ 32
  | _ => True

/-- What a record does to an option set. -/
def apply (o : OptSet) : Record → OptSet
  | msgType t => { o with msgType := t }.mark .msgtype
  | subnet ip => { o with subnet := ip }.mark .subnet
  | router ip => { o with router := ip }.mark .router
  | dns ips => { o with dns := fun i => ips[i]?.getD (o.dns i), dnsCnt := ips.length }.mark .dnsServers
  | requestedIp ip => { o with reqIp := ip }.mark .requestedIp
  | leaseTime seconds => { o with leaseTime := seconds }.mark .leaseTime
  | dhcpServer ip => { o with server := ip }.mark .dhcpServer
  | paramList list =>
    { o with reqList := fun i => list[i]?.getD (o.reqList i), reqListCnt := list.length }.mark .reqParamList

theorem length_encode (r : Record) : r.encode.length = 2 + r.pld.length := by
  rw [encode, List.length_cons, List.length_cons]
  omega

theorem length_dns (ips : List Ip) : (ips.flatMap be32Bytes).length = 4 * ips.length := by
  induction ips with
  | nil => rfl
  | cons ip ips ih =>
      rw [List.flatMap_cons, List.length_append, ih, length_be32Bytes, List.length_cons]
      omega

theorem Fits.length_le {r : Record} (h : r.Fits) : r.pld.length ≤ 32 := by
  cases r with
  | msgType t => exact (by decide : 1 ≤ 32)
  | dns ips =>
      have := h.2
      rw [pld, length_dns]
      omega
  | paramList list => exact h.2
  | subnet ip => exact (by decide : 4 ≤ 32)
  | router ip => exact (by decide : 4 ≤ 32)
  | requestedIp ip => exact (by decide : 4 ≤ 32)
  | leaseTime seconds => exact (by decide : 4 ≤ 32)
  | dhcpServer ip => exact (by decide : 4 ≤ 32)

theorem code_ne_end (r : Record) : r.code ≠ 0xff := by
  unfold code
  split <;> decide

end Record

/-! ## Reading a record -/

/-- The cells of a record. -/
theorem Record.cells {m : Mem} {p : Nat} {r : Record} (h : copyOut m p r.encode.length = r.encode) :
    m p = r.code ∧ m (p + 1) = .ofNat r.pld.length ∧ copyOut m (p + 2) r.pld.length = r.pld := by
  rw [length_encode, copyOut_add] at h
  have happ : copyOut m p 2 ++ copyOut m (p + 2) r.pld.length = [r.code, .ofNat r.pld.length] ++ r.pld := h
  obtain ⟨hhdr, hpld⟩ := List.append_inj happ (length_copyOut ..)
  have h0 := cell_of_copyOut hhdr (i := 0) (by decide)
  have h1 := cell_of_copyOut hhdr (i := 1) (by decide)
  exact ⟨(Option.some.inj h0).symm, (Option.some.inj h1).symm, hpld⟩

theorem getOptionHdr_record {m : Mem} {p : Nat} {r : Record} {size : BitVec 32} (h : copyOut m p r.encode.length = r.encode)
    (hr : r.Fits) (hsize : r.encode.length ≤ size.toNat) :
    getOptionHdr m p size = some (r.code, p + r.encode.length) := by
  obtain ⟨hcode, hlen, -⟩ := r.cells h
  have hle := hr.length_le
  have hnat : (UInt8.ofNat r.pld.length).toNat = r.pld.length := UInt8.toNat_ofNat_of_lt' (show _ < 256 by omega)
  rw [Record.length_encode] at hsize ⊢
  unfold getOptionHdr
  rw [hcode, hlen, hnat, if_neg (by omega), if_neg r.code_ne_end, Nat.add_assoc]

theorem getU32_record {m : Mem} {p : Nat} {r : Record} {x : BitVec 32} (h : copyOut m p r.encode.length = r.encode)
    (hx : r.pld = be32Bytes x) : getU32 r.code m p = some x := by
  obtain ⟨hcode, hlen, hpld⟩ := r.cells h
  rw [hx] at hlen hpld
  unfold getU32
  rw [if_neg (by rw [hcode, hlen]; simp), be32_of_copyOut hpld]

/-- A loop over the elements reads those there are, and leaves the others as they were. -/
theorem readList_eq {α : Type} {get : Nat → Option α} {xs : List α} {n : Nat} (arr : Nat → α)
    (h : ∀ i < n, get i = xs[i]?) (hn : xs.length ≤ n) :
    readList get n arr = (fun i => xs[i]?.getD (arr i), xs.length) := by
  have hpre : ∀ k ≤ n, readList get k arr = (fun i => if i < k then xs[i]?.getD (arr i) else arr i, min k xs.length) := by
    intro k
    induction k with
    | zero => exact fun _ => by simp [readList]
    | succ k ih =>
        intro hk
        have hprev := ih (by omega)
        unfold readList at hprev ⊢
        rw [List.range_succ, List.foldl_append, hprev, List.foldl_cons, List.foldl_nil, h k (by omega)]
        cases hx : xs[k]? with
        | none =>
            have hlen := List.getElem?_eq_none_iff.1 hx
            refine Prod.ext (funext fun i => ?_) (by show min k _ = min (k + 1) _; omega)
            show (if i < k then _ else _) = if i < k + 1 then _ else _
            rcases Nat.lt_trichotomy i k with hi | rfl | hi
            · rw [if_pos hi, if_pos (by omega)]
            · rw [if_neg (by omega), if_pos (by omega), hx, Option.getD_none]
            · rw [if_neg (by omega), if_neg (by omega)]
        | some x =>
            obtain ⟨hlen, -⟩ := List.getElem?_eq_some_iff.1 hx
            refine Prod.ext (funext fun i => ?_) (by show min k _ + 1 = min (k + 1) _; omega)
            show Function.update (fun i => if i < k then xs[i]?.getD (arr i) else arr i) k x i = if i < k + 1 then _ else _
            rcases Nat.lt_trichotomy i k with hi | rfl | hi
            · rw [Function.update_of_ne (by omega), if_pos hi, if_pos (by omega)]
            · rw [Function.update_self, if_pos (by omega), hx, Option.getD_some]
            · rw [Function.update_of_ne (by omega), if_neg (by omega), if_neg (by omega)]
  rw [hpre n (Nat.le_refl n), Nat.min_eq_right hn]
  refine Prod.ext (funext fun i => ?_) rfl
  show (if i < n then _ else _) = xs[i]?.getD (arr i)
  split
  · rfl
  · rw [List.getElem?_eq_none (by omega), Option.getD_none]

/-- The elements of a list of addresses. -/
theorem be32_dns {m : Mem} {p : Nat} {ips : List Ip} (h : copyOut m p (ips.flatMap be32Bytes).length = ips.flatMap be32Bytes)
    {i : Nat} (hi : i < ips.length) : ips[i]? = some (be32 m (p + i * 4)) := by
  induction ips generalizing p i with
  | nil => exact absurd hi (Nat.not_lt_zero i)
  | cons ip ips ih =>
      rw [List.flatMap_cons, List.length_append, copyOut_add] at h
      obtain ⟨hip, hrest⟩ := List.append_inj h (by rw [length_copyOut])
      cases i with
      | zero => rw [List.getElem?_cons_zero, Nat.zero_mul, Nat.add_zero, be32_of_copyOut hip]
      | succ i =>
          rw [List.getElem?_cons_succ, ih hrest (Nat.lt_of_succ_lt_succ hi), length_be32Bytes]
          congr 2
          omega

theorem readList_dns {m : Mem} {p : Nat} {ips : List Ip} (arr : Nat → Ip)
    (h : copyOut m p (Record.dns ips).encode.length = (Record.dns ips).encode) (hr : (Record.dns ips).Fits) :
    readList (getDNSServerIP m p) 3 arr = (fun i => ips[i]?.getD (arr i), ips.length) := by
  obtain ⟨hcode, hlen, hpld⟩ := (Record.dns ips).cells h
  have hle : ips.length ≤ 3 := hr.2
  have hsize : (m (p + 1)).toNat = 4 * ips.length := by
    rw [hlen, Record.pld, Record.length_dns]
    exact UInt8.toNat_ofNat_of_lt' (show _ < 256 by omega)
  refine readList_eq arr (fun i _ => ?_) hle
  unfold getDNSServerIP
  rw [if_neg (by rw [hcode, hsize]; simp [Record.code]), hsize]
  split
  · rw [List.getElem?_eq_none (by omega)]
  · rw [be32_dns hpld (by omega)]

theorem readList_params {m : Mem} {p : Nat} {list : List UInt8} (arr : Nat → UInt8)
    (h : copyOut m p (Record.paramList list).encode.length = (Record.paramList list).encode)
    (hr : (Record.paramList list).Fits) :
    readList (getParameterRequestList m p) 32 arr = (fun i => list[i]?.getD (arr i), list.length) := by
  obtain ⟨hcode, hlen, hpld⟩ := (Record.paramList list).cells h
  have hle : list.length ≤ 32 := hr.2
  have hsize : (m (p + 1)).toNat = list.length := by
    rw [hlen, Record.pld]
    exact UInt8.toNat_ofNat_of_lt' (show _ < 256 by omega)
  refine readList_eq arr (fun i _ => ?_) hle
  unfold getParameterRequestList
  rw [hsize]
  split
  · rename_i hno
    have hcode' : m p = 55 := hcode
    rw [List.getElem?_eq_none (hno.resolve_left (not_not.2 hcode'))]
  · rename_i hyes
    have hi : i < list.length := Nat.lt_of_not_le fun hle => hyes (Or.inr hle)
    rw [← cell_of_copyOut hpld hi]
    rfl

/-- The switch applies the record. -/
theorem parseOption_record {m : Mem} {p : Nat} {r : Record} (o : OptSet) (h : copyOut m p r.encode.length = r.encode)
    (hr : r.Fits) : parseOption m p r.code o = r.apply o := by
  cases r with
  | msgType t =>
      obtain ⟨hcode, hlen, hpld⟩ := (Record.msgType t).cells h
      have hget : getMessageType m p = some t := by
        have ht := cell_of_copyOut hpld (i := 0) (Nat.zero_lt_one)
        have hcode' : m p = 53 := hcode
        have hlen' : m (p + 1) = 1 := hlen
        unfold getMessageType
        rw [if_neg (by rw [hcode', hlen']; decide)]
        exact ht.symm
      show (getMessageType m p).elim o _ = _
      rw [hget]
      rfl
  | requestedIp ip =>
      have hget : getRequestedIP m p = some ip := getU32_record h rfl
      show (getRequestedIP m p).elim o _ = _
      rw [hget]
      rfl
  | subnet ip =>
      have hget : getSubnetMask m p = some ip := getU32_record h rfl
      show (getSubnetMask m p).elim o _ = _
      rw [hget]
      rfl
  | router ip =>
      have hget : getRouterIP m p = some ip := getU32_record h rfl
      show (getRouterIP m p).elim o _ = _
      rw [hget]
      rfl
  | leaseTime seconds =>
      have hget : getLeaseTime m p = some seconds := getU32_record h rfl
      show (getLeaseTime m p).elim o _ = _
      rw [hget]
      rfl
  | dhcpServer ip =>
      have hget : getDHCPServerIP m p = some ip := getU32_record h rfl
      show (getDHCPServerIP m p).elim o _ = _
      rw [hget]
      rfl
  | dns ips =>
      have hne : ips.length ≠ 0 := Nat.one_le_iff_ne_zero.1 hr.1
      show (if (readList (getDNSServerIP m p) 3 o.dns).2 ≠ 0 then _ else _) = _
      rw [readList_dns o.dns h hr, if_pos hne]
      rfl
  | paramList list =>
      have hne : list.length ≠ 0 := Nat.one_le_iff_ne_zero.1 hr.1
      show (if (readList (getParameterRequestList m p) 32 o.reqList).2 ≠ 0 then _ else _) = _
      rw [readList_params o.reqList h hr, if_pos hne]
      rfl

/-- The loop over records and the end mark, from any of them on. -/
theorem parseLoop_records {m : Mem} {ptr p n : Nat} {size : BitVec 32} (o : OptSet) (rs : List Record)
    (hr : ∀ r ∈ rs, r.Fits) (hp : ptr ≤ p) (hbytes : copyOut m p (rs.flatMap Record.encode).length = rs.flatMap Record.encode)
    (hend : m (p + (rs.flatMap Record.encode).length) = 0xff)
    (hsize : p - ptr + (rs.flatMap Record.encode).length < size.toNat) (hn : rs.length < n) :
    parseLoop m ptr size n p o =
      (some (p + (rs.flatMap Record.encode).length + 1), (rs.foldl Record.apply o).mark .end) := by
  induction rs generalizing p n o with
  | nil =>
      obtain ⟨n, rfl⟩ := Nat.exists_eq_add_of_le' (Nat.succ_le_of_lt hn)
      exact if_pos hend
  | cons r rs ih =>
      obtain ⟨n, rfl⟩ := Nat.exists_eq_add_of_le' (Nat.succ_le_of_lt (Nat.lt_of_le_of_lt (Nat.zero_le _) hn))
      rw [List.flatMap_cons, List.length_append] at hbytes hend hsize ⊢
      rw [copyOut_add] at hbytes
      obtain ⟨hrec, hrest⟩ := List.append_inj hbytes (length_copyOut ..)
      have hfits := hr r (List.mem_cons_self ..)
      have hroom := room_behind size (n := p - ptr) (by omega)
      have hcode : m p ≠ 0xff := by
        rw [(r.cells hrec).1]
        exact r.code_ne_end
      rw [parseLoop, if_neg hcode, getOptionHdr_record hrec hfits (by omega)]
      dsimp only
      rw [parseOption_record o hrec hfits, ih (r.apply o) (fun r hmem => hr r (List.mem_cons_of_mem _ hmem)) (by omega) hrest
        (by rw [← hend]; congr 1; omega) (by omega) (Nat.lt_of_succ_lt_succ hn)]
      rw [List.foldl_cons, Nat.add_assoc p]

/-! ## Writing the records of a set -/

/-- A record, where its flag is set. -/
def optRecord (flag : Bool) (r : Record) : List Record := if flag then [r] else []

/-- The records of an option set, in the order they are written. -/
def OptSet.records (o : OptSet) : List Record :=
  optRecord (o.optflags .msgtype) (.msgType o.msgType) ++ optRecord (o.optflags .subnet) (.subnet o.subnet) ++
    optRecord (o.optflags .router) (.router o.router) ++
    optRecord (o.optflags .dnsServers) (.dns ((List.range o.dnsCnt).map o.dns)) ++
    optRecord (o.optflags .requestedIp) (.requestedIp o.reqIp) ++
    optRecord (o.optflags .leaseTime) (.leaseTime o.leaseTime) ++
    optRecord (o.optflags .dhcpServer) (.dhcpServer o.server) ++
    optRecord (o.optflags .reqParamList) (.paramList ((List.range o.reqListCnt).map o.reqList))

/-- The bytes of the options, with the end mark. -/
def OptSet.length (o : OptSet) : Nat := (o.records.flatMap Record.encode).length + 1

/-- One to three servers and one to 32 parameters, where they are flagged. -/
structure OptSet.Consistent (o : OptSet) : Prop where
  dns : o.optflags .dnsServers → 1 ≤ o.dnsCnt ∧ o.dnsCnt ≤ 3
  reqList : o.optflags .reqParamList → 1 ≤ o.reqListCnt ∧ o.reqListCnt ≤ 32

/-- The bytes `bs` are written, and the pointer is behind them. -/
structure Rendered (ptr : Nat) (bs : List UInt8) (s : Mem × Option Nat) : Prop where
  pcurr : s.2 = some (ptr + bs.length)
  bytes : copyOut s.1 ptr bs.length = bs

/-- The writer writes the record, where there is room for it. -/
def Writes (set : Writer) (r : Record) : Prop :=
  ∀ (m : Mem) (p : Nat) (size : BitVec 32), r.encode.length ≤ size.toNat →
    set m p size = (copyIn m p r.encode, some (p + r.encode.length))

theorem setRecord_writes (r : Record) : Writes (setRecord r.code r.pld) r := by
  intro m p size h
  rw [Record.length_encode] at h ⊢
  unfold setRecord
  rw [if_neg (by omega), Nat.add_assoc]
  rfl

theorem setDNSServerIP_writes {ips : Nat → Ip} {count : Nat} (h : count ≤ 3) :
    Writes (setDNSServerIP ips count) (.dns ((List.range count).map ips)) := by
  intro m p size hsize
  have hpld : ((List.range count).flatMap fun i => be32Bytes (ips i)) = (Record.dns ((List.range count).map ips)).pld := by
    rw [Record.pld, List.flatMap_map]
  have hlen : (Record.dns ((List.range count).map ips)).pld.length = count * 4 := by
    rw [Record.pld, Record.length_dns, List.length_map, List.length_range, Nat.mul_comm]
  rw [Record.length_encode, hlen] at hsize ⊢
  unfold setDNSServerIP
  rw [if_neg (by omega), hpld]
  dsimp only
  rw [UInt8.toNat_ofNat_of_lt' (show count * 4 < 256 by omega), Nat.add_assoc, ← hlen]
  rfl

theorem put_rendered {ptr : Nat} {size : BitVec 32} {flag : Bool} {set : Writer} {r : Record} {rs : List Record}
    {s : Mem × Option Nat} (h : Rendered ptr (rs.flatMap Record.encode) s) (hw : flag → Writes set r)
    (hsize : ((rs ++ optRecord flag r).flatMap Record.encode).length ≤ size.toNat) :
    Rendered ptr ((rs ++ optRecord flag r).flatMap Record.encode) (put ptr size flag set s) := by
  obtain ⟨hp, hbytes⟩ := h
  unfold put
  rw [hp]
  cases flag with
  | false =>
      rw [optRecord, if_neg Bool.false_ne_true, List.append_nil]
      exact ⟨hp, hbytes⟩
  | true =>
      rw [optRecord, if_pos rfl, List.flatMap_append, List.flatMap_singleton, List.length_append] at hsize
      rw [optRecord, if_pos rfl, List.flatMap_append, List.flatMap_singleton]
      dsimp only
      rw [if_pos rfl, hw rfl _ _ _ (by have := size.isLt; bv_omega)]
      refine ⟨?_, ?_⟩
      · rw [List.length_append, Nat.add_assoc]
      · rw [List.length_append]
        exact (copyOut_copyIn_behind s.1 ptr _ r.encode).trans (by rw [hbytes])

/-- The end mark behind the records. -/
theorem put_end {ptr : Nat} {size : BitVec 32} {flag : Bool} {bs : List UInt8} {s : Mem × Option Nat} (h : Rendered ptr bs s)
    (hflag : flag) (hsize : bs.length + 1 ≤ size.toNat) : Rendered ptr (bs ++ [0xff]) (put ptr size flag setOptionsEnd s) := by
  obtain ⟨hp, hbytes⟩ := h
  unfold put setOptionsEnd
  rw [hp]
  dsimp only
  rw [if_pos hflag, if_neg (by have := size.isLt; bv_omega)]
  refine ⟨?_, ?_⟩
  · rw [List.length_append, Nat.add_assoc]
    rfl
  · rw [List.length_append]
    exact (copyOut_copyIn_behind s.1 ptr _ [0xff]).trans (by rw [hbytes])

/-- A record that comes before others does. -/
theorem length_le_append (rs rs' : List Record) :
    (rs.flatMap Record.encode).length ≤ ((rs ++ rs').flatMap Record.encode).length := by
  rw [List.flatMap_append, List.length_append]
  exact Nat.le_add_right ..

theorem renderOptions_records {m : Mem} {ptr : Nat} {size : BitVec 32} {o : OptSet} (hend : o.optflags .end)
    (hc : o.Consistent) (hsize : o.length ≤ size.toNat) :
    Rendered ptr (o.records.flatMap Record.encode ++ [0xff]) (renderOptions m ptr size o) := by
  have hroom : (o.records.flatMap Record.encode).length ≤ size.toNat := Nat.le_of_succ_le hsize
  have h0 : Rendered ptr (([] : List Record).flatMap Record.encode) (m, some ptr) := ⟨rfl, rfl⟩
  have hle := fun rs rs' (h : ((rs ++ rs').flatMap Record.encode).length ≤ size.toNat) =>
    Nat.le_trans (length_le_append rs rs') h
  have h8 := hroom
  unfold OptSet.records at h8
  have h7 := hle _ _ h8
  have h6 := hle _ _ h7
  have h5 := hle _ _ h6
  have h4 := hle _ _ h5
  have h3 := hle _ _ h4
  have h2 := hle _ _ h3
  have h1 := hle _ _ h2
  have r1 := @put_rendered ptr size _ _ (.msgType o.msgType) _ _ h0 (fun _ => setRecord_writes _) h1
  have r2 := @put_rendered ptr size _ _ (.subnet o.subnet) _ _ r1 (fun _ => setRecord_writes _) h2
  have r3 := @put_rendered ptr size _ _ (.router o.router) _ _ r2 (fun _ => setRecord_writes _) h3
  have r4 := @put_rendered ptr size _ _ (.dns ((List.range o.dnsCnt).map o.dns)) _ _ r3
    (fun hf => setDNSServerIP_writes (hc.dns hf).2) h4
  have r5 := @put_rendered ptr size _ _ (.requestedIp o.reqIp) _ _ r4 (fun _ => setRecord_writes _) h5
  have r6 := @put_rendered ptr size _ _ (.leaseTime o.leaseTime) _ _ r5 (fun _ => setRecord_writes _) h6
  have r7 := @put_rendered ptr size _ _ (.dhcpServer o.server) _ _ r6 (fun _ => setRecord_writes _) h7
  have r8 := @put_rendered ptr size _ _ (.paramList ((List.range o.reqListCnt).map o.reqList)) _ _ r7
    (fun _ => setRecord_writes _) h8
  exact put_end r8 hend hsize

/-! ## There and back -/

/-- The flags are the same, and every flagged value is. -/
structure OptSet.Agrees (o o' : OptSet) : Prop where
  optflags : o'.optflags = o.optflags
  msgType : o.optflags .msgtype → o'.msgType = o.msgType
  subnet : o.optflags .subnet → o'.subnet = o.subnet
  router : o.optflags .router → o'.router = o.router
  dns : o.optflags .dnsServers → o'.dnsCnt = o.dnsCnt ∧ ∀ i < o.dnsCnt, o'.dns i = o.dns i
  reqIp : o.optflags .requestedIp → o'.reqIp = o.reqIp
  leaseTime : o.optflags .leaseTime → o'.leaseTime = o.leaseTime
  server : o.optflags .dhcpServer → o'.server = o.server
  reqList : o.optflags .reqParamList → o'.reqListCnt = o.reqListCnt ∧ ∀ i < o.reqListCnt, o'.reqList i = o.reqList i

@[simp] theorem foldl_optRecord (flag : Bool) (r : Record) (o : OptSet) :
    (optRecord flag r).foldl Record.apply o = if flag then r.apply o else o := by
  cases flag <;> rfl

/-- Applying the records of a set, from cleared flags, gives the set. -/
theorem OptSet.agrees_foldl {o o0 : OptSet} (hend : o.optflags .end) (h0 : o0.optflags = fun _ => false) :
    o.Agrees ((o.records.foldl Record.apply o0).mark .end) := by
  unfold OptSet.records
  simp only [List.foldl_append, foldl_optRecord]
  refine ⟨?_, ?_, ?_, ?_, ?_, ?_, ?_, ?_, ?_⟩
  · funext flag
    cases flag <;> simp [OptSet.mark, Record.apply, apply_ite OptSet.optflags, ite_apply, h0, hend]
  · intro h
    simp [h, OptSet.mark, Record.apply, apply_ite OptSet.msgType]
  · intro h
    simp [h, OptSet.mark, Record.apply, apply_ite OptSet.subnet]
  · intro h
    simp [h, OptSet.mark, Record.apply, apply_ite OptSet.router]
  · intro h
    constructor
    · simp [h, OptSet.mark, Record.apply, apply_ite OptSet.dnsCnt]
    · intro i hi
      simp [h, OptSet.mark, Record.apply, apply_ite OptSet.dns, ite_apply, List.getElem?_range hi]
  · intro h
    simp [h, OptSet.mark, Record.apply, apply_ite OptSet.reqIp]
  · intro h
    simp [h, OptSet.mark, Record.apply, apply_ite OptSet.leaseTime]
  · intro h
    simp [h, OptSet.mark, Record.apply, apply_ite OptSet.server]
  · intro h
    constructor
    · simp [h, OptSet.mark, Record.apply, apply_ite OptSet.reqListCnt]
    · intro i hi
      simp [h, OptSet.mark, Record.apply, apply_ite OptSet.reqList, ite_apply, List.getElem?_range hi]

@[simp] theorem mem_optRecord {flag : Bool} {r r' : Record} : r' ∈ optRecord flag r ↔ flag ∧ r' = r := by
  cases flag <;> simp [optRecord]

theorem OptSet.Consistent.fits {o : OptSet} (h : o.Consistent) : ∀ r ∈ o.records, r.Fits := by
  intro r hr
  simp only [OptSet.records, List.mem_append, mem_optRecord] at hr
  rcases hr with ((((((⟨-, rfl⟩ | ⟨-, rfl⟩) | ⟨-, rfl⟩) | ⟨hf, rfl⟩) | ⟨-, rfl⟩) | ⟨-, rfl⟩) | ⟨-, rfl⟩) | ⟨hf, rfl⟩
  · trivial
  · trivial
  · trivial
  · show 1 ≤ ((List.range o.dnsCnt).map o.dns).length ∧ ((List.range o.dnsCnt).map o.dns).length ≤ 3
    rw [List.length_map, List.length_range]
    exact h.dns hf
  · trivial
  · trivial
  · trivial
  · show 1 ≤ ((List.range o.reqListCnt).map o.reqList).length ∧ ((List.range o.reqListCnt).map o.reqList).length ≤ 32
    rw [List.length_map, List.length_range]
    exact h.reqList hf

theorem length_le_flatMap (rs : List Record) : rs.length ≤ (rs.flatMap Record.encode).length := by
  induction rs with
  | nil => exact Nat.le_refl 0
  | cons r rs ih =>
      rw [List.flatMap_cons, List.length_append, Record.length_encode, List.length_cons]
      omega

theorem parseOptions_renderOptions {m : Mem} {ptr : Nat} {size size' : BitVec 32} {o o0 : OptSet} (hend : o.optflags .end)
    (hc : o.Consistent) (hsize : o.length ≤ size.toNat) (hsize' : o.length ≤ size'.toNat) :
    let r := renderOptions m ptr size o
    let q := parseOptions r.1 ptr size' o0
    r.2 = some (ptr + o.length) ∧ q.1 = r.2 ∧ o.Agrees q.2 := by
  intro r q
  obtain ⟨hp, hbytes⟩ := @renderOptions_records m ptr size o hend hc hsize
  rw [List.length_append] at hp hbytes
  rw [copyOut_add] at hbytes
  obtain ⟨hrecs, hmark⟩ := List.append_inj hbytes (length_copyOut ..)
  have hff : r.1 (ptr + (o.records.flatMap Record.encode).length) = 0xff :=
    (Option.some.inj (cell_of_copyOut hmark (i := 0) Nat.zero_lt_one)).symm
  have hlen : (o.records.flatMap Record.encode).length + 1 ≤ size'.toNat := hsize'
  have hcount := length_le_flatMap o.records
  have hpos : size' ≠ 0 := by
    rintro rfl
    exact absurd hlen (by simp)
  have hq : q = (some (ptr + (o.records.flatMap Record.encode).length + 1),
      (o.records.foldl Record.apply { o0 with optflags := fun _ => false }).mark .end) := by
    show parseOptions r.1 ptr size' o0 = _
    unfold parseOptions
    dsimp only
    rw [if_neg hpos]
    exact parseLoop_records _ o.records hc.fits (Nat.le_refl ptr) hrecs hff (by omega) (by omega)
  refine ⟨hp, ?_, ?_⟩
  · rw [hq]
    exact hp.symm
  · rw [hq]
    exact OptSet.agrees_foldl hend rfl

/-- **DHCP messages round trip**: the options rendered from a set are parsed to the same flags and values, up to the end
of what was rendered; and so are the addresses. -/
theorem round_trip (m : Mem) (ptr : Nat) (size size' : BitVec 32) (o o0 : OptSet) (frame : Nat) (sizeA : BitVec 32)
    (a a0 : AddrSet) (hend : o.optflags .end) (hc : o.Consistent) (hsize : o.length ≤ size.toNat)
    (hsize' : o.length ≤ size'.toNat) (hsizeA : frameSize ≤ sizeA.toNat) (ha : a.NonZero)
    (h0 : a0.addrflags = fun _ => false) :
    (let r := renderOptions m ptr size o
      let q := parseOptions r.1 ptr size' o0
      r.2 = some (ptr + o.length) ∧ q.1 = r.2 ∧ o.Agrees q.2) ∧
      ∃ m' a', renderAddresses m frame sizeA a = some m' ∧ parseAddresses m' frame sizeA a0 = some a' ∧ a.Agrees a' :=
  ⟨parseOptions_renderOptions hend hc hsize hsize', parseAddresses_renderAddresses hsizeA ha h0⟩

/-- A lease with two servers and two parameters. -/
def twoServers : OptSet where
  optflags f := f ≠ .router
  msgType := 5
  subnet := 0xffffff00
  router := 0
  server := 0xc0a8327c
  dns i := BitVec.ofNat 32 i
  dnsCnt := 2
  leaseTime := 3600
  reqList i := .ofNat (i + 1)
  reqListCnt := 2
  reqIp := 0xc0a83265

/-- A client and the address it gets. -/
def clientAddrs : AddrSet where
  addrflags f := f = .yiaddr ∨ f = .chaddr
  ci := 0
  yi := 0xc0a83265
  si := 0
  gi := 0
  ch := 0x020000000001

theorem round_trip_twoServers :
    (twoServers.optflags .end ∧ twoServers.Consistent ∧ twoServers.length ≤ (64 : BitVec 32).toNat ∧
        twoServers.length ≤ (42 : BitVec 32).toNat ∧ frameSize ≤ (240 : BitVec 32).toNat ∧ clientAddrs.NonZero) ∧
      (parseOptions (renderOptions (fun _ => 0) 240 64 twoServers).1 240 42 twoServers).1 = some 282 := by
  have hend : twoServers.optflags .end := by decide
  have hc : twoServers.Consistent := ⟨fun _ => by decide, fun _ => by decide⟩
  have hlen : twoServers.length = 42 := by decide
  have ha : clientAddrs.NonZero := ⟨nofun, fun _ => by decide, nofun, nofun, fun _ => by decide⟩
  have hsize : twoServers.length ≤ (64 : BitVec 32).toNat := by
    rw [hlen]
    decide
  have hsize' : twoServers.length ≤ (42 : BitVec 32).toNat := by
    rw [hlen]
    decide
  have h := (round_trip (fun _ => 0) 240 64 42 twoServers twoServers 0 240 clientAddrs
    { clientAddrs with addrflags := fun _ => false } hend hc hsize hsize' (by decide) ha rfl).1
  refine ⟨⟨hend, hc, hsize, hsize', by decide, ha⟩, ?_⟩
  rw [h.2.1, h.1, hlen]

end YieldStm32.DHCPFrame
