import Mathlib.Algebra.Group.Nat.Even
import YieldStm32.Lib.EndAround
import YieldStm32.Net.Frame

/-!
# Checksums (`checksum.c`, `ip_checksum.c`, `icmp_checksum.c`, `tcp_checksum.c`, `udp_checksum.c`)

* `words` : what RFC 1071 adds up, 16 bits at a time;
* `checksum_rfc1071` : `TCPIPChecksum_Checksum` is its sum, in one part or in two;
* `ipChecksumSet`, `icmpChecksumSet`, `tcpChecksumSet`, `udpChecksumSet` : the checksums of outgoing frames;
* `checksums_detect` : what was set is valid, and is not with another word in the place of a covered one.
-/

namespace YieldStm32.TCPIP

open EndAround Ring

/-- Big-endian words; a single byte at the end is padded with zeros. -/
def words : List UInt8 → List (BitVec 16)
  | [] => []
  | [b] => [b.toBitVec ++ 0#8]
  | b0 :: b1 :: bs => (b0.toBitVec ++ b1.toBitVec) :: words bs

theorem words_append {xs : List UInt8} (h : Even xs.length) (ys : List UInt8) : words (xs ++ ys) = words xs ++ words ys := by
  induction xs using words.induct with
  | case1 => rfl
  | case2 b => exact absurd h Nat.not_even_one
  | case3 b0 b1 bs ih =>
      rw [List.length_cons, List.length_cons, Nat.even_add_one, Nat.even_add_one, not_not] at h
      exact congrArg ((b0.toBitVec ++ b1.toBitVec) :: ·) (ih h)

theorem checksum_eq_total (sum : BitVec 16) (bytes : List UInt8) : checksum sum bytes = total sum (words bytes) := by
  rw [← foldl_add (by decide)]
  induction bytes using words.induct generalizing sum with
  | case1 => rfl
  | case2 b => rfl
  | case3 b0 b1 bs ih => exact ih (sumWord sum (b0.toBitVec ++ b1.toBitVec))

theorem checksum_append (sum : BitVec 16) {xs : List UInt8} (h : Even xs.length) (ys : List UInt8) :
    checksum (checksum sum xs) ys = checksum sum (xs ++ ys) := by
  rw [checksum_eq_total, checksum_eq_total, checksum_eq_total, words_append h, ← foldl_add (by decide),
    ← foldl_add (by decide), ← foldl_add (by decide), List.foldl_append]

/-- **The checksum is that of RFC 1071**: the wide sum of the words, folded at the end; and of data in two parts, the first
of an even length, the sum of the second part on top of that of the first. -/
theorem checksum_rfc1071 (sum : BitVec 16) (bytes : List UInt8) :
    checksum sum bytes = total sum (words bytes) ∧
      ∀ n, checksum (checksum sum (bytes.take (2 * n))) (bytes.drop (2 * n)) = checksum sum bytes := by
  refine ⟨checksum_eq_total sum bytes, fun n => ?_⟩
  rcases Nat.le_total (2 * n) bytes.length with hle | hle
  · have heven : Even (bytes.take (2 * n)).length := by
      rw [List.length_take, Nat.min_eq_left hle]
      exact ⟨n, Nat.two_mul n⟩
    rw [checksum_append sum heven, List.take_append_drop]
  · rw [List.take_of_length_le hle, List.drop_of_length_le hle]
    rfl

/-- An odd length, and a carry. -/
example : checksum 0xff00 [0x01, 0x02, 0x03] = 0x0303 := by decide

/-! ## Setting a checksum -/

/-- The field at `p` is set, in network order. -/
def setBe16 (m : Mem) (p : Nat) (v : BitVec 16) : Mem :=
  copyIn m p [.ofBitVec (v.extractLsb' 8 8), .ofBitVec (v.extractLsb' 0 8)]

/-- What the functions `..Checksum_Set` do with the field at `p`. -/
def setChecksum (p : Nat) (compute : Mem → BitVec 16) (m : Mem) : Mem :=
  let m := setBe16 m p 0
  setBe16 m p (compute m)

/-- `TCPIPIpChecksum_Compute` -/
def ipChecksum (m : Mem) (ip : Nat) : BitVec 16 := ~~~ checksum 0 (copyOut m ip (ipHdrLen m ip))

/-- `TCPIPIpChecksum_Set` -/
def ipChecksumSet (m : Mem) (ip : Nat) : Mem := setChecksum (ip + 10) (ipChecksum · ip) m

/-- `TCPIPIcmpChecksum_Compute` -/
def icmpChecksum (m : Mem) (icmp size : Nat) : BitVec 16 := ~~~ checksum 0 (copyOut m icmp size)

/-- `TCPIPIcmpChecksum_Set` -/
def icmpChecksumSet (m : Mem) (icmp size : Nat) : Mem := setChecksum (icmp + 2) (icmpChecksum · icmp size) m

/-- `TCPIPTcpChecksum_Set` -/
def tcpChecksumSet (m : Mem) (ip tcp : Nat) : Mem := setChecksum (tcp + 16) (transportChecksum · ip tcp) m

/-- `TCPIPUdpChecksum_Set` -/
def udpChecksumSet (m : Mem) (ip udp : Nat) : Mem := setChecksum (udp + 6) (transportChecksum · ip udp) m

/-! ## What they cover -/

/-- The words of a header. -/
def ipWords (m : Mem) (ip : Nat) : List (BitVec 16) := words (copyOut m ip (ipHdrLen m ip))

/-- The words of a message. -/
def icmpWords (m : Mem) (icmp size : Nat) : List (BitVec 16) := words (copyOut m icmp size)

/-- The words of the pseudo header and of the segment. -/
def transportWords (m : Mem) (ip hdr : Nat) : List (BitVec 16) :=
  words (ipPseudoHdr m ip) ++ words (copyOut m hdr (ipPldLen m ip).toNat)

theorem ipChecksum_eq (m : Mem) (ip : Nat) : ipChecksum m ip = ~~~ total 0 (ipWords m ip) :=
  congrArg (~~~ ·) (checksum_eq_total _ _)

theorem icmpChecksum_eq (m : Mem) (icmp size : Nat) : icmpChecksum m icmp size = ~~~ total 0 (icmpWords m icmp size) :=
  congrArg (~~~ ·) (checksum_eq_total _ _)

theorem transportChecksum_eq (m : Mem) (ip hdr : Nat) : transportChecksum m ip hdr = ~~~ total 0 (transportWords m ip hdr) := by
  have heven : Even (ipPseudoHdr m ip).length := by
    unfold ipPseudoHdr
    rw [List.length_append, List.length_append, length_copyOut, length_copyOut]
    exact ⟨6, rfl⟩
  unfold transportChecksum transportWords
  rw [checksum_append 0 heven, checksum_eq_total, words_append heven]

section

variable (m : Mem) (p : Nat) (v : BitVec 16)

theorem setBe16_of_ne {q : Nat} (h : q < p ∨ p + 2 ≤ q) : setBe16 m p v q = m q := dif_neg fun hq => by
  have hlt : q - p < 2 := hq.2
  omega

theorem be16_setBe16_of_disjoint {q : Nat} (h : q + 2 ≤ p ∨ p + 2 ≤ q) : be16 (setBe16 m p v) q = be16 m q := by
  unfold be16
  rw [setBe16_of_ne m p v (by omega), setBe16_of_ne m p v (by omega)]

theorem extract_append : (v.extractLsb' 8 8 ++ v.extractLsb' 0 8 : BitVec 16) = v := by
  apply BitVec.eq_of_getLsbD_eq
  intro i hi
  rw [BitVec.getLsbD_append]
  by_cases hlow : i < 8
  · simp [hlow]
  · have hhigh : i - 8 < 8 := by omega
    simp [hlow, hhigh, Nat.add_sub_cancel' (Nat.not_lt.1 hlow)]

/-- A field among the words of a range. -/
theorem words_setBe16 {k n : Nat} (h : 2 * k + 2 ≤ n) :
    words (copyOut (setBe16 m (p + 2 * k) v) p n) =
      words (copyOut m p (2 * k)) ++ v :: words (copyOut m (p + 2 * k + 2) (n - (2 * k + 2))) := by
  obtain ⟨j, rfl⟩ := Nat.exists_eq_add_of_le h
  have hfield : copyOut (setBe16 m (p + 2 * k) v) (p + 2 * k) 2 =
      [.ofBitVec (v.extractLsb' 8 8), .ofBitVec (v.extractLsb' 0 8)] := copyOut_copyIn_self m (p + 2 * k) _
  have hfront : copyOut (setBe16 m (p + 2 * k) v) p (2 * k) = copyOut m p (2 * k) :=
    copyOut_copyIn_of_disjoint m (.inl (Nat.le_refl _))
  have hbehind : copyOut (setBe16 m (p + 2 * k) v) (p + (2 * k + 2)) j = copyOut m (p + (2 * k + 2)) j :=
    copyOut_copyIn_of_disjoint m (.inr (Nat.le_refl _))
  have heven : Even (copyOut m p (2 * k)).length := by
    rw [length_copyOut]
    exact ⟨k, Nat.two_mul k⟩
  rw [copyOut_add, copyOut_add, hfront, hfield, hbehind, List.append_assoc, words_append heven, Nat.add_sub_cancel_left,
    ← Nat.add_assoc]
  exact congrArg (fun v => _ ++ v :: _) (extract_append v)

end

/-! ## Valid and invalid -/

/-- After `set` the frame is valid; and no frame is that differs from it in one covered word, by more than the two
representations of zero. -/
def Detects (set : Mem → Mem) (isValid : Mem → Prop) (covered : Mem → List (BitVec 16)) (m : Mem) : Prop :=
  isValid (set m) ∧ ∀ m', Replaced (covered (set m)) (covered m') → ¬ isValid m'

theorem complement_eq_zero_iff (a : BitVec 16) : ~~~ a = 0 ↔ a = BitVec.allOnes 16 := by
  have hzero : ~~~ BitVec.allOnes 16 = 0 := by decide
  rw [← hzero]
  exact BitVec.not_inj

/-- A checksum over words among which its field is. -/
theorem detects_of_field {p : Nat} {compute : Mem → BitVec 16} {covered : Mem → List (BitVec 16)} {m : Mem}
    (hcompute : ∀ m, compute m = ~~~ total 0 (covered m))
    (hfield : ∃ xs ys, ∀ v, covered (setBe16 m p v) = xs ++ v :: ys)
    (hagain : ∀ v w, setBe16 (setBe16 m p v) p w = setBe16 m p w) :
    Detects (setChecksum p compute) (compute · = 0) covered m := by
  obtain ⟨xs, ys, hcovered⟩ := hfield
  have hvalid : total 0 (covered (setChecksum p compute m)) = BitVec.allOnes 16 := by
    unfold setChecksum
    dsimp only
    rw [hagain, hcovered, hcompute, hcovered]
    exact total_complement 0 xs ys (by decide)
  refine ⟨?_, fun m' hreplaced hzero => ?_⟩
  · show compute _ = 0
    rw [hcompute, complement_eq_zero_iff]
    exact hvalid
  · have hzero : compute m' = 0 := hzero
    rw [hcompute, complement_eq_zero_iff] at hzero
    exact total_ne_of_replaced 0 (by decide) hvalid hreplaced hzero

theorem setBe16_again (m : Mem) (p : Nat) (v w : BitVec 16) : setBe16 (setBe16 m p v) p w = setBe16 m p w :=
  copyIn_copyIn m p rfl

/-- The header holds its checksum. -/
theorem ip_detects {m : Mem} {ip : Nat} (h : 12 ≤ ipHdrLen m ip) :
    Detects (ipChecksumSet · ip) (ipChecksumIsValid · ip) (ipWords · ip) m := by
  have hcovered (v : BitVec 16) : ipWords (setBe16 m (ip + 10) v) ip =
      words (copyOut m ip 10) ++ v :: words (copyOut m (ip + 12) (ipHdrLen m ip - 12)) := by
    have hlen : ipHdrLen (setBe16 m (ip + 10) v) ip = ipHdrLen m ip :=
      congrArg (fun b : UInt8 => (b &&& 0x0F).toNat * 4) (setBe16_of_ne m _ v (by omega))
    unfold ipWords
    rw [hlen]
    exact words_setBe16 m ip v (k := 5) h
  exact detects_of_field (ipChecksum_eq · ip) ⟨_, _, hcovered⟩ (setBe16_again m (ip + 10))

theorem icmp_detects {icmp size : Nat} (m : Mem) (h : 4 ≤ size) :
    Detects (icmpChecksumSet · icmp size) (icmpChecksumIsValid · icmp size) (icmpWords · icmp size) m :=
  detects_of_field (icmpChecksum_eq · icmp size) ⟨_, _, fun v => words_setBe16 m icmp v (k := 1) h⟩
    (setBe16_again m (icmp + 2))

/-- The payload of the datagram holds a field at `2 * k`. -/
theorem room_of_length {m : Mem} {ip k : Nat} (h : ipHdrLen m ip + (2 * k + 2) ≤ (ipLength m ip).toNat) :
    2 * k + 2 ≤ (ipPldLen m ip).toNat := by
  have hlt := (ipLength m ip).isLt
  unfold ipPldLen
  rw [BitVec.toNat_sub, BitVec.toNat_setWidth, BitVec.toNat_ofNat]
  omega

/-- A field behind the header of the datagram. -/
theorem header_setBe16 (m : Mem) {ip p : Nat} (v : BitVec 16) (h : ip + 20 ≤ p) :
    ipPldLen (setBe16 m p v) ip = ipPldLen m ip ∧ ipPseudoHdr (setBe16 m p v) ip = ipPseudoHdr m ip := by
  have hcell {q : Nat} (hq : q < 20) : setBe16 m p v (ip + q) = m (ip + q) := setBe16_of_ne m p v (.inl (by omega))
  have hhdr : ipHdrLen (setBe16 m p v) ip = ipHdrLen m ip :=
    congrArg (fun b : UInt8 => (b &&& 0x0F).toNat * 4) (hcell (q := 0) (by decide))
  have hlength : ipLength (setBe16 m p v) ip = ipLength m ip := be16_setBe16_of_disjoint m p v (.inl (by omega))
  have hpld : ipPldLen (setBe16 m p v) ip = ipPldLen m ip := by
    unfold ipPldLen
    rw [hhdr, hlength]
  have hsrc : copyOut (setBe16 m p v) (ip + 12) 4 = copyOut m (ip + 12) 4 :=
    copyOut_copyIn_of_disjoint m (.inl (by omega))
  have hdst : copyOut (setBe16 m p v) (ip + 16) 4 = copyOut m (ip + 16) 4 :=
    copyOut_copyIn_of_disjoint m (.inl (by omega))
  have hprotocol : ipProtocol (setBe16 m p v) ip = ipProtocol m ip := hcell (by decide)
  refine ⟨hpld, ?_⟩
  unfold ipPseudoHdr
  rw [hsrc, hdst, hprotocol, hpld]

theorem transport_detects {m : Mem} {ip hdr k : Nat} (hbehind : ip + 20 ≤ hdr)
    (h : ipHdrLen m ip + (2 * k + 2) ≤ (ipLength m ip).toNat) :
    Detects (setChecksum (hdr + 2 * k) (transportChecksum · ip hdr)) (transportChecksum · ip hdr = 0) (transportWords · ip hdr)
      m := by
  have hcovered (v : BitVec 16) : transportWords (setBe16 m (hdr + 2 * k) v) ip hdr =
      (words (ipPseudoHdr m ip) ++ words (copyOut m hdr (2 * k))) ++
        v :: words (copyOut m (hdr + 2 * k + 2) ((ipPldLen m ip).toNat - (2 * k + 2))) := by
    obtain ⟨hpld, hpseudo⟩ := header_setBe16 m v (hbehind.trans (Nat.le_add_right hdr (2 * k)))
    unfold transportWords
    rw [hpseudo, hpld, words_setBe16 m hdr v (room_of_length h), List.append_assoc]
  exact detects_of_field (transportChecksum_eq · ip hdr) ⟨_, _, hcovered⟩ (setBe16_again m (hdr + 2 * k))

/-- **Checksums that are set are valid, and damaged words are noticed**, by each layer: for headers, messages and segments of
any length that have a checksum. -/
theorem checksums_detect (m : Mem) :
    (∀ ip, 12 ≤ ipHdrLen m ip → Detects (ipChecksumSet · ip) (ipChecksumIsValid · ip) (ipWords · ip) m) ∧
    (∀ icmp size, 4 ≤ size →
      Detects (icmpChecksumSet · icmp size) (icmpChecksumIsValid · icmp size) (icmpWords · icmp size) m) ∧
    (∀ ip tcp, ip + 20 ≤ tcp → ipHdrLen m ip + 18 ≤ (ipLength m ip).toNat →
      Detects (tcpChecksumSet · ip tcp) (tcpChecksumIsValid · ip tcp) (transportWords · ip tcp) m) ∧
    (∀ ip udp, ip + 20 ≤ udp → ipHdrLen m ip + 8 ≤ (ipLength m ip).toNat →
      Detects (udpChecksumSet · ip udp) (udpChecksumIsValid · ip udp) (transportWords · ip udp) m) :=
  ⟨fun _ h => ip_detects h, fun _ _ h => icmp_detects m h, fun _ _ hbehind h => transport_detects (k := 8) hbehind h,
    fun _ _ hbehind h => transport_detects (k := 3) hbehind h⟩

/-- A header of 20 bytes, and 20 bytes behind it. -/
def sampleDatagram : Mem := fun i => [0x45, 0, 0, 40].getD i 0

theorem checksums_detect_sample :
    Detects (ipChecksumSet · 0) (ipChecksumIsValid · 0) (ipWords · 0) sampleDatagram ∧
    Detects (icmpChecksumSet · 20 8) (icmpChecksumIsValid · 20 8) (icmpWords · 20 8) sampleDatagram ∧
    Detects (tcpChecksumSet · 0 20) (tcpChecksumIsValid · 0 20) (transportWords · 0 20) sampleDatagram ∧
    Detects (udpChecksumSet · 0 20) (udpChecksumIsValid · 0 20) (transportWords · 0 20) sampleDatagram := by
  obtain ⟨hip, hicmp, htcp, hudp⟩ := checksums_detect sampleDatagram
  exact ⟨hip 0 (by decide), hicmp 20 8 (by decide), htcp 0 20 (by decide) (by decide), hudp 0 20 (by decide) (by decide)⟩

end YieldStm32.TCPIP
