import YieldStm32.Net.Mdns.RoundTrip
import YieldStm32.Net.Mdns.Server

/-!
# Messages that are read within their bounds

The decoder checks what is left of the message. The header, and the type and the class behind a name, are read unchecked.

* `Within` : the accesses that are allowed;
* `encode_deviceName`, `safe_renderAnswerA` : at most nine answers fit, and the tenth is refused;
* `Laid` : the questions that are processed have room for their fields;
* `within_iff_sized` : nothing outside of the message is read, and nothing outside of the buffers written, exactly when the
  header and these questions fit.
-/

namespace YieldStm32.MDNSSrv

open Traced Ring TCPIP DHCPFrame Mdns

/-- The access is to one of the `n` bytes of the message, or of the 256 of a buffer. -/
def Within (n : Nat) : Note → Prop
  | .message i => i < n
  | .qname i => i < 256
  | .rsps i => i < 256

variable {n k : Nat} {m : Mem} {h : Host}

theorem safe_field16 (m : Mem) (p : Nat) : Safe (Within n) (field16 m p) ↔ p + 2 ≤ n := by
  unfold field16
  rw [safe_notes]
  constructor
  · exact fun hnotes => hnotes (.message (p + 1)) (by simp)
  · intro hle w hw
    rcases List.mem_pair.1 hw with rfl | rfl
    · exact Nat.lt_of_lt_of_le (Nat.lt_add_of_pos_right Nat.two_pos) hle
    · exact hle

theorem safe_decode (m : Mem) (n k p : Nat) (qname : Mem) : Safe (Within n) (decode m n k p qname) := by
  have haccesses := (Decoder.left_decodeName m n p 255 qname k).1
  unfold decode
  intro w hw
  obtain ⟨a, ha, rfl⟩ := List.mem_map.1 hw
  have hin := haccesses a ha
  cases a with
  | read i => exact hin
  | write i => exact Nat.lt_succ_of_lt hin

/-! ## Answers -/

def deviceLabels : List (List UInt8) := [Stdio.ascii "stm32", Stdio.ascii "local"]

theorem plain_deviceLabels : ∀ l ∈ deviceLabels, Plain l :=
  List.forall_mem_cons.2 ⟨⟨by decide, by decide, by decide, by decide⟩,
    List.forall_mem_singleton.2 ⟨by decide, by decide, by decide, by decide⟩⟩

theorem labels_deviceName : labels deviceName = deviceLabels := by decide

theorem fits_deviceLabels {size : Nat} (hsize : 13 ≤ size) : Fits size 0 0 deviceLabels := by
  have hfirst : 6 ≤ size := by omega
  have hsecond : 12 ≤ size := by omega
  simp [deviceLabels, Mdns.Fits, Stdio.ascii, hfirst, hsecond, hsize]

/-- The name of the device takes 13 bytes. -/
theorem encodeName_deviceName (dst : Mem) {size : Nat} (hsize : 13 ≤ size) :
    ∃ e, encodeName deviceName dst size (deviceName.length + 1) = (some 13, e) ∧ Encoder.Kept size 13 e := by
  have hname : 0 ∉ deviceName := by decide
  obtain ⟨ec, e, hpasses, -⟩ := @Encoder.passes_of_not_mem deviceName (.start deviceName dst size) hname rfl
  obtain ⟨e₁, hret, -⟩ := @returns_encode deviceLabels (.start deviceName dst size) plain_deviceLabels
    (show deviceName = name deviceLabels by decide) hsize
  obtain ⟨ec₂, e₂, hret₂, hiff⟩ := @Encoder.kept_iff_fits deviceName size (.start deviceName dst size) 0 hname rfl rfl
    (Nat.zero_le _) (iff_of_true rfl rfl) (List.Perm.refl _)
  obtain ⟨rfl, rfl⟩ := hret.unique ⟨_, hpasses⟩
  obtain ⟨rfl, rfl⟩ := hret₂.unique ⟨_, hpasses⟩
  have hkept := hiff.2 (labels_deviceName ▸ fits_deviceLabels hsize)
  exact ⟨_, hpasses, hkept⟩

theorem safe_encode_deviceName (rsps : Mem) (p : Nat) {size : Nat} (hsize : 13 ≤ size) (hp : p + size ≤ 256) :
    Safe (Within n) (encode rsps p size deviceName) ∧ (encode rsps p size deviceName).val.1 = some 13 := by
  obtain ⟨e, he, hkept⟩ := encodeName_deviceName (fun i => rsps (p + i)) hsize
  unfold encode
  rw [he]
  refine ⟨fun w hw => ?_, rfl⟩
  obtain ⟨i, hi, rfl⟩ := List.mem_map.1 hw
  have hlt := hkept.inside i hi
  show p + i < 256
  omega

theorem safe_store (rsps : Mem) {p : Nat} {bs : List UInt8} (hp : p + bs.length ≤ 256) :
    Safe (Within n) (store rsps p bs) := by
  intro w hw
  obtain ⟨i, hi, rfl⟩ := List.mem_map.1 hw
  exact (List.mem_range'_1.1 hi).2.trans_le hp

theorem name_of_mem {rec : Record} (hrec : rec ∈ records) : rec.name = deviceName ∧ rec.type = typeA := by
  rw [List.mem_singleton.1 hrec]
  exact ⟨rfl, rfl⟩

/-- Behind `a` answers of 27 bytes there is room for another one, up to nine. -/
theorem safe_renderAnswerA (ip : Ip) (rsps : Mem) {a : Nat} (ha : a ≤ 9) (rec : Record) (hname : rec.name = deviceName) :
    Safe (Within n) (renderAnswerA ip rsps (27 * a) (256 - 27 * a) rec) ∧
      (renderAnswerA ip rsps (27 * a) (256 - 27 * a) rec).val.1 = if a < 9 then some (27 * (a + 1)) else none := by
  obtain ⟨hsafe, hval⟩ := @safe_encode_deviceName n rsps (27 * a) (256 - 27 * a) (by omega) (by omega)
  unfold renderAnswerA
  rw [hname]
  generalize encode rsps (27 * a) (256 - 27 * a) deviceName = x at *
  obtain ⟨⟨ec, rsps'⟩, ws⟩ := x
  obtain rfl : ec = some 13 := hval
  simp only [safe_bind, val_bind, hsafe, true_and]
  rw [if_neg (show ¬ (13 : Int) < 0 by decide), show Int.toNat 13 = 13 from rfl]
  by_cases hroom : a < 9
  · have hfits : ¬ 256 - 27 * a < 13 + 10 + 4 := by omega
    rw [if_neg hfits, if_pos hroom]
    simp only [safe_bind, val_bind, safe_pure, val_pure, and_true]
    refine ⟨safe_store _ ?_, congrArg some (by omega)⟩
    show 27 * a + 13 + 14 ≤ 256
    omega
  · have hfull : 256 - 27 * a < 13 + 10 + 4 := by omega
    rw [if_pos hfull, if_neg hroom]
    exact ⟨safe_pure _, rfl⟩

/-! ## Questions -/

/-- The name at `p` takes `c` bytes, and `qname` holds it. -/
def Decodes (h : Host) (m : Mem) (n k p c : Nat) (qname : Mem) : Prop :=
  (decode m n k p h.qname).val = (some (c : Int), qname)

/-- The questions that are left, behind `a` answers: the fields behind a name are in the message; those behind a question of
another class are not come to, and those behind a tenth answer. -/
def Laid (decodes : Nat → Nat → Mem → Prop) (m : Mem) (n : Nat) : Nat → Nat → Nat → Prop
  | 0, _, _ => True
  | q + 1, a, p => ∀ c qname, decodes p c qname → p + c + 4 ≤ n ∧
      (be16 m (p + c + 2) = classIA →
        (findRecord (be16 m (p + c)) qname = none → Laid decodes m n q a (p + c + 4)) ∧
          (findRecord (be16 m (p + c)) qname ≠ none → a < 9 → Laid decodes m n q (a + 1) (p + c + 4)))

theorem mem_of_findRecord {type : BitVec 16} {qname : Mem} {rec : Record} (hfind : findRecord type qname = some rec) :
    rec ∈ records ∧ rec.type = type := by
  refine ⟨List.mem_of_find?_eq_some hfind, ?_⟩
  have hmatch := List.find?_some hfind
  exact (of_decide_eq_true hmatch).1

/-- A name that is not decoded. -/
theorem safe_processQuestion_error {p r size : Nat} {rsps : Mem} (hd : ∀ c qname, ¬ Decodes h m n k p c qname) :
    Safe (Within n) (processQuestion h m n k p r size rsps) ∧
      ∀ out ∈ (processQuestion h m n k p r size rsps).val, out.next = none := by
  have hsafe := safe_decode m n k p h.qname
  unfold Decodes at hd
  unfold processQuestion
  generalize decode m n k p h.qname = x at *
  obtain ⟨⟨ec, qname⟩, ws⟩ := x
  simp only [safe_bind, val_bind, hsafe, true_and]
  cases ec with
  | none => exact ⟨safe_pure _, fun out hout => by cases hout⟩
  | some ec =>
      have hneg : ec < 0 := by
        refine Int.not_le.1 fun hpos => hd ec.toNat qname ?_
        rw [Int.toNat_of_nonneg hpos]
      dsimp only
      rw [if_pos hneg]
      refine ⟨safe_pure _, fun out hout => ?_⟩
      cases hout
      rfl

/-- A name that is decoded, behind `a` answers. -/
theorem safe_processQuestion {p c a : Nat} {qname rsps : Mem} (ha : a ≤ 9) (hd : Decodes h m n k p c qname) :
    (Safe (Within n) (processQuestion h m n k p (27 * a) (256 - 27 * a) rsps) ↔ p + c + 4 ≤ n) ∧
      ∃ out, (processQuestion h m n k p (27 * a) (256 - 27 * a) rsps).val = some out ∧
        (out.next = if be16 m (p + c + 2) = classIA then some (p + c + 4) else none) ∧
        (be16 m (p + c + 2) = classIA →
          out.rsp = if findRecord (be16 m (p + c)) qname = none then some (27 * a)
            else if a < 9 then some (27 * (a + 1)) else none) := by
  have hsafe := safe_decode m n k p h.qname
  unfold Decodes at hd
  unfold processQuestion
  generalize decode m n k p h.qname = x at *
  obtain ⟨⟨ec, qname'⟩, ws⟩ := x
  obtain ⟨rfl, rfl⟩ := Prod.mk.inj hd
  simp only [safe_bind, val_bind, hsafe, true_and]
  rw [if_neg (by omega), Int.toNat_natCast]
  simp only [safe_bind, val_bind, safe_field16, show (field16 m (p + c + 2)).val = be16 m (p + c + 2) from rfl]
  by_cases hclass : be16 m (p + c + 2) = classIA
  · rw [if_neg (not_not.2 hclass), if_pos hclass]
    simp only [safe_bind, val_bind, safe_field16, show (field16 m (p + c)).val = be16 m (p + c) from rfl]
    cases hfind : findRecord (be16 m (p + c)) qname' with
    | none =>
        simp only [safe_pure, val_pure, and_true]
        exact ⟨⟨fun hs => hs.1, fun hle => ⟨hle, by omega⟩⟩, _, rfl, rfl, fun _ => rfl⟩
    | some rec =>
        obtain ⟨hmem, htype⟩ := mem_of_findRecord hfind
        obtain ⟨hname, htypeA⟩ := name_of_mem hmem
        obtain ⟨hrender, hval⟩ := @safe_renderAnswerA n h.ip rsps a ha rec hname
        dsimp only
        rw [if_pos (htype.symm.trans htypeA)]
        simp only [safe_bind, val_bind, hrender, safe_pure, val_pure, and_true]
        exact ⟨⟨fun hs => hs.1, fun hle => ⟨hle, by omega⟩⟩, _, rfl, rfl, fun _ => hval⟩
  · rw [if_pos hclass, if_neg hclass]
    rw [val_pure]
    exact ⟨⟨fun hs => hs.1, fun hle => ⟨hle, safe_pure _⟩⟩, _, rfl, rfl, fun h => absurd h hclass⟩

theorem safe_questions (q p : Nat) {a : Nat} (ha : a ≤ 9) (rsps : Mem) (rtotal : Nat) :
    Safe (Within n) (questions h m n k q p (27 * a) rsps rtotal) ↔ Laid (Decodes h m n k) m n q a p := by
  induction q generalizing p a rsps rtotal with
  | zero => exact iff_of_true (safe_pure _) trivial
  | succ q ih =>
      unfold questions Laid
      rw [safe_bind]
      by_cases hd : ∃ c qname, Decodes h m n k p c qname
      · obtain ⟨c, qname, hd⟩ := hd
        obtain ⟨hsafe, ⟨next, rsp, rsps', rnum⟩, hval, hnext, hrsp⟩ := @safe_processQuestion n k m h p c a qname rsps ha hd
        have hone : ∀ c' qname', Decodes h m n k p c' qname' → c' = c ∧ qname' = qname := by
          intro c' qname' hd'
          have heq := Prod.mk.inj (Eq.trans (Eq.symm hd') hd)
          exact ⟨Int.ofNat.inj (Option.some.inj heq.1), heq.2⟩
        rw [hsafe, hval]
        dsimp only at hnext hrsp
        trans p + c + 4 ≤ n ∧ (be16 m (p + c + 2) = classIA →
          (findRecord (be16 m (p + c)) qname = none → Laid (Decodes h m n k) m n q a (p + c + 4)) ∧
            (findRecord (be16 m (p + c)) qname ≠ none → a < 9 → Laid (Decodes h m n k) m n q (a + 1) (p + c + 4)))
        · refine and_congr Iff.rfl ?_
          by_cases hclass : be16 m (p + c + 2) = classIA
          · rw [imp_iff_right hclass]
            obtain rfl := hnext.trans (if_pos hclass)
            have hrsp := hrsp hclass
            by_cases hfind : findRecord (be16 m (p + c)) qname = none
            · rw [if_pos hfind] at hrsp
              subst hrsp
              exact (ih (p + c + 4) ha rsps' (rtotal + rnum)).trans
                ⟨fun h => ⟨fun _ => h, fun hne => absurd hfind hne⟩, fun h => h.1 hfind⟩
            · rw [if_neg hfind] at hrsp
              by_cases hroom : a < 9
              · rw [if_pos hroom] at hrsp
                subst hrsp
                exact (ih (p + c + 4) hroom rsps' (rtotal + rnum)).trans
                  ⟨fun h => ⟨fun hnone => absurd hnone hfind, fun _ _ => h⟩, fun h => h.2 hfind hroom⟩
              · rw [if_neg hroom] at hrsp
                subst hrsp
                exact iff_of_true (safe_pure _) ⟨fun hnone => absurd hnone hfind, fun _ hlt => absurd hlt hroom⟩
          · obtain rfl := hnext.trans (if_neg hclass)
            exact iff_of_true (safe_pure _) fun h => absurd h hclass
        · constructor
          · intro hlaid c' qname' hd'
            obtain ⟨rfl, rfl⟩ := hone c' qname' hd'
            exact hlaid
          · exact fun hlaid => hlaid c qname hd
      · have hnot : ∀ c qname, ¬ Decodes h m n k p c qname := fun c qname h => hd ⟨c, qname, h⟩
        obtain ⟨hsafe, hval⟩ := @safe_processQuestion_error n k m h p (27 * a) (256 - 27 * a) rsps hnot
        refine iff_of_true ⟨hsafe, ?_⟩ fun c qname h => absurd h (hnot c qname)
        cases hout : (processQuestion h m n k p (27 * a) (256 - 27 * a) rsps).val with
        | none => exact safe_pure _
        | some out =>
            obtain ⟨next, rsp, rsps', rnum⟩ := out
            obtain rfl : next = none := hval _ hout
            exact safe_pure _

/-! ## Any number of passes -/

theorem Laid.mono {R S : Nat → Nat → Mem → Prop} (hRS : ∀ p c qname, R p c qname → S p c qname) {q a p : Nat}
    (hlaid : Laid S m n q a p) : Laid R m n q a p := by
  induction q generalizing a p with
  | zero => trivial
  | succ q ih =>
      intro c qname hR
      obtain ⟨hfits, hnext⟩ := hlaid c qname (hRS p c qname hR)
      refine ⟨hfits, fun hclass => ?_⟩
      obtain ⟨hnone, hsome⟩ := hnext hclass
      exact ⟨fun hfind => ih (hnone hfind), fun hfind hroom => ih (hsome hfind hroom)⟩

/-- The name at `p` is decoded after some number of passes. -/
def DecodesTo (h : Host) (m : Mem) (n p c : Nat) (qname : Mem) : Prop := ∃ k, Decodes h m n k p c qname

theorem Decodes.mono {j p c : Nat} {qname : Mem} (hjk : j ≤ k) (hd : Decodes h m n j p c qname) :
    Decodes h m n k p c qname := by
  have heq := Prod.mk.inj (show ((decodeName m n p 255 h.qname j).1, (decodeName m n p 255 h.qname j).2.dst) = _ from hd)
  have hpasses : decodeName m n p 255 h.qname k = (some (c : Int), (decodeName m n p 255 h.qname j).2) :=
    Loop.passes_mono hjk (Prod.ext heq.1 rfl)
  unfold Decodes decode
  rw [hpasses]
  exact Prod.ext rfl heq.2

theorem laid_iff {q a p : Nat} :
    (∀ k, Laid (Decodes h m n k) m n q a p) ↔ Laid (DecodesTo h m n) m n q a p := by
  refine ⟨fun hlaid => ?_, fun hlaid k => hlaid.mono fun p c qname hd => ⟨k, hd⟩⟩
  induction q generalizing a p with
  | zero => trivial
  | succ q ih =>
      rintro c qname ⟨k, hd⟩
      refine ⟨(hlaid k c qname hd).1, fun hclass => ⟨fun hfind => ih fun j => ?_, fun hfind hroom => ih fun j => ?_⟩⟩
      · have hnext := (hlaid (max j k) c qname (hd.mono (Nat.le_max_right j k))).2 hclass
        exact (hnext.1 hfind).mono fun _ _ _ hd => hd.mono (Nat.le_max_left j k)
      · have hnext := (hlaid (max j k) c qname (hd.mono (Nat.le_max_right j k))).2 hclass
        exact (hnext.2 hfind hroom).mono fun _ _ _ hd => hd.mono (Nat.le_max_left j k)

theorem safe_input (k : Nat) :
    Safe (Within n) (input h m n k) ↔ 4 ≤ n ∧ (be16 m 2 &&& flagsQr = 0 → be16 m 2 &&& flagsOpcode = 0 →
      6 ≤ n ∧ Laid (Decodes h m n k) m n (be16 m 4).toNat 0 12) := by
  have hquestions := @safe_questions n k m h (be16 m 4).toNat 12 0 (Nat.zero_le 9) h.rsps 0
  unfold input
  simp only [safe_bind, safe_ite, safe_field16, safe_pure, show ∀ p, (field16 m p).val = be16 m p from fun _ => rfl, hquestions]
  by_cases hqr : be16 m 2 &&& flagsQr = 0
  · rw [if_neg (not_not.2 hqr), imp_iff_right hqr]
    by_cases hopcode : be16 m 2 &&& flagsOpcode = 0
    · rw [if_neg (not_not.2 hopcode), imp_iff_right hopcode]
      constructor
      · rintro ⟨-, hheader, hcount, hlaid, -⟩
        exact ⟨hheader, hcount, hlaid⟩
      · rintro ⟨hheader, hcount, hlaid⟩
        refine ⟨by omega, hheader, hcount, hlaid, ?_⟩
        split
        · exact safe_pure _
        · exact safe_pure _
        · split <;> exact safe_pure _
    · rw [if_pos hopcode]
      exact ⟨fun hs => ⟨hs.2.1, fun hzero => absurd hzero hopcode⟩, fun hs => ⟨by omega, hs.1, trivial⟩⟩
  · rw [if_pos hqr]
    exact ⟨fun hs => ⟨hs.2.1, fun hzero => absurd hzero hqr⟩, fun hs => ⟨by omega, hs.1, trivial⟩⟩

/-- The header is in the message, and so are the fields of the questions that are processed. -/
def Sized (h : Host) (m : Mem) (n : Nat) : Prop :=
  4 ≤ n ∧ (be16 m 2 &&& flagsQr = 0 → be16 m 2 &&& flagsOpcode = 0 →
    6 ≤ n ∧ Laid (DecodesTo h m n) m n (be16 m 4).toNat 0 12)

/-- **When a message is read within its bounds**, however many passes the decoder makes over its names. -/
theorem within_iff_sized (h : Host) (m : Mem) (n : Nat) :
    (∀ k, Safe (Within n) (input h m n k)) ↔ Sized h m n := by
  unfold Sized
  rw [← laid_iff]
  simp only [safe_input]
  constructor
  · intro hall
    exact ⟨(hall 0).1, fun hqr hopcode => ⟨((hall 0).2 hqr hopcode).1, fun k => ((hall k).2 hqr hopcode).2⟩⟩
  · rintro ⟨hle, hlaid⟩ k
    exact ⟨hle, fun hqr hopcode => ⟨(hlaid hqr hopcode).1, (hlaid hqr hopcode).2 k⟩⟩

/-- A host whose buffers hold zeros, and a message of a header with one question, and of a name without its fields. -/
def host : Host := ⟨0xc0a8327c, fun _ => 0, fun _ => 0⟩

def cutQuery (i : Nat) : UInt8 := [0, 0, 0, 0, 0, 1, 0, 0, 0, 0, 0, 0, 1, 97, 0].getD i 0

/-- The message ends behind the name, and the class is read from behind it. -/
theorem not_within_cutQuery : ¬ ∀ k, Safe (Within 15) (input host cutQuery 15 k) := by
  intro hall
  have hlaid := (((safe_input 3).1 (hall 3)).2 (by decide) (by decide)).2
  have hdecodes : Decodes host cutQuery 15 3 12 3 (decode cutQuery 15 3 12 host.qname).val.2 := rfl
  have hcount : (be16 cutQuery 4).toNat = 1 := by decide
  rw [hcount] at hlaid
  exact absurd (hlaid 3 _ hdecodes).1 (by decide)

end YieldStm32.MDNSSrv
