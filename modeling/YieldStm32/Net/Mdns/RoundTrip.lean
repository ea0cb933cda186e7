import YieldStm32.Net.Mdns.Bounds
import YieldStm32.Net.Mdns.Encode

/-!
# Names that are encoded and decoded again

* `wire`, `dotted` : a list of labels in a frame, and in the destination of the decoder before its last dot is replaced;
* `returns_encode`, `returns_decode` : the loops, from any label on;
* `decode_encode` : a name placed anywhere in a frame is read back.
-/

namespace YieldStm32.Mdns

open Loop Ring

/-- A label that can be written in a name. -/
structure Plain (l : List UInt8) : Prop where
  ne : l ≠ []
  length_le : l.length ≤ 63
  zero : 0 ∉ l
  dot : dot ∉ l

/-- Labels in a frame. -/
def wire : List (List UInt8) → List UInt8
  | [] => [0]
  | l :: ls => UInt8.ofNat l.length :: l ++ wire ls

/-- Labels with a dot behind each. -/
def dotted : List (List UInt8) → List UInt8
  | [] => []
  | l :: ls => l ++ dot :: dotted ls

/-- The name that is made of the labels. -/
def name (ls : List (List UInt8)) : List UInt8 := [dot].intercalate ls

variable {ls : List (List UInt8)}

theorem length_wire (ls : List (List UInt8)) : (wire ls).length = (dotted ls).length + 1 := by
  induction ls with
  | nil => rfl
  | cons l ls ih =>
      simp only [wire, dotted, List.length_append, List.length_cons, ih]
      omega

theorem name_cons_cons (l l' : List UInt8) (ls : List (List UInt8)) :
    name (l :: l' :: ls) = l ++ dot :: name (l' :: ls) := by
  rw [name, List.intercalate_cons_cons, List.append_assoc]
  rfl

/-- The first label of a name. -/
theorem name_cons (l : List UInt8) (ls : List (List UInt8)) :
    ∃ r, name (l :: ls) = l ++ r ∧ (∀ c ∈ r.head?, c = dot) ∧ r.tail = name ls := by
  cases ls with
  | nil => exact ⟨[], by simp [name], by simp, rfl⟩
  | cons l' ls => exact ⟨dot :: name (l' :: ls), name_cons_cons l l' ls, by simp, rfl⟩

theorem dotted_eq (hne : ls ≠ []) : dotted ls = name ls ++ [dot] := by
  induction ls with
  | nil => exact absurd rfl hne
  | cons l ls ih =>
      cases ls with
      | nil => simp [dotted, name]
      | cons l' ls =>
          rw [dotted, ih (List.cons_ne_nil l' ls), name_cons_cons, List.append_assoc]
          rfl

theorem length_wire_cons (l : List UInt8) (ls : List (List UInt8)) :
    (wire (l :: ls)).length = l.length + 1 + (wire ls).length := by
  rw [wire, List.length_append]
  rfl

/-- A byte that is written behind others. -/
theorem copyOut_update (m : Nat → UInt8) (n : Nat) (x : UInt8) :
    copyOut (Function.update m n x) 0 (n + 1) = copyOut m 0 n ++ [x] := by
  have hwrite := update_copyIn m n x []
  rw [copyIn_nil] at hwrite
  rw [hwrite]
  exact copyOut_copyIn m n [x]

/-! ## The encoder -/

theorem returns_encode {e : Encoder} (hls : ∀ l ∈ ls, Plain l) (hs : e.s = name ls) (hsize : (wire ls).length ≤ e.dstSize) :
    ∃ e', Returns Encoder.pass e ((e.d + (wire ls).length : Nat) : Int) e' ∧
      copyOut e'.dst 0 (e.d + (wire ls).length) = copyOut e.dst 0 e.d ++ wire ls := by
  induction ls generalizing e with
  | nil =>
      have hroom : e.dstSize ≠ 0 := Nat.ne_of_gt hsize
      have h := Encoder.pass_nil hs
      rw [if_neg hroom] at h
      exact ⟨_, .of_ends h, copyOut_update e.dst e.d 0⟩
  | cons l ls ih =>
      obtain ⟨r, hname, hr, htail⟩ := name_cons l ls
      obtain ⟨hplain, hls⟩ := List.forall_mem_cons.1 hls
      have hpos := List.length_pos_iff.2 hplain.ne
      have hlen := length_wire_cons l ls
      obtain ⟨o, e', h⟩ : ∃ o e', Encoder.pass e = (o, e') := ⟨_, _, rfl⟩
      have hne : l ++ r ≠ [] := fun hnil => hplain.ne (List.append_eq_nil_iff.1 hnil).1
      cases Encoder.encodes_of_eq hplain.zero hplain.dot hr hne (hs.trans hname) h with
      | full hroom => omega
      | cut k hk hroom => omega
      | bad hl => exact absurd hplain.length_le (by omega)
      | label =>
          have hsize' : (wire ls).length ≤ (e.labelled l r).dstSize := by
            show (wire ls).length ≤ e.dstSize - l.length
            omega
          obtain ⟨e', hret, hwire⟩ := ih (e := e.labelled l r) hls htail hsize'
          have hd : (e.labelled l r).d + (wire ls).length = e.d + (wire (l :: ls)).length := by
            rw [hlen]
            exact Nat.add_assoc ..
          rw [hd] at hret hwire
          refine ⟨e', .of_goes h hret, hwire.trans ?_⟩
          have hcopy : copyOut (e.labelled l r).dst 0 (e.labelled l r).d = copyOut e.dst 0 e.d ++ (UInt8.ofNat l.length :: l) :=
            copyOut_copyIn e.dst e.d (UInt8.ofNat l.length :: l)
          rw [hcopy, List.append_assoc]
          rfl

/-! ## The decoder -/

section

variable {m : Nat → UInt8} {frameSize dstSize : Nat}

/-- The bytes of a label, with the dot behind it. -/
theorem copyOut_label {c : Decoder} {l : List UInt8} (hl : copyOut m (c.s + 1) l.length = l) :
    copyOut ((Decoder.copy m l.length (c.take (l.length + 1))).put dot).dst 0 (c.d + (l.length + 1)) =
      copyOut c.dst 0 c.d ++ (l ++ [dot]) := by
  have hcopy := Decoder.copied m l.length (c.take (l.length + 1))
  have hd : (Decoder.copy m l.length (c.take (l.length + 1))).d = c.d + l.length := hcopy.d
  have hbefore : copyOut (Decoder.copy m l.length (c.take (l.length + 1))).dst 0 c.d = copyOut c.dst 0 c.d :=
    copyOut_congr fun i hi => hcopy.before (0 + i) (by show 0 + i < c.d; omega)
  have hlabel : copyOut (Decoder.copy m l.length (c.take (l.length + 1))).dst (0 + c.d) l.length = l := by
    rw [Nat.zero_add]
    refine Eq.trans (List.map_congr_left fun i hi => ?_) hl
    exact hcopy.label i (List.mem_range.1 hi)
  show copyOut (Function.update _ _ dot) 0 _ = _
  rw [hd]
  refine (copyOut_update _ (c.d + l.length) dot).trans ?_
  rw [copyOut_add, hbefore, hlabel, List.append_assoc]

/-- The first byte of what is in a frame, and the others. -/
theorem copyOut_cons {p : Nat} {x : UInt8} {xs : List UInt8} (h : copyOut m p (xs.length + 1) = x :: xs) :
    m p = x ∧ copyOut m (p + 1) xs.length = xs := by
  rw [Nat.add_comm, copyOut_add] at h
  exact ⟨(List.cons.inj h).1, (List.cons.inj h).2⟩

/-- Before a pointer is followed. -/
theorem take_consumed {c : Decoder} (hjumped : c.jumped = false) (n : Nat) : (c.take n).consumed = c.consumed + n := by
  show (if c.jumped then c.consumed else c.consumed + n) = c.consumed + n
  rw [hjumped]
  rfl

theorem returns_decode {c : Decoder} (hls : ∀ l ∈ ls, Plain l) (hframe : copyOut m c.s (wire ls).length = wire ls)
    (hs : c.s + (wire ls).length ≤ frameSize) (hd : c.d + (wire ls).length ≤ dstSize) (hjumped : c.jumped = false) :
    ∃ c' : Decoder,
      Returns (Decoder.pass m frameSize dstSize) c ((c.consumed + (wire ls).length : Nat) : Int) c'.terminate ∧
      c'.d = c.d + (dotted ls).length ∧ copyOut c'.dst 0 c'.d = copyOut c.dst 0 c.d ++ dotted ls := by
  induction ls generalizing c with
  | nil =>
      have hzero : m c.s = 0 := (copyOut_cons hframe).1
      have h := @Decoder.pass_zero m frameSize dstSize c (by rw [hzero]; rfl) hs hd
      rw [take_consumed hjumped] at h
      exact ⟨c.take 1, .of_ends h, rfl, (List.append_nil _).symm⟩
  | cons l ls ih =>
      obtain ⟨hplain, hls⟩ := List.forall_mem_cons.1 hls
      have hpos := List.length_pos_iff.2 hplain.ne
      have hle := hplain.length_le
      have hlen := length_wire_cons l ls
      rw [hlen] at hframe hs hd
      rw [copyOut_add] at hframe
      obtain ⟨hlabel, hrest⟩ := List.append_inj hframe (length_copyOut m c.s (l.length + 1))
      obtain ⟨hsize, htext⟩ := copyOut_cons hlabel
      have hl : (m c.s).toNat = l.length := by
        rw [hsize, UInt8.toNat_ofNat']
        omega
      have h := @Decoder.pass_label m frameSize dstSize c l.length hl hpos (by omega) (by omega) (by omega)
      -- where the next label begins, in the frame and in the destination
      have hcopy := Decoder.copied m l.length (c.take (l.length + 1))
      have hs' : ((Decoder.copy m l.length (c.take (l.length + 1))).put dot).s = c.s + (l.length + 1) :=
        hcopy.s.trans (by show c.s + 1 + l.length = c.s + (l.length + 1); omega)
      have hd' : ((Decoder.copy m l.length (c.take (l.length + 1))).put dot).d = c.d + (l.length + 1) :=
        congrArg (· + 1) hcopy.d
      have hconsumed : ((Decoder.copy m l.length (c.take (l.length + 1))).put dot).consumed = c.consumed + (l.length + 1) :=
        hcopy.consumed.trans (take_consumed hjumped _)
      have hjumped' : ((Decoder.copy m l.length (c.take (l.length + 1))).put dot).jumped = false :=
        hcopy.jumped.trans hjumped
      have hdst := copyOut_label (c := c) htext
      generalize (Decoder.copy m l.length (c.take (l.length + 1))).put dot = c₂ at *
      have hframe' : copyOut m c₂.s (wire ls).length = wire ls := by
        rw [hs']
        exact hrest
      obtain ⟨c', hret, hend, htext⟩ := ih hls hframe' (by omega) (by omega) hjumped'
      refine ⟨c', .of_goes h ?_, ?_, ?_⟩
      · rw [hlen, ← Nat.add_assoc, ← hconsumed]
        exact hret
      · rw [hend, hd', dotted, List.length_append, List.length_cons]
        omega
      · rw [htext, hd', hdst, dotted]
        simp

end

/-- The name is encoded, and where its bytes are put anywhere in a frame it is decoded, and they are consumed. -/
def ReadsBack (name : List UInt8) (dst dst' : Nat → UInt8) (dstSize dstSize' : Nat) : Prop :=
  ∃ (k : Nat) (e : Encoder) (n : Nat), encodeName name dst dstSize k = (some (n : Int), e) ∧ n = name.length + 2 ∧
    ∀ (m : Nat → UInt8) (frameSize offset : Nat), offset + n ≤ frameSize → (∀ i : Nat, i < n → m (offset + i) = e.dst i) →
      ∃ k' c, decodeName m frameSize offset dstSize' dst' k' = (some (n : Int), c) ∧
        copyOut c.dst 0 (name.length + 1) = name ++ [0]

/-- **Names are read back**, with destinations that are large enough. -/
theorem decode_encode (ls : List (List UInt8)) (hne : ls ≠ []) (hls : ∀ l ∈ ls, Plain l) (dst dst' : Nat → UInt8)
    (dstSize dstSize' : Nat) (hdst : (name ls).length + 2 ≤ dstSize) (hdst' : (name ls).length + 2 ≤ dstSize') :
    ReadsBack (name ls) dst dst' dstSize dstSize' := by
  have hdotted : (dotted ls).length = (name ls).length + 1 := by rw [dotted_eq hne, List.length_append, List.length_singleton]
  have hlen : (wire ls).length = (name ls).length + 2 := by rw [length_wire, hdotted]
  obtain ⟨e, ⟨k, hk⟩, hwire⟩ := @returns_encode ls (.start (name ls) dst dstSize) hls rfl (hlen.le.trans hdst)
  rw [show (Encoder.start (name ls) dst dstSize).d = 0 from rfl, Nat.zero_add] at hk hwire
  refine ⟨k, e, (wire ls).length, hk, hlen, fun m frameSize offset hframe hm => ?_⟩
  have hm' : copyOut m offset (wire ls).length = wire ls := by
    refine Eq.trans (List.map_congr_left fun i hi => ?_) hwire
    rw [hm i (List.mem_range.1 hi), Nat.zero_add]
  obtain ⟨c, ⟨k', hk'⟩, hd, htext⟩ :=
    @returns_decode ls m frameSize dstSize' (.start offset dst') hls hm' hframe (by show 0 + (wire ls).length ≤ dstSize'; omega) rfl
  -- the dot behind the last label is replaced
  have hd' : c.d = (name ls).length + 1 := hd.trans ((Nat.zero_add _).trans hdotted)
  rw [hd', show copyOut (Decoder.start offset dst').dst 0 (Decoder.start offset dst').d = [] from rfl, List.nil_append,
    dotted_eq hne, copyOut_add] at htext
  have hname := (List.append_inj htext (length_copyOut c.dst 0 _)).1
  refine ⟨k', c.terminate, ?_, ?_⟩
  · rw [show (Decoder.start offset dst').consumed = 0 from rfl, Nat.zero_add] at hk'
    exact hk'
  · unfold Decoder.terminate
    rw [hd', if_pos (Nat.succ_ne_zero _), Nat.add_sub_cancel]
    refine (copyOut_update c.dst (name ls).length 0).trans ?_
    rw [hname]

/-- `ab.c` -/
theorem decode_encode_two : ReadsBack [97, 98, 46, 99] (fun _ => 0) (fun _ => 0) 6 6 :=
  decode_encode [[97, 98], [99]] (by decide)
    (List.forall_mem_cons.2 ⟨⟨by decide, by decide, by decide, by decide⟩,
      List.forall_mem_singleton.2 ⟨by decide, by decide, by decide, by decide⟩⟩)
    (fun _ => 0) (fun _ => 0) 6 6 (by decide) (by decide)

end YieldStm32.Mdns
