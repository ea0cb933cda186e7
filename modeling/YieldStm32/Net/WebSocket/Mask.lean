import YieldStm32.Net.WebSocket.Frame

/-!
# Masks across receive calls

`recvPayload` starts the mask again with every piece the TCP layer hands out, so a frame comes out unmasked where the mask
does not tell the pieces' starts from the frame's.

* `pieces`, `framePieces` : the lengths in which a payload, and a frame over several reads, is received;
* `unmask` : a payload unmasked piece by piece, as the code does it;
* `Aligned` : the mask looks the same from every piece's start;
* `unmask_applyMask_iff` : this is what the unmasking needs;
* `readFrame_eq` : what consecutive calls return.
-/

namespace YieldStm32

namespace WebSocket

/-- The lengths of the pieces of `want` bytes, from the `c`-th receive on. -/
def pieces (splits : Nat → Nat) : Nat → Nat → Nat → List Nat
  | 0, _, _ => []
  | fuel + 1, c, want =>
      if want = 0 then []
      else min (splits c + 1) (min 32 want) ::
        pieces splits fuel (c + 1) (want - min (splits c + 1) (min 32 want))

/-- The lengths of the pieces of a frame of which `left` bytes are left, over reads of the given sizes. -/
def framePieces (splits : Nat → Nat) : List Nat → Nat → Nat → List Nat
  | [], _, _ => []
  | size :: sizes, c, left =>
      let p := pieces splits (min size left) c (min size left)
      if min size left = left then p
      else p ++ framePieces splits sizes (c + p.length) (left - min size left)

/-- The bytes asked for by a list of reads, or received in a list of pieces. -/
def total (ns : List Nat) : Nat := ns.foldr (· + ·) 0

/-- Unmasked piece by piece, the mask starting again with each. -/
def unmask (mask : Mask) : List Nat → List UInt8 → List UInt8
  | [], _ => []
  | n :: ns, xs => applyMask mask 0 (xs.take n) ++ unmask mask ns (xs.drop n)

/-- From the start of each piece the mask looks as from its place in the frame. -/
def Aligned (mask : Mask) : Nat → List Nat → Prop
  | _, [] => True
  | p, n :: ns => (∀ i < n, mask (Fin.ofNat 4 i) = mask (Fin.ofNat 4 (p + i))) ∧ Aligned mask (p + n) ns

instance (mask : Mask) : ∀ p ns, Decidable (Aligned mask p ns)
  | _, [] => isTrue trivial
  | p, n :: ns =>
    have := instDecidableAligned mask (p + n) ns
    inferInstanceAs (Decidable ((∀ i < n, _) ∧ _))

/-! ## Masks -/

theorem applyMask_cons (mask : Mask) (p : Nat) (x : UInt8) (xs : List UInt8) :
    applyMask mask p (x :: xs) = (x ^^^ mask (Fin.ofNat 4 p)) :: applyMask mask (p + 1) xs := by
  simp [applyMask, List.mapIdx_cons, Nat.add_assoc, Nat.add_comm 1]

@[simp] theorem applyMask_nil (mask : Mask) (p : Nat) : applyMask mask p [] = [] := rfl

@[simp] theorem length_applyMask (mask : Mask) (p : Nat) (xs : List UInt8) : (applyMask mask p xs).length = xs.length :=
  List.length_mapIdx

theorem applyMask_append (mask : Mask) (p : Nat) (xs ys : List UInt8) :
    applyMask mask p (xs ++ ys) = applyMask mask p xs ++ applyMask mask (p + xs.length) ys := by
  simp [applyMask, List.mapIdx_append, Nat.add_assoc, Nat.add_comm xs.length]

theorem applyMask_take (mask : Mask) (p n : Nat) (xs : List UInt8) :
    (applyMask mask p xs).take n = applyMask mask p (xs.take n) := by
  rcases Nat.le_total xs.length n with h | h
  · rw [List.take_of_length_le h, List.take_of_length_le (by simpa using h)]
  · conv_lhs => rw [← List.take_append_drop n xs, applyMask_append]
    apply List.take_left'
    rw [length_applyMask, List.length_take, Nat.min_eq_left h]

theorem applyMask_drop (mask : Mask) (p : Nat) {n : Nat} {xs : List UInt8} (h : n ≤ xs.length) :
    (applyMask mask p xs).drop n = applyMask mask (p + n) (xs.drop n) := by
  have hlen : (xs.take n).length = n := by rw [List.length_take, Nat.min_eq_left h]
  conv_lhs => rw [← List.take_append_drop n xs, applyMask_append, hlen]
  apply List.drop_left'
  rw [length_applyMask, hlen]

theorem xor_xor_eq_self_iff (x a b : UInt8) : x ^^^ a ^^^ b = x ↔ b = a := by
  rw [UInt8.xor_assoc]
  constructor
  · intro h
    have hab : a ^^^ b = 0 := by
      have := congrArg (x ^^^ ·) h
      simpa [← UInt8.xor_assoc] using this
    exact (UInt8.xor_eq_zero_iff.1 hab).symm
  · rintro rfl
    simp

/-- One piece, received from place `p` of the frame on. -/
theorem applyMask_applyMask_iff (mask : Mask) (p q : Nat) (xs : List UInt8) :
    applyMask mask q (applyMask mask p xs) = xs ↔
      ∀ i < xs.length, mask (Fin.ofNat 4 (q + i)) = mask (Fin.ofNat 4 (p + i)) := by
  induction xs generalizing p q with
  | nil => simp
  | cons x xs ih =>
      rw [applyMask_cons, applyMask_cons, List.cons.injEq, xor_xor_eq_self_iff, ih]
      constructor
      · rintro ⟨h0, hs⟩ i hi
        cases i with
        | zero => exact h0
        | succ i =>
            have := hs i (by simpa using hi)
            rwa [Nat.add_right_comm, Nat.add_right_comm p] at this
      · intro h
        refine ⟨h 0 (by simp), fun i hi => ?_⟩
        have := h (i + 1) (by simpa using hi)
        rwa [Nat.add_right_comm, Nat.add_right_comm p]

@[simp] theorem total_nil : total [] = 0 := rfl

@[simp] theorem total_cons (n : Nat) (ns : List Nat) : total (n :: ns) = n + total ns := rfl

@[simp] theorem total_append (ns ms : List Nat) : total (ns ++ ms) = total ns + total ms := by
  induction ns with
  | nil => simp
  | cons n ns ih => rw [List.cons_append, total_cons, total_cons, ih, Nat.add_assoc]

theorem unmask_append (mask : Mask) (ns ms : List Nat) (xs : List UInt8) :
    unmask mask (ns ++ ms) xs = unmask mask ns xs ++ unmask mask ms (xs.drop (total ns)) := by
  induction ns generalizing xs with
  | nil => rfl
  | cons n ns ih =>
      rw [List.cons_append, unmask, unmask, ih, List.append_assoc, total_cons, List.drop_drop]

theorem length_unmask (mask : Mask) (ns : List Nat) (xs : List UInt8) :
    (unmask mask ns xs).length = min (total ns) xs.length := by
  induction ns generalizing xs with
  | nil => simp [unmask]
  | cons n ns ih =>
      rw [unmask, List.length_append, length_applyMask, List.length_take, ih, List.length_drop, total_cons]
      omega

/-- **Unmasking is exact where the pieces are aligned**, and only there. -/
theorem unmask_applyMask_iff (mask : Mask) (p : Nat) (ns : List Nat) (msg : List UInt8) (h : total ns = msg.length)
    (rest : List UInt8) : unmask mask ns (applyMask mask p msg ++ rest) = msg ↔ Aligned mask p ns := by
  induction ns generalizing p msg with
  | nil =>
      rw [total_nil] at h
      rw [List.length_eq_zero_iff.1 h.symm]
      exact ⟨fun _ => trivial, fun _ => rfl⟩
  | cons n ns ih =>
      rw [total_cons] at h
      have hlen : (msg.take n).length = n := by
        rw [List.length_take]
        omega
      have hmasked : n ≤ (applyMask mask p msg).length := by
        rw [length_applyMask]
        omega
      have hrest := ih (p + n) (msg.drop n) (by rw [List.length_drop]; omega)
      rw [unmask, List.take_append_of_le_length hmasked, List.drop_append_of_le_length hmasked, applyMask_take,
        applyMask_drop mask p (by omega)]
      conv_lhs => rhs; rw [← List.take_append_drop n msg]
      rw [List.append_eq_append_iff_of_size_eq_left (by simp), applyMask_applyMask_iff, hlen, hrest]
      simp only [Nat.zero_add]
      exact Iff.rfl

/-! ## Pieces -/

theorem total_pieces (splits : Nat → Nat) {fuel want : Nat} (c : Nat) (h : want ≤ fuel) :
    total (pieces splits fuel c want) = want := by
  induction fuel generalizing c want with
  | zero =>
      rw [pieces, total_nil]
      omega
  | succ fuel ih =>
      rw [pieces]
      split
      · rename_i h0
        rw [h0, total_nil]
      · rw [total_cons, ih _ (by omega)]
        omega

theorem pieces_pos (splits : Nat → Nat) (fuel c want : Nat) : ∀ n ∈ pieces splits fuel c want, 0 < n := by
  induction fuel generalizing c want with
  | zero => simp [pieces]
  | succ fuel ih =>
      rw [pieces]
      split
      · simp
      · intro n hn
        rcases List.mem_cons.1 hn with rfl | hn
        · omega
        · exact ih _ _ n hn

theorem total_framePieces (splits : Nat → Nat) {sizes : List Nat} (c : Nat) {left : Nat} (h : left ≤ total sizes) :
    total (framePieces splits sizes c left) = left := by
  induction sizes generalizing c left with
  | nil =>
      rw [total_nil] at h
      rw [framePieces, total_nil]
      omega
  | cons size sizes ih =>
      rw [total_cons] at h
      rw [framePieces]
      split
      · rename_i hall
        rw [total_pieces _ _ (Nat.le_refl _), hall]
      · rw [total_append, total_pieces _ _ (Nat.le_refl _), ih _ (by omega)]
        omega

theorem framePieces_pos (splits : Nat → Nat) (sizes : List Nat) (c left : Nat) :
    ∀ n ∈ framePieces splits sizes c left, 0 < n := by
  induction sizes generalizing c left with
  | nil => simp [framePieces]
  | cons size sizes ih =>
      rw [framePieces]
      split
      · exact pieces_pos _ _ _ _
      · intro n hn
        rcases List.mem_append.1 hn with hn | hn
        · exact pieces_pos _ _ _ _ n hn
        · exact ih _ _ n hn

/-- The first byte depends on the first byte received only. -/
theorem head?_unmask (mask : Mask) {ns : List Nat} (hpos : ∀ n ∈ ns, 0 < n) (x : UInt8) (xs : List UInt8) :
    (unmask mask ns (x :: xs)).head? = if ns = [] then none else some (x ^^^ mask 0) := by
  cases ns with
  | nil => rfl
  | cons n ns =>
      obtain ⟨k, rfl⟩ := Nat.exists_eq_succ_of_ne_zero (Nat.ne_of_gt (hpos n (by simp)))
      rw [unmask, List.take_succ_cons, applyMask_cons, if_neg (by simp)]
      rfl

/-! ## Calls -/

section Calls

variable {env : Env} {ws : Conn}

theorem recv_eq {t : Sock} {size : Nat} (h : size ≤ t.incoming.length) :
    t.recv env size = (.ok (t.incoming.take (min (env.splits t.recvs + 1) size)),
      { t with incoming := t.incoming.drop (min (env.splits t.recvs + 1) size), recvs := t.recvs + 1 }) := by
  unfold Sock.recv
  dsimp only
  rw [Nat.min_eq_left h, if_neg (by omega)]

theorem recvPayloadLoop_eq (hrole : ws.role = .server) {size fuel : Nat} {out : List UInt8} {t : Sock}
    (hout : out.length ≤ size) (hfuel : size - out.length ≤ fuel) (hin : size - out.length ≤ t.incoming.length) :
    recvPayloadLoop env ws size fuel out t =
      (.ok (out ++ unmask ws.mask (pieces env.splits fuel t.recvs (size - out.length)) t.incoming),
        { t with
          incoming := t.incoming.drop (size - out.length)
          recvs := t.recvs + (pieces env.splits fuel t.recvs (size - out.length)).length }) := by
  induction fuel generalizing out t with
  | zero =>
      have h0 : size - out.length = 0 := by omega
      simp [recvPayloadLoop, pieces, unmask, h0]
  | succ fuel ih =>
      rw [recvPayloadLoop, pieces]
      by_cases hlt : out.length < size
      · have hne : size - out.length ≠ 0 := by omega
        rw [if_pos hlt, if_neg hne, recv_eq (by omega)]
        dsimp only
        generalize hn : min (env.splits t.recvs + 1) (min 32 (size - out.length)) = n
        have hlen : (applyMask ws.mask 0 (t.incoming.take n)).length = n := by
          rw [length_applyMask, List.length_take]
          omega
        rw [if_pos hrole, ih (by simp; omega) (by simp; omega) (by simp; omega)]
        have hleft : size - (out ++ applyMask ws.mask 0 (t.incoming.take n)).length = size - out.length - n := by
          rw [List.length_append, hlen, Nat.sub_sub]
        have hdrop : n + (size - out.length - n) = size - out.length := by omega
        rw [hleft, unmask, List.append_assoc, List.drop_drop, hdrop, List.length_cons, Nat.add_assoc, Nat.add_comm 1]
      · have h0 : size - out.length = 0 := by omega
        simp [hlt, h0, unmask]

theorem recvPayload_eq (hrole : ws.role = .server) {size : Nat} {t : Sock} (hin : size ≤ t.incoming.length) :
    recvPayload env ws size t =
      (.ok (unmask ws.mask (pieces env.splits size t.recvs size) t.incoming),
        { t with
          incoming := t.incoming.drop size
          recvs := t.recvs + (pieces env.splits size t.recvs size).length }) :=
  recvPayloadLoop_eq hrole (Nat.zero_le _) (Nat.le_refl _) hin

/-- A header of a text or binary frame of which bytes may be left. -/
structure Reading (ws : Conn) : Prop where
  role : ws.role = .server
  opcode : ws.rxOpcode = opcodeText ∨ ws.rxOpcode = opcodeBin
  le : ws.rxOffs ≤ ws.rxSize
  lt : ws.rxSize < 2 ^ 32

theorem Reading.left (h : Reading ws) : ws.left = ws.rxSize - ws.rxOffs := by
  have h1 := h.le
  have h2 := h.lt
  unfold Conn.left
  omega

theorem nextHeader_reading (http : Bool) (timeout : Int) (pongCnt : Nat) (t : Sock) (h : ws.rxSize ≠ ws.rxOffs) :
    nextHeader http env timeout pongCnt ws t = (.ready, ws, t) := by
  rw [nextHeader, if_neg h]

/-- One call inside a frame: the next bytes of it. -/
theorem recvLoop_reading {http : Bool} {ws' : Conn} {t t' : Sock} {size fuel : Nat} {timeout : Int}
    (hhdr : nextHeader http env timeout 0 ws' t' = (.ready, ws, t)) (h : Reading ws)
    (hin : ws.rxSize - ws.rxOffs ≤ t.incoming.length) :
    let n := min size (ws.rxSize - ws.rxOffs)
    recvLoop http env size (fuel + 1) timeout 0 ws' t' =
      some (.ok (if ws.rxOpcode = opcodeText then .text else .bin,
          unmask ws.mask (pieces env.splits n t.recvs n) t.incoming),
        { ws with rxOffs := ws.rxOffs + n },
        { t with incoming := t.incoming.drop n, recvs := t.recvs + (pieces env.splits n t.recvs n).length }) := by
  intro n
  have hlen : (unmask ws.mask (pieces env.splits n t.recvs n) t.incoming).length = n := by
    rw [length_unmask, total_pieces _ _ (Nat.le_refl n)]
    omega
  rw [recvLoop, hhdr]
  dsimp only
  rw [if_pos h.opcode, h.left, recvPayload_eq h.role (by omega)]
  dsimp only
  rw [hlen]

/-- **What consecutive calls return**: the frame's bytes, unmasked piece by piece. -/
theorem readFrame_eq {http : Bool}
    {recv : Nat → Int → Conn → Sock → Option (Except Int (DataType × List UInt8) × Conn × Sock)} {fuel : Nat}
    (hrecv : ∀ size timeout ws t, ws.role = .server →
      recv size timeout ws t = recvLoop http env size (fuel + 1) timeout 0 ws t)
    (reads : List (Nat × Int)) {ws' : Conn} {t t' : Sock} (size : Nat) {timeout : Int} (hrole : ws'.role = .server)
    (hhdr : nextHeader http env timeout 0 ws' t' = (.ready, ws, t)) (h : Reading ws)
    (hin : ws.rxSize - ws.rxOffs ≤ t.incoming.length)
    (hsum : ws.rxSize - ws.rxOffs ≤ total (size :: reads.map Prod.fst)) :
    readFrame recv ((size, timeout) :: reads) ws' t' =
      some (.ok (unmask ws.mask (framePieces env.splits (size :: reads.map Prod.fst) t.recvs
        (ws.rxSize - ws.rxOffs)) t.incoming)) := by
  induction reads generalizing ws ws' t t' size timeout with
  | nil =>
      have hle := h.le
      rw [List.map_nil, total_cons, total_nil] at hsum
      have hall : min size (ws.rxSize - ws.rxOffs) = ws.rxSize - ws.rxOffs := by omega
      rw [readFrame, hrecv _ _ _ _ hrole, recvLoop_reading hhdr h hin, List.map_nil, framePieces, if_pos hall, hall]
      exact if_pos (by dsimp only; omega)
  | cons read reads ih =>
      have hle := h.le
      rw [readFrame, hrecv _ _ _ _ hrole, recvLoop_reading hhdr h hin, framePieces]
      by_cases hall : min size (ws.rxSize - ws.rxOffs) = ws.rxSize - ws.rxOffs
      · rw [if_pos hall, hall]
        exact if_pos (by dsimp only; omega)
      · generalize hn : min size (ws.rxSize - ws.rxOffs) = n at *
        rw [if_neg hall]
        refine (if_neg (by dsimp only; omega)).trans ?_
        rw [List.map_cons, total_cons] at hsum
        have hoffs : ws.rxSize - (ws.rxOffs + n) = ws.rxSize - ws.rxOffs - n := by omega
        -- the next call needs no header: bytes of the frame are left
        have hws : Reading { ws with rxOffs := ws.rxOffs + n } := ⟨h.role, h.opcode, by dsimp only; omega, h.lt⟩
        have hleft : Conn.rxSize { ws with rxOffs := ws.rxOffs + n } ≠ Conn.rxOffs { ws with rxOffs := ws.rxOffs + n } := by
          dsimp only
          omega
        have hnext := ih read.1 hws.role
          (nextHeader_reading http read.2 0 { t with
            incoming := t.incoming.drop n
            recvs := t.recvs + (pieces env.splits n t.recvs n).length } hleft) hws
          (by rw [List.length_drop, hoffs]; omega) (by rw [hoffs]; omega)
        rw [hnext, unmask_append, total_pieces _ _ (Nat.le_refl n), hoffs]
        rfl

end Calls

end WebSocket

end YieldStm32
