import YieldStm32.Net.Http.Calls
import YieldStm32.Net.Http.Message

/-!
# Lines of a stream

* `recvLine_line` : a line that is received is the stream's next line, without the whitespace at its end;
* `take_headerLine` : what a well-formed header line does to the bytes left of a body;
* `parseRequestLine_head` : a request line does not start with a colon.
-/

namespace YieldStm32

namespace Http

open Stdio Ring

/-! ## Receiving -/

theorem recv_one {t t' : Sock} {c : UInt8} {rest : List UInt8} {r : Except Int (List UInt8)}
    (hin : t.incoming = c :: rest) (h : t.recv 1 = some (r, t')) :
    (∃ ec, r = .error ec ∧ t'.incoming = c :: rest) ∨ (r = .ok [c] ∧ t'.incoming = rest) := by
  unfold Sock.recv at h
  split at h
  · cases h
  · cases h
    exact Or.inl ⟨_, rfl, hin⟩
  · rename_i n recvs hrecvs
    have hbytes : t.incoming.take (min (n + 1) 1) = [c] := by
      rw [hin, Nat.min_eq_right (by omega)]
      rfl
    dsimp only at h
    rw [hbytes, if_neg (List.cons_ne_nil _ _), if_neg (asErr_nonneg (show [c].length < 2 ^ 31 from (by decide : 1 < 2 ^ 31)))] at h
    cases h
    exact Or.inr ⟨rfl, by rw [hin]; rfl⟩

theorem copyIn_singleton (m : Nat → UInt8) (n i : Nat) (c : UInt8) : copyIn m n [c] i = if i = n then c else m i := by
  unfold copyIn
  by_cases h : i = n
  · subst h
    rw [dif_pos ⟨Nat.le_refl i, by simp⟩, if_pos rfl]
    simp
  · rw [dif_neg (by simp; omega), if_neg h]

theorem copyOut_congr {m m' : Nat → UInt8} {n : Nat} (h : ∀ i < n, m i = m' i) : copyOut m 0 n = copyOut m' 0 n := by
  apply List.map_congr_left
  intro i hi
  rw [Nat.zero_add]
  exact h i (List.mem_range.1 hi)

theorem copyOut_succ (m : Nat → UInt8) (n : Nat) : copyOut m 0 (n + 1) = copyOut m 0 n ++ [m n] := by
  simp [copyOut, List.range_succ]

theorem recvLineLoop_line {L rest : List UInt8} {t t' : Sock} {size fuel n : Nat} {line line' : Nat → UInt8}
    {r : Except Int Nat} (hL : ∀ c ∈ L, c ≠ 10) (hin : t.incoming = L ++ 10 :: rest)
    (h : recvLineLoop size fuel n line t = some (r, line', t')) :
    (∃ ec, r = .error ec ∧ (∀ i < n, line' i = line i) ∧
      (n = 0 → line' 0 = line 0 ∨ (L ++ [10]).head? = some (line' 0))) ∨
      (r = .ok (n + L.length) ∧ copyOut line' 0 (n + L.length) = copyOut line 0 n ++ L ∧ t'.incoming = rest) := by
  induction fuel generalizing n line t L with
  | zero => cases h
  | succ fuel ih =>
      rw [recvLineLoop] at h
      cases hr : t.recv 1 with
      | none =>
          rw [hr] at h
          cases h
      | some p =>
          obtain ⟨result, t1⟩ := p
          rw [hr] at h
          cases L with
          | nil =>
              obtain ⟨ec, rfl, -⟩ | ⟨rfl, hin1⟩ := recv_one hin hr
              · cases h
                exact Or.inl ⟨ec, rfl, fun _ _ => rfl, fun _ => Or.inl rfl⟩
              · dsimp only at h
                rw [if_pos (by rw [copyIn_singleton, if_pos rfl])] at h
                cases h
                refine Or.inr ⟨rfl, ?_, hin1⟩
                rw [List.length_nil, Nat.add_zero, List.append_nil]
                exact copyOut_congr fun i hi => by rw [copyIn_singleton, if_neg (by omega)]
          | cons c L =>
              have hc : c ≠ 10 := hL c (List.mem_cons_self ..)
              obtain ⟨ec, rfl, -⟩ | ⟨rfl, hin1⟩ := recv_one hin hr
              · cases h
                exact Or.inl ⟨ec, rfl, fun _ _ => rfl, fun _ => Or.inl rfl⟩
              · dsimp only at h
                rw [if_neg (by rw [copyIn_singleton, if_pos rfl]; exact hc)] at h
                split at h
                · cases h
                  refine Or.inl ⟨efatal, rfl, fun i hi => by rw [copyIn_singleton, if_neg (by omega)], ?_⟩
                  rintro rfl
                  right
                  rw [copyIn_singleton, if_pos rfl]
                  rfl
                · obtain ⟨ec, rfl, hsame, -⟩ | ⟨rfl, htext, hin'⟩ :=
                    ih (fun d hd => hL d (List.mem_cons_of_mem _ hd)) hin1 h
                  · refine Or.inl ⟨ec, rfl, fun i hi => ?_, ?_⟩
                    · rw [hsame i (by omega), copyIn_singleton, if_neg (by omega)]
                    · rintro rfl
                      right
                      rw [hsame 0 (by omega), copyIn_singleton, if_pos rfl]
                      rfl
                  · refine Or.inr ⟨by rw [List.length_cons]; congr 1; omega, ?_, hin'⟩
                    have hcopy := copyOut_copyIn line n [c]
                    rw [List.length_singleton] at hcopy
                    rw [show n + (c :: L).length = n + 1 + L.length by rw [List.length_cons]; omega, htext, hcopy,
                      List.append_assoc, List.singleton_append]

theorem trimmed_eq (line : Nat → UInt8) (n : Nat) : trimmed line n = ((copyOut line 0 n).rdropWhile isspace).length := by
  induction n with
  | zero => rfl
  | succ n ih =>
      rw [trimmed, copyOut_succ, List.rdropWhile_concat]
      by_cases h : isspace (line n)
      · rw [if_pos h, if_pos (by simpa using h), ih]
      · rw [if_neg h, if_neg (by simpa using h), ← copyOut_succ]
        simp [copyOut]

theorem copyOut_take (m : Nat → UInt8) {k n : Nat} (h : k ≤ n) : (copyOut m 0 n).take k = copyOut m 0 k := by
  rw [take_copyOut, Nat.min_eq_left h]

/-- **A line that is received**: the next of the stream. -/
theorem recvLine_line {L rest : List UInt8} {t t' : Sock} {size : Nat} {line line' : Nat → UInt8} {r : Except Int Nat}
    (hL : ∀ c ∈ L, c ≠ 10) (hin : t.incoming = L ++ 10 :: rest) (h : recvLine size line t = some (r, line', t')) :
    (∃ ec, r = .error ec ∧ (line' 0 = line 0 ∨ (L ++ [10]).head? = some (line' 0))) ∨
      ∃ len, r = .ok len ∧ copyOut line' 0 len = L.rdropWhile isspace ∧ t'.incoming = rest ∧
        (len = 0 → line' 0 = 0) := by
  unfold recvLine at h
  split at h
  · cases h
  · rename_i hloop
    cases h
    obtain ⟨ec, hr, -, hzero⟩ | ⟨hr, -⟩ := recvLineLoop_line hL hin hloop
    · exact Or.inl ⟨_, rfl, hzero rfl⟩
    · cases hr
  · rename_i n line1 t1 hloop
    cases h
    obtain ⟨ec, hr, -⟩ | ⟨hr, htext, hin'⟩ := recvLineLoop_line hL hin hloop
    · cases hr
    · obtain rfl : n = 0 + L.length := by injection hr
      rw [show copyOut line 0 0 = [] from rfl, List.nil_append] at htext
      have hlen : trimmed line1 (0 + L.length) = (L.rdropWhile isspace).length := by rw [trimmed_eq, htext]
      have hpre : L.rdropWhile isspace <+: L := List.rdropWhile_prefix _ L
      have hle : (L.rdropWhile isspace).length ≤ 0 + L.length := by
        rw [Nat.zero_add]
        exact hpre.length_le
      refine Or.inr ⟨_, rfl, ?_, hin', fun hz => ?_⟩
      · rw [hlen, copyOut_congr fun i hi => by rw [copyIn_singleton, if_neg (Nat.ne_of_lt hi)], ← copyOut_take _ hle, htext]
        exact (List.prefix_iff_eq_take.1 hpre).symm
      · rw [hz, copyIn_singleton, if_pos rfl]

/-! ## Header lines -/

/-- What is dropped at the end of a list does not reach over an element that stays. -/
theorem rdropWhile_append_cons {α : Type*} {p : α → Bool} {c : α} (a b : List α) (h : p c = false) :
    (a ++ c :: b).rdropWhile p = a ++ c :: b.rdropWhile p := by
  induction b using List.reverseRecOn with
  | nil => exact List.rdropWhile_concat_neg p a c (by simp [h])
  | append_singleton b x ih =>
      rw [List.rdropWhile_concat, show a ++ c :: (b ++ [x]) = a ++ c :: b ++ [x] by simp, List.rdropWhile_concat, ih]
      split <;> simp

/-- A header line, up to the end of its line. -/
theorem headerLine_no_lf (l : HeaderLine) : ∀ c ∈ l.name ++ 58 :: l.value ++ [13], c ≠ 10 := by
  intro c hc
  simp only [List.mem_append, List.mem_cons, List.not_mem_nil, or_false] at hc
  rcases hc with (hc | rfl | hc) | rfl
  · rintro rfl
    exact (l.name_token 10 hc).2.2 (by decide)
  · decide
  · exact (l.value_line c hc).1
  · decide

/-- The text of a header line. -/
theorem rdropWhile_headerLine (l : HeaderLine) :
    (l.name ++ 58 :: l.value ++ [13]).rdropWhile isspace = l.name ++ 58 :: l.value.rdropWhile isspace := by
  rw [List.append_assoc, List.cons_append, rdropWhile_append_cons _ _ (by decide),
    List.rdropWhile_concat_pos _ _ _ (by decide)]

theorem fieldSpecs_no_colon : ∀ fs ∈ fieldSpecs, ∀ c ∈ fs.str.map tolower, c ≠ 58 := by
  decide

theorem fieldSpecs_length : ∀ fs ∈ fieldSpecs, fs.name = .contentLength →
    fs.str = ascii "content-length" ∧ fs.type = .int := by
  decide

/-- A word without a colon is not continued behind one. -/
theorem startsWord_append {w name value : List UInt8} (hw : ∀ c ∈ w.map tolower, c ≠ 58) :
    startsWord w (name ++ 58 :: value) ↔ startsWord w name := by
  unfold startsWord
  rw [List.map_append, List.map_cons]
  constructor
  · intro h
    apply List.prefix_of_prefix_length_le h (List.prefix_append ..)
    by_contra hlen
    have hlt : (name.map tolower).length < (w.map tolower).length := by omega
    have hget := h.getElem hlt
    rw [List.getElem_append_right (Nat.le_refl _)] at hget
    apply hw _ (List.getElem_mem hlt)
    rw [hget]
    simp [tolower]
  · intro h
    exact h.trans (List.prefix_append ..)

theorem findFieldSpec_eq {a b : List UInt8} (h : ∀ fs ∈ fieldSpecs, startsWord fs.str a ↔ startsWord fs.str b) :
    findFieldSpec a = findFieldSpec b := by
  rw [findFieldSpec, findFieldSpec, ← List.head?_filter, ← List.head?_filter]
  exact congrArg List.head? (List.filter_congr fun fs hfs => decide_eq_decide.2 (h fs hfs))

theorem findFieldSpec_append (name value : List UInt8) : findFieldSpec (name ++ 58 :: value) = findFieldSpec name :=
  findFieldSpec_eq fun fs hfs => startsWord_append (fieldSpecs_no_colon fs hfs)

theorem findFieldSpec_congr {a b : List UInt8} (h : sameWord a b) : findFieldSpec a = findFieldSpec b := by
  apply findFieldSpec_eq
  intro fs _
  rw [startsWord, startsWord, show a.map tolower = b.map tolower from h]

/-- A colon ends the name, and so does a zero. -/
theorem takeWhile_ended {name rest : List UInt8} {c : UInt8} (hname : ∀ d ∈ name, d ≠ 0 ∧ d ≠ 58) (hc : c = 0 ∨ c = 58) :
    (name ++ c :: rest).takeWhile (fun d => d ≠ 0 ∧ d ≠ 58) = name := by
  rw [List.takeWhile_append_of_pos (by simpa using hname), List.takeWhile_cons_of_neg, List.append_nil]
  rcases hc with rfl | rfl <;> decide

theorem parseFieldLine_append {name rest : List UInt8} (hname : ∀ c ∈ name, c ≠ 0 ∧ c ≠ 58) :
    parseFieldLine (name ++ 58 :: rest) =
      match findFieldSpec name with
      | none => some ⟨.unknown, name, .str (cstring (rest.dropWhile isspace))⟩
      | some fs =>
          match fs.type with
          | .int => (scanInt (cstring (rest.dropWhile isspace))).map fun i => ⟨fs.name, name, .int i⟩
          | .str => some ⟨fs.name, name, .str (cstring (rest.dropWhile isspace))⟩ := by
  unfold parseFieldLine
  rw [takeWhile_ended hname (.inr rfl)]
  dsimp only
  rw [List.drop_left, findFieldSpec_append]
  rfl

theorem name_ended (l : HeaderLine) : ∀ c ∈ l.name, c ≠ 0 ∧ c ≠ 58 := fun c hc =>
  ⟨(l.name_token c hc).1, (l.name_token c hc).2.1⟩

theorem parseFieldLine_eq (l : HeaderLine) : parseFieldLine (l.name ++ 58 :: l.value.rdropWhile isspace) =
    match findFieldSpec l.name with
    | none => some ⟨.unknown, l.name, .str (cstring l.text)⟩
    | some fs =>
        match fs.type with
        | .int => (scanInt (cstring l.text)).map fun i => ⟨fs.name, l.name, .int i⟩
        | .str => some ⟨fs.name, l.name, .str (cstring l.text)⟩ := parseFieldLine_append (name_ended l)

theorem Request.take_length (req : Request) {field : Field} {i : BitVec 32} (hname : field.name = .contentLength)
    (hvalue : field.value = .int i) : (req.take field).bodyBleft = i.toNat := by
  rw [Request.take, hname, hvalue]

theorem Request.take_other (req : Request) {field : Field} (hname : field.name ≠ .contentLength) :
    (req.take field).bodyBleft = req.bodyBleft := by
  unfold Request.take
  split
  · rename_i h _
    exact absurd h hname
  all_goals first | rfl | (split <;> rfl)

/-- **A header line**: only a length changes what is left of the body, and to what it says. -/
theorem take_headerLine {l : HeaderLine} {n : Nat} {field : Field} (req : Request) (hn : n < 2 ^ 32)
    (hname : startsWord (ascii "content-length") l.name → l.isLength) (hlength : l.isLength → Denotes l.text n)
    (h : parseFieldLine (l.name ++ 58 :: l.value.rdropWhile isspace) = some field) :
    (req.take field).bodyBleft = if l.isLength then n else req.bodyBleft := by
  rw [parseFieldLine_eq] at h
  by_cases hl : l.isLength
  · obtain ⟨hne, hall, hval⟩ := hlength hl
    have hspec : findFieldSpec l.name = some ⟨.contentLength, .int, ascii "content-length"⟩ := by
      rw [findFieldSpec_congr hl]
      decide
    have htext : cstring l.text = l.text := by
      apply List.takeWhile_eq_self_iff.2
      intro c hc
      have hd := hall c hc
      simp
      rintro rfl
      exact absurd hd (by decide)
    rw [hspec] at h
    dsimp only at h
    rw [htext, scanInt_denotes ⟨hne, hall, hval⟩ (by omega)] at h
    cases h
    rw [if_pos hl, Request.take_length req rfl rfl, BitVec.toNat_ofNat, Nat.mod_eq_of_lt hn]
  · rw [if_neg hl]
    apply Request.take_other
    intro hfield
    split at h
    · cases h
      cases hfield
    · rename_i fs hfs
      have hfs' : fs.name = .contentLength := by
        split at h
        · obtain ⟨i, -, rfl⟩ := Option.map_eq_some_iff.1 h
          exact hfield
        · cases h
          exact hfield
      have hstarts := List.find?_some hfs
      rw [(fieldSpecs_length fs (List.mem_of_find?_eq_some hfs) hfs').1] at hstarts
      exact hl (hname (by simpa using hstarts))

/-! ## Request lines -/

theorem scanStrLoop_out (next : UInt8) (s : List UInt8) : ∀ (len : Nat) (inQuotes esc : Bool) (room : Nat) (out : List UInt8),
    out <+: (scanStrLoop next s len inQuotes esc room out).1 := by
  induction s with
  | nil => exact fun _ _ _ _ out => List.prefix_refl out
  | cons c s ih =>
      intro len inQuotes esc room out
      rw [scanStrLoop]
      obtain ⟨out', hout, hpre⟩ : ∃ out', (if room = 0 then out else out ++ [c]) = out' ∧ out <+: out' := by
        refine ⟨_, rfl, ?_⟩
        split
        · exact List.prefix_refl out
        · exact List.prefix_append ..
      rw [hout]
      repeat' split
      all_goals first
        | exact List.prefix_refl out
        | exact hpre.trans (ih ..)
        | exact ih ..

theorem getMethodSpec_colon {str : List UInt8} (h : [58] <+: str) : getMethodSpec str = none := by
  rw [getMethodSpec, Option.map_eq_none_iff, List.find?_eq_none]
  intro l hl
  simp only [List.mem_cons, List.not_mem_nil, or_false] at hl
  rw [decide_eq_true_eq]
  rintro rfl
  rcases hl with rfl | rfl | rfl | rfl | rfl | rfl | rfl | rfl | rfl <;> exact absurd h (by decide)

theorem parseRequestLine_head {text : List UInt8} {p : Method × List UInt8} (h : parseRequestLine text = some p) :
    text.head? ≠ some 58 := by
  intro hhead
  obtain ⟨s, rfl⟩ : ∃ s, text = 58 :: s := by
    cases text with
    | nil => cases hhead
    | cons c s => exact ⟨s, by rw [Option.some.inj hhead]⟩
  obtain ⟨m, hm, -⟩ := Option.map_eq_some_iff.1 h
  -- the colon is the word's first letter
  have hword : [58] <+: (scanStr 9 32 (cstring (58 :: s))).1 := by
    rw [scanStr, cstring, List.takeWhile_cons_of_pos (by decide), List.dropWhile_cons_of_neg (by decide), scanStrLoop,
      if_neg (by decide), if_neg (by decide), if_neg (by decide), if_neg (by decide), if_neg (by simp)]
    exact scanStrLoop_out ..
  rw [getMethodSpec_colon hword] at hm
  cases hm

end Http

end YieldStm32
