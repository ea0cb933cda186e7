import YieldStm32.Util.CString

/-!
# The MIME type of a file (`www/src/website.c`)

* `lut` : the types and the file extensions for them;
* `getMimeTypeForFileExt` : `HTTPSrvWebsite_GetMimeTypeForFileExt`, with the bytes it reads;
* `extension`, `mimeTypeOf` : the name from its last `'.'` on, and the type that is right for it;
* `lastDot_spec`, `lastDot_leaves` : where the search for a `'.'` ends, and that it leaves a name without one;
* `staysInName_iff` : when only the name is read.
-/

namespace YieldStm32.Website

open Traced Stdio

/-- An entry of the look up table -/
structure MimeEntry where
  mimeType : List UInt8
  ext : List UInt8
deriving DecidableEq

/-- `lut` -/
def lut : List MimeEntry :=
  [⟨ascii "text/html", ascii ".htm"⟩, ⟨ascii "text/html", ascii ".html"⟩, ⟨ascii "text/javascript", ascii ".js"⟩,
    ⟨ascii "text/css", ascii ".css"⟩, ⟨ascii "image/svg+xml", ascii ".svg"⟩, ⟨ascii "image/jpeg", ascii ".jpg"⟩,
    ⟨ascii "image/jpeg", ascii ".jpeg"⟩, ⟨ascii "image/png", ascii ".png"⟩]

/-- `def` -/
def defaultType : List UInt8 := ascii "text/plain"

/-- `'.'` -/
abbrev dot : UInt8 := 46

/-- The way to the end of a string of which `n` characters are left. -/
def endOf (m : Nat → UInt8) : Nat → Nat → Traced Nat Nat
  | 0, ext => note ext ext
  | n + 1, ext => do
      let _ ← note ext (m ext)
      endOf m n (ext + 1)

/-- The way back to a `'.'`, `none` where there is none down to address 0. -/
def lastDot (m : Nat → UInt8) : Nat → Traced Nat (Option Nat)
  | 0 => do
      let c ← note 0 (m 0)
      pure (if c = dot then some 0 else none)
  | ext + 1 => do
      let c ← note (ext + 1) (m (ext + 1))
      if c = dot then pure (some (ext + 1)) else lastDot m ext

/-- The look up. -/
def lookUp (m : Nat → UInt8) (ext : Nat) : List MimeEntry → Traced Nat (List UInt8)
  | [] => pure defaultType
  | l :: ls => do
      let found ← strcmpAt m l.ext ext
      if found then pure l.mimeType else lookUp m ext ls

/-- `HTTPSrvWebsite_GetMimeTypeForFileExt` for a string of `n` characters at `ext`; `none` where it does not end. -/
def getMimeTypeForFileExt (m : Nat → UInt8) (ext n : Nat) : Traced Nat (Option (List UInt8)) :=
  -- no extension or an empty string?
  if ext = 0 then pure (some defaultType)
  else do
    let c ← note ext (m ext)
    if c = 0 then pure (some defaultType)
    else do
      let behind ← endOf m n ext
      let found ← lastDot m behind
      found.elim (pure none) fun ext => do
        let mimeType ← lookUp m ext lut
        pure (some mimeType)

/-! ## The type of a name -/

/-- The name from its last `'.'` on. -/
def extension : List UInt8 → Option (List UInt8)
  | [] => none
  | c :: name => (extension name).or (if c = dot then some (c :: name) else none)

/-- The type for a name. -/
def mimeTypeOf (name : List UInt8) : List UInt8 :=
  (extension name).elim defaultType fun e => ((lut.find? (·.ext = e)).map (·.mimeType)).getD defaultType

theorem extension_of_not_mem {name : List UInt8} (h : dot ∉ name) : extension name = none := by
  induction name with
  | nil => rfl
  | cons c name ih =>
      obtain ⟨hc, hname⟩ : dot ≠ c ∧ dot ∉ name := by simpa using h
      rw [extension, ih hname, if_neg (Ne.symm hc), Option.or_none]

theorem extension_append (base : List UInt8) {rest : List UInt8} (h : dot ∉ rest) :
    extension (base ++ dot :: rest) = some (dot :: rest) := by
  induction base with
  | nil => rw [List.nil_append, extension, extension_of_not_mem h, if_pos rfl, Option.none_or]
  | cons c base ih => rw [List.cons_append, extension, ih, Option.some_or]

/-- A name with a `'.'` has a last one. -/
theorem exists_last_dot {name : List UInt8} (h : dot ∈ name) : ∃ base rest, name = base ++ dot :: rest ∧ dot ∉ rest := by
  obtain ⟨rest, base, heq, hrest⟩ := List.eq_append_cons_of_mem (List.mem_reverse.2 h)
  refine ⟨base.reverse, rest.reverse, ?_, by simpa using hrest⟩
  have := congrArg List.reverse heq
  simpa using this

/-! ## The scans -/

section Scans

variable {m : Nat → UInt8}

theorem endOf_val (n ext : Nat) : (endOf m n ext).val = ext + n := by
  induction n generalizing ext with
  | zero => rfl
  | succ n ih =>
      rw [endOf, val_bind, ih]
      omega

theorem endOf_safe {P : Nat → Prop} (n ext : Nat) : Safe P (endOf m n ext) ↔ ∀ i ≤ n, P (ext + i) := by
  induction n generalizing ext with
  | zero => simp [endOf]
  | succ n ih =>
      rw [endOf, safe_bind, safe_note, ih]
      constructor
      · rintro ⟨hfirst, hrest⟩ i hi
        cases i with
        | zero => exact hfirst
        | succ i =>
            rw [← Nat.add_assoc, Nat.add_right_comm]
            exact hrest i (by omega)
      · intro h
        refine ⟨h 0 (Nat.zero_le _), fun i hi => ?_⟩
        rw [Nat.add_assoc, Nat.add_comm 1]
        exact h (i + 1) (by omega)

/-- The way back ends at the last `'.'`, and reads what is between. -/
theorem lastDot_spec {a k : Nat} (hdot : m a = dot) (hne : ∀ i, 0 < i → i ≤ k → m (a + i) ≠ dot) :
    (lastDot m (a + k)).val = some a ∧ Safe (fun i => a ≤ i ∧ i ≤ a + k) (lastDot m (a + k)) := by
  induction k with
  | zero =>
      cases a with
      | zero => simp [lastDot, hdot]
      | succ a => simp [lastDot, hdot]
  | succ k ih =>
      obtain ⟨hval, hsafe⟩ := ih fun i hpos hi => hne i hpos (by omega)
      have hthis : m (a + k + 1) ≠ dot := hne (k + 1) (by omega) (Nat.le_refl _)
      rw [← Nat.add_assoc, lastDot, val_bind, safe_bind, safe_note, if_neg hthis]
      refine ⟨hval, by omega, fun i hi => ?_⟩
      have := hsafe i hi
      omega

theorem safe_lastDot {P : Nat → Prop} {a : Nat} (h : Safe P (lastDot m a)) : P a := by
  cases a <;> exact ((safe_bind ..).1 h).1 _ (by simp)

theorem safe_lastDot_pred {P : Nat → Prop} {a : Nat} (hne : m (a + 1) ≠ dot) (h : Safe P (lastDot m (a + 1))) :
    Safe P (lastDot m a) := by
  have hrest := ((safe_bind ..).1 h).2
  rwa [val_note, if_neg hne] at hrest

/-- Without a `'.'` it reads on before the name. -/
theorem lastDot_leaves {P : Nat → Prop} {a k : Nat} (hne : ∀ i ≤ k, m (a + 1 + i) ≠ dot)
    (h : Safe P (lastDot m (a + 1 + k))) : P a := by
  induction k with
  | zero => exact safe_lastDot (safe_lastDot_pred (hne 0 (Nat.le_refl 0)) h)
  | succ k ih => exact ih (fun i hi => hne i (by omega)) (safe_lastDot_pred (hne (k + 1) (Nat.le_refl _)) h)

theorem lookUp_spec {ext : Nat} {e : List UInt8} (he : StringAt m ext e) {ls : List MimeEntry} (hls : ∀ l ∈ ls, 0 ∉ l.ext) :
    (lookUp m ext ls).val = ((ls.find? (·.ext = e)).map (·.mimeType)).getD defaultType ∧
      Safe (fun i => ext ≤ i ∧ i ≤ ext + e.length) (lookUp m ext ls) := by
  induction ls with
  | nil => exact ⟨rfl, safe_pure _⟩
  | cons l ls ih =>
      obtain ⟨hl, hls⟩ := List.forall_mem_cons.1 hls
      obtain ⟨hval, hsafe⟩ := ih hls
      rw [lookUp, val_bind, safe_bind, strcmpAt_val he hl, List.find?_cons]
      by_cases heq : l.ext = e
      · subst heq
        simp only [decide_true, if_true]
        exact ⟨rfl, strcmpAt_safe he hl, safe_pure _⟩
      · have hne : e ≠ l.ext := Ne.symm heq
        simp only [heq, hne, decide_false, Bool.false_eq_true, if_false]
        exact ⟨hval, strcmpAt_safe he hl, hsafe⟩

theorem lut_ext : ∀ l ∈ lut, 0 ∉ l.ext := by decide

end Scans

/-- Only the name is read, and its type comes out. -/
def StaysInside (ext : Nat) (name : List UInt8) (r : Traced Nat (Option (List UInt8))) : Prop :=
  Safe (fun i => ext ≤ i ∧ i ≤ ext + name.length) r ∧ r.val = some (mimeTypeOf name)

section Name

variable {m : Nat → UInt8} {ext : Nat} {name : List UInt8}

/-- With a `'.'` the table is searched for what begins there. -/
theorem staysInside_of_dot {base rest : List UInt8} (h : StringAt m ext (base ++ dot :: rest)) (hext : ext ≠ 0)
    (hrest : dot ∉ rest) :
    StaysInside ext (base ++ dot :: rest) (getMimeTypeForFileExt m ext (base ++ dot :: rest).length) := by
  have hlen : (base ++ dot :: rest).length = base.length + (rest.length + 1) := by simp
  have hfirst : m ext ≠ 0 := by
    have := h.ne_zero (i := 0) (by omega)
    simpa using this
  have hdot : m (ext + base.length) = dot := by
    rw [h.chars base.length (by omega)]
    simp
  have hafter : ∀ i, 0 < i → i ≤ rest.length + 1 → m (ext + base.length + i) ≠ dot := by
    intro i hpos hi heq
    have hget := h.getElem? (i := base.length + i) (by omega)
    rw [← Nat.add_assoc, heq, if_neg (by decide), List.getElem?_append_right (Nat.le_add_right ..), Nat.add_sub_cancel_left,
      List.getElem?_cons, if_neg (Nat.pos_iff_ne_zero.1 hpos)] at hget
    exact hrest (List.mem_of_getElem? hget)
  obtain ⟨hval, hback⟩ := lastDot_spec hdot hafter
  have hbehind : StringAt m (ext + base.length) (dot :: rest) := by simpa using h.drop (k := base.length) (by omega)
  obtain ⟨htype, htable⟩ := lookUp_spec hbehind lut_ext
  rw [Nat.add_assoc, ← hlen] at hval hback
  rw [List.length_cons, Nat.add_assoc, ← hlen] at htable
  rw [StaysInside, getMimeTypeForFileExt, if_neg hext, safe_bind, val_bind, val_note, if_neg hfirst, safe_bind, safe_bind,
    val_bind, val_bind, endOf_val, hval]
  simp only [Option.elim_some, safe_bind, val_bind, val_pure, safe_pure, safe_note, and_true]
  rw [htype, mimeTypeOf, extension_append base hrest]
  refine ⟨⟨by omega, (endOf_safe ..).2 fun i hi => by omega, fun i hi => ?_, fun i hi => ?_⟩, rfl⟩
  · have := hback i hi
    omega
  · have := htable i hi
    omega

theorem not_staysInside_of_not_mem (h : StringAt m ext name) (hext : ext ≠ 0) (hne : name ≠ []) (hdot : dot ∉ name) :
    ¬ StaysInside ext name (getMimeTypeForFileExt m ext name.length) := by
  rintro ⟨hsafe, -⟩
  obtain ⟨a, rfl⟩ := Nat.exists_eq_succ_of_ne_zero hext
  have hfirst : m (a + 1) ≠ 0 := by
    have := h.ne_zero (i := 0) (List.length_pos_iff.2 hne)
    simpa using this
  have hnone : ∀ i ≤ name.length, m (a + 1 + i) ≠ dot := by
    intro i hi heq
    have hget := h.getElem? hi
    rw [heq, if_neg (by decide)] at hget
    exact hdot (List.mem_of_getElem? hget)
  rw [getMimeTypeForFileExt, if_neg hext, safe_bind, val_note, if_neg hfirst, safe_bind, safe_bind, endOf_val] at hsafe
  have := lastDot_leaves hnone hsafe.2.2.1
  omega

end Name

/-- The look up stays inside a name that has a `'.'`, or is empty, and no other. -/
theorem staysInName_iff {m : Nat → UInt8} {ext : Nat} {name : List UInt8} (h : StringAt m ext name) (hext : ext ≠ 0) :
    StaysInside ext name (getMimeTypeForFileExt m ext name.length) ↔ name = [] ∨ dot ∈ name := by
  constructor
  · intro hstays
    by_contra hno
    rw [not_or] at hno
    exact not_staysInside_of_not_mem h hext hno.1 hno.2 hstays
  · rintro (rfl | hdot)
    · have hzero : m ext = 0 := h.terminator
      rw [StaysInside, getMimeTypeForFileExt, if_neg hext, safe_bind, val_bind, val_note, if_pos hzero]
      exact ⟨⟨(safe_note ..).2 (by simp), safe_pure _⟩, rfl⟩
    · obtain ⟨base, rest, rfl, hrest⟩ := exists_last_dot hdot
      exact staysInside_of_dot h hext hrest

/-- The start page is a text in HTML. -/
theorem staysInside_index :
    StaysInside 4 (ascii "/index.html")
      (getMimeTypeForFileExt (fun i => (ascii "GET /index.html").getD i 0) 4 (ascii "/index.html").length) := by
  have hname : (ascii "GET /index.html").drop 4 = ascii "/index.html" := by decide
  have h := (stringAt_getD (s := ascii "GET /index.html") (by decide)).drop (k := 4) (by decide)
  rw [hname] at h
  exact (staysInName_iff h (by decide)).2 (by decide)

/-- A name without a `'.'` is left. -/
theorem not_staysInside_index :
    ¬ StaysInside 4 (ascii "/index")
      (getMimeTypeForFileExt (fun i => (ascii "GET /index").getD i 0) 4 (ascii "/index").length) := by
  have hname : (ascii "GET /index").drop 4 = ascii "/index" := by decide
  have h := (stringAt_getD (s := ascii "GET /index") (by decide)).drop (k := 4) (by decide)
  rw [hname] at h
  exact not_staysInside_of_not_mem h (by decide) (by decide) (by decide)

end YieldStm32.Website
