import YieldStm32.Lib.PrefixTable
import YieldStm32.Net.Http.Line
import YieldStm32.Net.WebSocket.Listen

/-!
# What a header field is taken for

`UHTTPSrv_GetFieldSpec` and `WebSocket_GetFieldSpec` are given the whole line, and compare as much of it as the name in the
table is long.

* `Recognised` : the field is reported as the one whose name stands before the colon;
* `GoesOn` : a name goes on from one of the table;
* `recognised_iff` : nothing else is reported as what it is not, but for a line that looks empty.
-/

namespace YieldStm32

namespace FieldNames

open Stdio

/-- `text` is the name of one of the fields. -/
def key {α : Type*} (str : α → List UInt8) (fs : α) : List UInt8 := (str fs).map tolower

/-- The field is reported as the one whose name stands before the colon, and as unknown if there is none. -/
structure Recognised {α ν : Type*} (specs : List α) (name : α → ν) (str : α → List UInt8) (unknown : ν)
    (text : List UInt8) (reported : ν) : Prop where
  known : ∀ fs ∈ specs, reported = name fs ↔ sameWord (str fs) text
  unknown : reported = unknown ↔ ∀ fs ∈ specs, ¬ sameWord (str fs) text

/-- The text is the name of a field and more. -/
def GoesOn {α : Type*} (specs : List α) (str : α → List UInt8) (text : List UInt8) : Prop :=
  ∃ fs ∈ specs, startsWord (str fs) text ∧ ¬ sameWord (str fs) text

instance {α : Type*} (specs : List α) (str : α → List UInt8) (text : List UInt8) : Decidable (GoesOn specs str text) :=
  inferInstanceAs (Decidable (∃ fs ∈ specs, _))

section

variable {α ν : Type*} {specs : List α} {name : α → ν} {str : α → List UInt8} {unknown : ν} {text : List UInt8}

/-- The first name that the text starts with is the one that it is, where it goes on from none. -/
theorem recognised_iff_not_goesOn (hs : PrefixTable.Separate (key str) name specs) (hu : ∀ fs ∈ specs, name fs ≠ unknown) :
    Recognised specs name str unknown text
        (((specs.find? fun fs => startsWord (str fs) text).map name).getD unknown) ↔
      ¬ GoesOn specs str text := by
  have hexact := @PrefixTable.exactly_iff _ _ _ _ (key str) name specs (text.map tolower) hs
  have hgoes : ¬ GoesOn specs str text ↔ ∀ fs ∈ specs, key str fs <+: text.map tolower → key str fs = text.map tolower := by
    simp [GoesOn, startsWord, sameWord, key]
  rw [hgoes, ← hexact]
  have hfound : PrefixTable.starting (key str) specs (text.map tolower) = specs.find? fun fs => startsWord (str fs) text := rfl
  rw [hfound]
  cases hf : specs.find? fun fs => startsWord (str fs) text with
  | none =>
      simp only [Option.map_none, Option.getD_none]
      constructor
      · rintro ⟨hknown, hun⟩
        refine ⟨fun fs hfs => ?_, iff_of_true rfl (hun.1 rfl)⟩
        exact iff_of_false (by simp) fun h => hu fs hfs (((hknown fs hfs).2 h).symm)
      · rintro ⟨hname, hnone⟩
        refine ⟨fun fs hfs => ?_, iff_of_true rfl (hnone.1 rfl)⟩
        exact iff_of_false (hu fs hfs).symm (hnone.1 rfl fs hfs)
  | some found =>
      have hmem := List.mem_of_find?_eq_some hf
      simp only [Option.map_some, Option.getD_some]
      constructor
      · rintro ⟨hknown, hun⟩
        refine ⟨fun fs hfs => ?_, iff_of_false (by simp) fun hall => ?_⟩
        · rw [Option.some.injEq]
          exact hknown fs hfs
        · exact hu found hmem (hun.2 hall)
      · rintro ⟨hname, hnone⟩
        refine ⟨fun fs hfs => ?_, iff_of_false (hu found hmem) fun hall => ?_⟩
        · exact Option.some_inj.symm.trans (hname fs hfs)
        · cases hnone.2 hall

end

/-! ## The two parsers -/

theorem http_separate : PrefixTable.Separate (key Http.FieldSpec.str) Http.FieldSpec.name Http.fieldSpecs := by
  constructor <;> decide

theorem ws_separate : PrefixTable.Separate (key WSListen.FieldSpec.str) WSListen.FieldSpec.name WSListen.fieldSpecs := by
  constructor <;> decide

theorem wsSpecs_no_colon : ∀ fs ∈ WSListen.fieldSpecs, ∀ c ∈ fs.str.map tolower, c ≠ 58 := by
  decide

theorem wsFind_append (name value : List UInt8) :
    WSListen.findFieldSpec (name ++ 58 :: value) = WSListen.findFieldSpec name := by
  rw [WSListen.findFieldSpec, WSListen.findFieldSpec, ← List.head?_filter, ← List.head?_filter]
  refine congrArg List.head? (List.filter_congr fun fs hfs => decide_eq_decide.2 ?_)
  exact Http.startsWord_append (wsSpecs_no_colon fs hfs)

variable {name rest : List UInt8}

theorem http_parse_name {field : Http.Field} (hname : ∀ c ∈ name, c ≠ 0 ∧ c ≠ 58)
    (h : Http.parseFieldLine (name ++ 58 :: rest) = some field) :
    field.name = ((Http.findFieldSpec name).map Http.FieldSpec.name).getD .unknown := by
  rw [Http.parseFieldLine_append hname] at h
  split at h
  · rename_i hf
    cases h
    rw [hf]
    rfl
  · rename_i fs hf
    rw [hf]
    split at h
    · obtain ⟨i, -, rfl⟩ := Option.map_eq_some_iff.1 h
      rfl
    · cases h
      rfl

theorem ws_parse (hname : ∀ c ∈ name, c ≠ 0 ∧ c ≠ 58) : WSListen.parseFieldLine (name ++ 58 :: rest) =
    match WSListen.findFieldSpec name with
    | none => some ⟨.unknown, .str ((cstring (rest.dropWhile isspace)).take (min 32 (rest.dropWhile isspace).length - 1))⟩
    | some fs =>
        match fs.type with
        | .int => (scanInt (cstring (rest.dropWhile isspace))).map fun i => ⟨fs.name, .int i⟩
        | .str => some ⟨fs.name, .str ((cstring (rest.dropWhile isspace)).take 31)⟩ := by
  have hhead : ¬ (name ++ 58 :: rest).headD 0 = 0 := by
    cases name with
    | nil => exact fun h => absurd h (by decide : ¬ (58 : UInt8) = 0)
    | cons c name => exact (hname c (List.mem_cons_self ..)).1
  unfold WSListen.parseFieldLine
  rw [if_neg hhead, Http.takeWhile_ended hname (.inr rfl)]
  dsimp only
  rw [List.drop_left, wsFind_append]
  rfl

theorem ws_parse_name {field : WSListen.Field} (hname : ∀ c ∈ name, c ≠ 0 ∧ c ≠ 58)
    (h : WSListen.parseFieldLine (name ++ 58 :: rest) = some field) :
    field.name = ((WSListen.findFieldSpec name).map WSListen.FieldSpec.name).getD .unknown := by
  rw [ws_parse hname] at h
  split at h
  · rename_i hf
    cases h
    rw [hf]
    rfl
  · rename_i fs hf
    rw [hf]
    split at h
    · obtain ⟨i, -, rfl⟩ := Option.map_eq_some_iff.1 h
      rfl
    · cases h
      rfl

/-- A line with a zero before its colon has no name. -/
theorem drop_zero (hname : ∀ c ∈ name, c ≠ 58) (hzero : 0 ∈ name) : ∃ tail, (name ++ 58 :: rest).drop
    ((name ++ 58 :: rest).takeWhile fun c => c ≠ 0 ∧ c ≠ 58).length = 0 :: tail := by
  obtain ⟨front, back, rfl, hfront⟩ := List.eq_append_cons_of_mem hzero
  have hall : ∀ d ∈ front, d ≠ 0 ∧ d ≠ 58 := by
    intro d hd
    exact ⟨fun h => hfront (h ▸ hd), hname d (List.mem_append_left _ hd)⟩
  rw [List.append_assoc, List.cons_append, Http.takeWhile_ended hall (.inl rfl), List.drop_left]
  exact ⟨_, rfl⟩

theorem http_parse_zero (hname : ∀ c ∈ name, c ≠ 58) (hzero : 0 ∈ name) :
    Http.parseFieldLine (name ++ 58 :: rest) = none := by
  obtain ⟨tail, htail⟩ := @drop_zero name rest hname hzero
  unfold Http.parseFieldLine
  dsimp only
  rw [htail]
  rfl

/-- A zero in front makes the line look empty. -/
theorem ws_parse_zero (hname : ∀ c ∈ name, c ≠ 58) (hzero : 0 ∈ name) : WSListen.parseFieldLine (name ++ 58 :: rest) =
    if name.head? = some 0 then some ⟨.empty, .str []⟩ else none := by
  obtain ⟨tail, htail⟩ := @drop_zero name rest hname hzero
  obtain ⟨c, name, rfl⟩ := List.exists_cons_of_ne_nil (List.ne_nil_of_mem hzero)
  have hhead : ((c :: name) ++ 58 :: rest).headD 0 = 0 ↔ (c :: name).head? = some 0 := by simp
  unfold WSListen.parseFieldLine
  rw [if_congr hhead rfl rfl]
  split
  · rfl
  · dsimp only
    rw [htail]
    rfl

/-- **Header fields** that are accepted are recognised by their names, but for those that go on from a name of the table,
and for a line that starts with a zero. -/
theorem recognised_iff (hname : ∀ c ∈ name, c ≠ 58) :
    (∀ field, Http.parseFieldLine (name ++ 58 :: rest) = some field →
      (Recognised Http.fieldSpecs Http.FieldSpec.name Http.FieldSpec.str .unknown name field.name ↔
        ¬ GoesOn Http.fieldSpecs Http.FieldSpec.str name)) ∧
    ∀ field, WSListen.parseFieldLine (name ++ 58 :: rest) = some field →
      (Recognised WSListen.fieldSpecs WSListen.FieldSpec.name WSListen.FieldSpec.str .unknown name field.name ↔
        ¬ GoesOn WSListen.fieldSpecs WSListen.FieldSpec.str name ∧ name.head? ≠ some 0) := by
  have hclean (h : 0 ∉ name) : ∀ c ∈ name, c ≠ 0 ∧ c ≠ 58 := fun c hc => ⟨fun hzero => h (hzero ▸ hc), hname c hc⟩
  constructor
  · intro field hparse
    by_cases hzero : 0 ∈ name
    · rw [http_parse_zero hname hzero] at hparse
      cases hparse
    · rw [http_parse_name (hclean hzero) hparse]
      exact recognised_iff_not_goesOn http_separate (by decide)
  · intro field hparse
    by_cases hzero : 0 ∈ name
    · rw [ws_parse_zero hname hzero] at hparse
      split at hparse
      · rename_i hhead
        obtain rfl := Option.some.inj hparse
        refine iff_of_false (fun h => ?_) fun h => h.2 hhead
        have hempty : ∀ fs ∈ WSListen.fieldSpecs, .empty ≠ fs.name := by decide
        have hnone : ∀ fs ∈ WSListen.fieldSpecs, ¬ sameWord fs.str name :=
          fun fs hfs hsame => hempty fs hfs ((h.known fs hfs).2 hsame)
        exact absurd (h.unknown.2 hnone) (by decide)
      · cases hparse
    · have hhead : name.head? ≠ some 0 := fun h => hzero (List.mem_of_mem_head? h)
      rw [ws_parse_name (hclean hzero) hparse, and_iff_left hhead]
      exact recognised_iff_not_goesOn ws_separate (by decide)

theorem recognised_iff_host :
    (Recognised Http.fieldSpecs Http.FieldSpec.name Http.FieldSpec.str .unknown (ascii "Host") .host ↔
      ¬ GoesOn Http.fieldSpecs Http.FieldSpec.str (ascii "Host")) ∧
    (Recognised WSListen.fieldSpecs WSListen.FieldSpec.name WSListen.FieldSpec.str .unknown (ascii "Host") .host ↔
      ¬ GoesOn WSListen.fieldSpecs WSListen.FieldSpec.str (ascii "Host") ∧ (ascii "Host").head? ≠ some 0) :=
  have h := @recognised_iff (ascii "Host") (ascii " a") (by decide)
  ⟨h.1 ⟨.host, ascii "Host", .str (ascii "a")⟩ (by decide), h.2 ⟨.host, .str (ascii "a")⟩ (by decide)⟩

/-- What a browser sends with a request that has nothing to do with a websocket. -/
theorem not_recognised_insecure :
    (∃ field, Http.parseFieldLine (ascii "Upgrade-Insecure-Requests: 1") = some field ∧ field.name = .upgrade ∧
      ¬ Recognised Http.fieldSpecs Http.FieldSpec.name Http.FieldSpec.str .unknown (ascii "Upgrade-Insecure-Requests")
        field.name) ∧
    ∃ field, WSListen.parseFieldLine (ascii "Upgrade-Insecure-Requests: 1") = some field ∧ field.name = .upgrade ∧
      ¬ Recognised WSListen.fieldSpecs WSListen.FieldSpec.name WSListen.FieldSpec.str .unknown
        (ascii "Upgrade-Insecure-Requests") field.name := by
  refine ⟨⟨⟨.upgrade, ascii "Upgrade-Insecure-Requests", .str (ascii "1")⟩, by decide, rfl, fun h => ?_⟩,
    ⟨.upgrade, .str (ascii "1")⟩, by decide, rfl, fun h => ?_⟩
  · exact absurd ((h.known ⟨.upgrade, .str, ascii "Upgrade"⟩ (by decide)).1 rfl) (by decide)
  · exact absurd ((h.known ⟨.upgrade, .str, ascii "Upgrade"⟩ (by decide)).1 rfl) (by decide)

end FieldNames

end YieldStm32
