import Mathlib.Data.List.Nodup
import YieldStm32.Net.Http.Line
import YieldStm32.Net.WebSocket.Listen
import YieldStm32.Util.ScanText

/-!
# Start lines (`UHTTPSrv_ParseRequestLine`, `WebSocket_ParseStatusLine`)

A line is split by the scanner, and what the words stand for is looked up in tables.

* `Outcome` : what comes of it: a null pointer may be followed, or an assertion fail;
* `parseRequestLine`, `parseStatusLine` : the two parsers;
* `spelt`, `speltNumber` : a word, and a number, as it stands in the line;
* `StrictRequest`, `StrictStatus` : an error that changes nothing, or values that stand in the line;
* `strict_iff` : the lines for which that is so;
* `vsnscanf_request`, `vsnscanf_status` : what the lines are split into is what the scanner stores.
-/

namespace YieldStm32

namespace StartLine

open Stdio
open WSListen (Version getVersionSpec)

def eargval : Int := -3

/-- A parser returns a code, and leaves its outputs; or it reads through a null pointer; or the processor is reset. -/
inductive Outcome (σ : Type) where
  | returned (ec : Int) (out : σ)
  | nullRead
  | reset

/-! ## Request lines -/

/-- What `UHTTPSrv_ParseRequestLine` stores; no version is `HTTP_VER_UNKNOWN`. -/
structure RequestOut where
  method : Http.Method
  url : Nat → UInt8
  version : Option Version

/-- The table of `UHTTPSrv_GetMethodSpec`. -/
def methodSpecs : List (Http.Method × List UInt8) :=
  [(.get, ascii "GET"), (.head, ascii "HEAD"), (.post, ascii "POST"), (.put, ascii "PUT"), (.delete, ascii "DELETE"),
    (.connect, ascii "CONNECT"), (.options, ascii "OPTIONS"), (.trace, ascii "TRACE"), (.patch, ascii "PATCH")]

/-- The table of `UHTTPSrv_GetVersionSpec`, and of `WebSocket_GetVersionSpec`. -/
def versionSpecs : List (Version × List UInt8) :=
  [(.v1_0, ascii "HTTP/1.0"), (.v1_1, ascii "HTTP/1.1"), (.v2_0, ascii "HTTP/2"), (.v3_0, ascii "HTTP/3")]

/-- What the scanner makes of the method, of the URL and of the version. -/
def methodWord (text : List UInt8) : List UInt8 × List UInt8 := scanStr 9 32 (cstring text)

def urlWord (text : List UInt8) : List UInt8 × List UInt8 :=
  scanStr Http.maxLineLen 32 ((methodWord text).2.dropWhile isspace)

def versionWord (text : List UInt8) : List UInt8 × List UInt8 := scanStr 9 0 ((urlWord text).2.dropWhile isspace)

/-- `UHTTPSrv_ParseRequestLine`. The scanner always finds three words. -/
def parseRequestLine (text : List UInt8) (out : RequestOut) : Outcome RequestOut :=
  let out := { out with url := Ring.copyIn out.url 0 ((urlWord text).1 ++ [0]) }
  match Http.getMethodSpec (methodWord text).1 with
  | none => .returned Http.efatal out
  | some method =>
      -- what is tested is the method again
      match getVersionSpec (versionWord text).1 with
      | none => .nullRead
      | some version => .returned 0 { out with method, version := some version }

/-! ## Status lines -/

inductive StatusCode where
  | unknown | switchingProtocols | badRequest | notFound | internalSrvErr
deriving DecidableEq, Repr

/-- The table of `WebSocket_GetStatusCodeSpec`, but for its texts. -/
def statusSpecs : List (StatusCode × BitVec 32) :=
  [(.switchingProtocols, 101), (.badRequest, 400), (.notFound, 404), (.internalSrvErr, 500)]

/-- `WebSocket_GetStatusCodeSpec(0, code_val, 0)`, where there is a value. -/
def getStatusCodeSpec (value : BitVec 32) : Option StatusCode := (statusSpecs.find? fun l => l.2 = value).map Prod.fst

/-- `%d` to `snscanf`, and what is behind the number. -/
def scanDec (s : List UInt8) : Option (BitVec 32 × List UInt8) :=
  match s.dropWhile isspace with
  | [] => none
  | c :: rest =>
      let unsigned (s : List UInt8) := (scanDigits 10 s).map fun v => (v, s.dropWhile (digitVal · < 10))
      if c = 43 then unsigned rest
      else if c = 45 then (unsigned rest).map fun r => (- r.1, r.2)
      else unsigned (c :: rest)

/-- What `WebSocket_ParseStatusLine` stores. -/
structure StatusOut where
  version : Option Version
  code : StatusCode

/-- What the scanner makes of the version, and of the code. -/
def statusVersion (text : List UInt8) : List UInt8 × List UInt8 := scanStr 15 32 (cstring text)

def statusCode (text : List UInt8) : Option (BitVec 32 × List UInt8) := scanDec ((statusVersion text).2.dropWhile isspace)

/-- The end of `WebSocket_ParseStatusLine`: the code is looked up, which the table's assertion refuses for 0. -/
def storeStatusCode (wantsCode : Bool) (value : BitVec 32) (out : StatusOut) : Outcome StatusOut :=
  if value = 0 then .reset
  else
    -- what is tested is the version again
    match getStatusCodeSpec value, wantsCode with
    | none, true => .nullRead
    | none, false => .returned 0 out
    | some code, true => .returned 0 { out with code }
    | some _, false => .returned 0 out

/-- `WebSocket_ParseStatusLine`; `wantsVersion` and `wantsCode` are whether there is somewhere to store them. -/
def parseStatusLine (wantsVersion wantsCode : Bool) (text : List UInt8) (out : StatusOut) : Outcome StatusOut :=
  match statusCode text with
  | none => .returned eargval out
  | some (value, _) =>
      match getVersionSpec (statusVersion text).1 with
      | none => .returned Http.efatal out
      | some version =>
          storeStatusCode wantsCode value (if wantsVersion then { out with version := some version } else out)

/-! ## What is asked for -/

/-- A word as it stands in the line. -/
def spelt (precision : Nat) (next : UInt8) (s : List UInt8) : List UInt8 :=
  (s.dropWhile isspace).take ((s.dropWhile isspace).length - (scanStr precision next s).2.length)

/-- A number as it stands in the line. -/
def speltNumber (s : List UInt8) : List UInt8 :=
  ((scanDec s).map fun r => (s.dropWhile isspace).take ((s.dropWhile isspace).length - r.2.length)).getD []

def speltMethod (text : List UInt8) : List UInt8 := spelt 9 32 (cstring text)

def speltVersion (text : List UInt8) : List UInt8 := spelt 9 0 ((urlWord text).2.dropWhile isspace)

def speltStatusVersion (text : List UInt8) : List UInt8 := spelt 15 32 (cstring text)

def speltCode (text : List UInt8) : List UInt8 := speltNumber ((statusVersion text).2.dropWhile isspace)

/-- There is an error and the outputs are what they were, or the method and the version are those whose names are there. -/
def StrictRequest (text : List UInt8) (out : RequestOut) : Prop :=
  ∃ ec out', parseRequestLine text out = .returned ec out' ∧
    (ec < 0 ∧ out' = out ∨
      ec = 0 ∧ (out'.method, speltMethod text) ∈ methodSpecs ∧
        ∃ version, out'.version = some version ∧ (version, speltVersion text) ∈ versionSpecs)

/-- There is an error and the outputs are what they were, or the version and the code are those that are there. -/
def StrictStatus (wantsVersion wantsCode : Bool) (text : List UInt8) (out : StatusOut) : Prop :=
  ∃ ec out', parseStatusLine wantsVersion wantsCode text out = .returned ec out' ∧
    (ec < 0 ∧ out' = out ∨
      ec = 0 ∧ ∃ version code value, (version, speltStatusVersion text) ∈ versionSpecs ∧ (code, value) ∈ statusSpecs ∧
        speltCode text = printInt value ∧ (wantsVersion → out'.version = some version) ∧ (wantsCode → out'.code = code))

/-! ## Words -/

/-- What stands in the line from `s` on, up to `rest`. -/
def upTo (s rest : List UInt8) : List UInt8 := s.take (s.length - rest.length)

theorem upTo_self (s : List UInt8) : upTo s s = [] := by simp [upTo]

theorem upTo_cons {c : UInt8} {s rest : List UInt8} (h : rest <:+ s) : upTo (c :: s) rest = c :: upTo s rest := by
  have hlen := h.length_le
  rw [upTo, upTo, List.length_cons, Nat.succ_sub hlen, List.take_succ_cons]

/-- A word without quotes and backslashes is stored as it stands there, as far as there is room. -/
theorem scanStrLoop_plain {next : UInt8} {s : List UInt8} {len room : Nat} {out : List UInt8}
    (h : ∀ c ∈ upTo s (scanStrLoop next s len false false room out).2, c ≠ 92 ∧ c ≠ 34) :
    (scanStrLoop next s len false false room out).1 =
      out ++ (upTo s (scanStrLoop next s len false false room out).2).take room := by
  induction s generalizing len room out with
  | nil => simp [scanStrLoop, upTo]
  | cons c s ih =>
      by_cases hc : c = 92 ∨ c = 34 ∧ ¬ (len ≠ 0 ∧ c = next)
      · -- the character is gone over, so that it would stand in the word
        have hmem : c ∈ upTo (c :: s) (scanStrLoop next (c :: s) len false false room out).2 := by
          have hon : (scanStrLoop next (c :: s) len false false room out).2 <:+ s := by
            rw [scanStrLoop, if_neg (by decide)]
            rcases hc with rfl | ⟨rfl, hlen⟩
            · rw [if_pos rfl]
              exact scanStrLoop_suffix ..
            · rw [if_neg (by decide), if_pos rfl, if_neg (by decide)]
              split
              · exact scanStrLoop_suffix ..
              · rename_i hpos
                rw [if_neg fun heq => hlen ⟨hpos, heq⟩]
                exact scanStrLoop_suffix ..
          rw [upTo_cons hon]
          exact List.mem_cons_self ..
        rcases hc with rfl | ⟨rfl, -⟩
        · exact absurd rfl (h _ hmem).1
        · exact absurd rfl (h _ hmem).2
      · rw [not_or] at hc
        by_cases hstop : isspace c ∨ c = next
        · have heq : scanStrLoop next (c :: s) len false false room out = (out, c :: s) := by
            rw [scanStrLoop, if_neg (by decide), if_neg hc.1]
            by_cases hquote : c = 34
            · obtain ⟨hlen, hnext⟩ := Classical.not_not.1 fun hno => hc.2 ⟨hquote, hno⟩
              rw [if_pos hquote, if_neg (by decide), if_neg hlen, if_pos hnext]
            · rw [if_neg hquote, if_pos hstop, if_pos (by decide)]
          rw [heq, upTo_self, List.take_nil, List.append_nil]
        · have hquote : c ≠ 34 := fun hquote => hc.2 ⟨hquote, fun hno => hstop (.inr hno.2)⟩
          have heq : scanStrLoop next (c :: s) len false false room out =
              scanStrLoop next s (len + 1) false false (room - 1) (if room = 0 then out else out ++ [c]) := by
            rw [scanStrLoop, if_neg (by decide), if_neg hc.1, if_neg hquote, if_neg hstop]
          rw [heq, upTo_cons (scanStrLoop_suffix ..)] at h ⊢
          rw [ih fun d hd => h d (List.mem_cons_of_mem _ hd)]
          cases room with
          | zero => simp
          | succ room => simp

/-- **A name** that stands in the line is what the scanner makes of it. -/
theorem scanStr_spelt {precision : Nat} {next : UInt8} {s w : List UInt8} (h : spelt precision next s = w)
    (hplain : ∀ c ∈ w, c ≠ 92 ∧ c ≠ 34) (hlen : w.length ≤ precision - 1) : (scanStr precision next s).1 = w := by
  have hword : upTo (s.dropWhile isspace) (scanStr precision next s).2 = w := h
  have hshort : w.length ≤ (s.dropWhile isspace).length := by
    rw [← h, spelt]
    exact List.length_take_le' ..
  rw [scanStr] at hword ⊢
  rw [scanStrLoop_plain fun c hc => hplain c (hword ▸ hc), hword, List.nil_append]
  exact List.take_of_length_le (Nat.le_min.2 ⟨hlen, hshort⟩)

/-! ## Numbers -/

theorem upTo_dropWhile (p : UInt8 → Bool) (s : List UInt8) : upTo s (s.dropWhile p) = s.takeWhile p := by
  have hsplit := List.takeWhile_append_dropWhile (p := p) (l := s)
  have hlen : s.length - (s.dropWhile p).length = (s.takeWhile p).length := by
    rw [← congrArg List.length hsplit, List.length_append, Nat.add_sub_cancel]
  rw [upTo, hlen]
  exact (List.prefix_iff_eq_take.1 (List.takeWhile_prefix p)).symm

/-- Only the digits in front count. -/
theorem scanDigits_takeWhile (base : Nat) (s : List UInt8) :
    scanDigits base s = scanDigits base (s.takeWhile (digitVal · < base)) := by
  have hmap : (s.map digitVal).takeWhile (· < base) = (s.takeWhile (digitVal · < base)).map digitVal := by
    rw [List.takeWhile_map]
    rfl
  have hall : ((s.takeWhile (digitVal · < base)).map digitVal).takeWhile (· < base) =
      (s.takeWhile (digitVal · < base)).map digitVal := by
    rw [← hmap, List.takeWhile_takeWhile]
    simp
  unfold scanDigits
  rw [hmap, hall]

/-- A row of digits that stands in the line is what is read there. -/
theorem scanDec_spelt {s w : List UInt8} (h : speltNumber s = w) (hw : w ≠ []) (hdigits : ∀ c ∈ w, isdigit c) :
    ∃ rest, scanDec s = (scanDigits 10 w).map fun v => (v, rest) := by
  obtain ⟨r, hr, hword⟩ : ∃ r, scanDec s = some r ∧ upTo (s.dropWhile isspace) r.2 = w := by
    cases hr : scanDec s with
    | none =>
        rw [speltNumber, hr] at h
        exact absurd h.symm hw
    | some r =>
        rw [speltNumber, hr] at h
        exact ⟨r, rfl, h⟩
  cases hs : s.dropWhile isspace with
  | nil =>
      rw [scanDec, hs] at hr
      cases hr
  | cons c tail =>
      rw [hs] at hword
      rw [scanDec, hs] at hr ⊢
      -- a sign would stand in the word
      have hsign (hc : c = 43 ∨ c = 45) (hrest : r.2 <:+ tail) : False := by
        have hmem : c ∈ w := by
          rw [← hword, upTo_cons hrest]
          exact List.mem_cons_self ..
        rcases hc with rfl | rfl <;> exact absurd (hdigits _ hmem) (by decide)
      dsimp only at hr ⊢
      by_cases hplus : c = 43
      · rw [if_pos hplus] at hr
        obtain ⟨v, -, rfl⟩ := Option.map_eq_some_iff.1 hr
        exact (hsign (.inl hplus) (List.dropWhile_suffix _)).elim
      · rw [if_neg hplus] at hr ⊢
        by_cases hminus : c = 45
        · rw [if_pos hminus, Option.map_map] at hr
          obtain ⟨v, -, rfl⟩ := Option.map_eq_some_iff.1 hr
          exact (hsign (.inr hminus) (List.dropWhile_suffix _)).elim
        · rw [if_neg hminus] at hr ⊢
          obtain ⟨v, -, rfl⟩ := Option.map_eq_some_iff.1 hr
          rw [upTo_dropWhile] at hword
          rw [scanDigits_takeWhile, hword]
          exact ⟨_, rfl⟩

/-! ## The tables -/

theorem getMethodSpec_eq (str : List UInt8) : Http.getMethodSpec str = (methodSpecs.find? fun l => l.2 = str).map Prod.fst :=
  rfl

theorem getVersionSpec_eq (str : List UInt8) : getVersionSpec str = (versionSpecs.find? fun l => l.2 = str).map Prod.fst :=
  rfl

/-- A text of a table is found, and it is of one value only. -/
theorem find?_of_mem {α β : Type*} [DecidableEq β] {table : List (α × β)} {a : α} {b : β}
    (hnodup : (table.map Prod.snd).Nodup) (h : (a, b) ∈ table) :
    (table.find? fun l => l.2 = b).map Prod.fst = some a := by
  obtain ⟨l, hl⟩ : ∃ l, (table.find? fun l => l.2 = b) = some l :=
    Option.isSome_iff_exists.1 (List.find?_isSome.2 ⟨(a, b), h, by simp⟩)
  have hkey : l.2 = b := by simpa using List.find?_some hl
  rw [hl, List.inj_on_of_nodup_map hnodup (List.mem_of_find?_eq_some hl) h hkey]
  rfl

theorem methodSpecs_nodup : (methodSpecs.map Prod.snd).Nodup := by decide

theorem versionSpecs_nodup : (versionSpecs.map Prod.snd).Nodup := by decide

theorem statusSpecs_nodup : (statusSpecs.map Prod.snd).Nodup := by decide

/-- The names of methods are words, and shorter than what is stored. -/
theorem methodSpecs_plain : ∀ l ∈ methodSpecs, l.2.length ≤ 8 ∧ ∀ c ∈ l.2, c ≠ 92 ∧ c ≠ 34 := by decide

theorem versionSpecs_plain : ∀ l ∈ versionSpecs, l.2.length ≤ 8 ∧ ∀ c ∈ l.2, c ≠ 92 ∧ c ≠ 34 := by decide

theorem statusSpecs_digits : ∀ l ∈ statusSpecs, printInt l.2 ≠ [] ∧ (∀ c ∈ printInt l.2, isdigit c) ∧
    scanDigits 10 (printInt l.2) = some l.2 ∧ l.2 ≠ 0 := by decide

/-! ## The lines -/

/-- The method and the version stand in the line by their names; or the method is unknown, and the URL's buffer holds what is
stored there. -/
def FitsRequest (text : List UInt8) (out : RequestOut) : Prop :=
  (∃ method version, (method, speltMethod text) ∈ methodSpecs ∧ (version, speltVersion text) ∈ versionSpecs) ∨
    Http.getMethodSpec (methodWord text).1 = none ∧ Ring.copyIn out.url 0 ((urlWord text).1 ++ [0]) = out.url

/-- The version and the code stand in the line as they are in the tables; or there is no number, or the version is unknown. -/
def FitsStatus (text : List UInt8) : Prop :=
  (∃ version code value, (version, speltStatusVersion text) ∈ versionSpecs ∧ (code, value) ∈ statusSpecs ∧
      speltCode text = printInt value) ∨
    statusCode text = none ∨ getVersionSpec (statusVersion text).1 = none

theorem getMethodSpec_spelt {text : List UInt8} {method : Http.Method} (h : (method, speltMethod text) ∈ methodSpecs) :
    Http.getMethodSpec (methodWord text).1 = some method := by
  obtain ⟨hlen, hplain⟩ := methodSpecs_plain _ h
  rw [methodWord, scanStr_spelt rfl hplain hlen, getMethodSpec_eq]
  exact find?_of_mem methodSpecs_nodup h

theorem getVersionSpec_spelt {text : List UInt8} {version : Version} (h : (version, speltVersion text) ∈ versionSpecs) :
    getVersionSpec (versionWord text).1 = some version := by
  obtain ⟨hlen, hplain⟩ := versionSpecs_plain _ h
  rw [versionWord, scanStr_spelt rfl hplain hlen, getVersionSpec_eq]
  exact find?_of_mem versionSpecs_nodup h

theorem getStatusVersion_spelt {text : List UInt8} {version : Version}
    (h : (version, speltStatusVersion text) ∈ versionSpecs) : getVersionSpec (statusVersion text).1 = some version := by
  obtain ⟨hlen, hplain⟩ := versionSpecs_plain _ h
  rw [statusVersion, scanStr_spelt rfl hplain (Nat.le_trans hlen (by decide)), getVersionSpec_eq]
  exact find?_of_mem versionSpecs_nodup h

theorem strictRequest_iff (text : List UInt8) (out : RequestOut) : StrictRequest text out ↔ FitsRequest text out := by
  constructor
  · rintro ⟨ec, out', hparse, ⟨hneg, rfl⟩ | ⟨hok, hmethod, version, -, hversion⟩⟩
    · right
      unfold parseRequestLine at hparse
      split at hparse
      · rename_i hm
        injection hparse with _ hout
        exact ⟨hm, congrArg RequestOut.url hout⟩
      · split at hparse
        · cases hparse
        · injection hparse with hec _
          rw [← hec] at hneg
          exact absurd hneg (by decide)
    · exact .inl ⟨_, version, hmethod, hversion⟩
  · rintro (⟨method, version, hmethod, hversion⟩ | ⟨hm, hurl⟩)
    · refine ⟨0, { out with url := Ring.copyIn out.url 0 ((urlWord text).1 ++ [0]), method, version := some version }, ?_,
        .inr ⟨rfl, hmethod, version, rfl, hversion⟩⟩
      rw [parseRequestLine, getMethodSpec_spelt hmethod]
      dsimp only
      rw [getVersionSpec_spelt hversion]
    · refine ⟨Http.efatal, out, ?_, .inl ⟨by decide, rfl⟩⟩
      rw [parseRequestLine, hm, hurl]

/-- Behind a version there is no error any more. -/
theorem storeStatusCode_ok {wantsCode : Bool} {value : BitVec 32} {out out' : StatusOut} {ec : Int}
    (h : storeStatusCode wantsCode value out = .returned ec out') : ec = 0 := by
  unfold storeStatusCode at h
  split at h
  · cases h
  · split at h
    all_goals cases h
    all_goals rfl

theorem strictStatus_iff (wantsVersion wantsCode : Bool) (text : List UInt8) (out : StatusOut) :
    StrictStatus wantsVersion wantsCode text out ↔ FitsStatus text := by
  constructor
  · rintro ⟨ec, out', hparse, ⟨hneg, -⟩ | ⟨-, version, code, value, hversion, hcode, hspelt, -⟩⟩
    · right
      unfold parseStatusLine at hparse
      split at hparse
      · exact .inl ‹_›
      · split at hparse
        · exact .inr ‹_›
        · rw [storeStatusCode_ok hparse] at hneg
          exact absurd hneg (by decide)
    · exact .inl ⟨version, code, value, hversion, hcode, hspelt⟩
  · rintro (⟨version, code, value, hversion, hcode, hspelt⟩ | hnone | hnone)
    · obtain ⟨hne, hdigits, hscan, hzero⟩ := statusSpecs_digits _ hcode
      obtain ⟨rest, hnumber⟩ := scanDec_spelt hspelt hne hdigits
      have hvalue : statusCode text = some (value, rest) := by rw [statusCode, hnumber, hscan, Option.map_some]
      have hspec : getStatusCodeSpec value = some code := find?_of_mem statusSpecs_nodup hcode
      refine ⟨0, ⟨if wantsVersion then some version else out.version, if wantsCode then code else out.code⟩, ?_,
        .inr ⟨rfl, version, code, value, hversion, hcode, hspelt, fun h => if_pos h, fun h => if_pos h⟩⟩
      rw [parseStatusLine, hvalue]
      dsimp only
      rw [getStatusVersion_spelt hversion]
      dsimp only
      unfold storeStatusCode
      rw [if_neg hzero, hspec]
      cases wantsVersion <;> cases wantsCode <;> rfl
    · refine ⟨eargval, out, ?_, .inl ⟨by decide, rfl⟩⟩
      rw [parseStatusLine, hnone]
    · cases hcode : statusCode text with
      | none =>
          refine ⟨eargval, out, ?_, .inl ⟨by decide, rfl⟩⟩
          rw [parseStatusLine, hcode]
      | some r =>
          refine ⟨Http.efatal, out, ?_, .inl ⟨by decide, rfl⟩⟩
          rw [parseStatusLine, hcode]
          dsimp only
          rw [hnone]

/-- **Start lines** are parsed strictly where their values stand in the line as they are in the tables, and where the first
thing that goes wrong is one that is tested. -/
theorem strict_iff (text : List UInt8) (out : RequestOut) (wantsVersion wantsCode : Bool) (status : StatusOut) :
    (StrictRequest text out ↔ FitsRequest text out) ∧
      (StrictStatus wantsVersion wantsCode text status ↔ FitsStatus text) :=
  ⟨strictRequest_iff text out, strictStatus_iff wantsVersion wantsCode text status⟩

theorem not_strict_unknown : ¬ StrictRequest (ascii "GET / HTTP/9.9") ⟨.unknown, fun _ => 0, none⟩ ∧
    ¬ StrictStatus false true (ascii "HTTP/1.1 999 Odd") ⟨none, .unknown⟩ := by
  constructor
  · rintro ⟨ec, out', hparse, -⟩
    have hnull : parseRequestLine (ascii "GET / HTTP/9.9") ⟨.unknown, fun _ => 0, none⟩ = .nullRead := rfl
    rw [hnull] at hparse
    cases hparse
  · rintro ⟨ec, out', hparse, -⟩
    have hnull : parseStatusLine false true (ascii "HTTP/1.1 999 Odd") ⟨none, .unknown⟩ = .nullRead := rfl
    rw [hnull] at hparse
    cases hparse

/-- The words are those that the scanner stores, with `"%.*s %.*s %.*s"`. -/
theorem vsnscanf_request {m : Nat → UInt8} {text : List UInt8} (hs : StringAt m 0 (cstring text)) {size : BitVec 32}
    (hsize : (cstring text).length ≤ size.toNat) {a : Args} (hmethod : a.int 0 = 9)
    (hurl : a.int 2 = BitVec.ofNat 32 Http.maxLineLen) (hversion : a.int 4 = 9) {passes : Nat} (hp : (cstring text).length < passes) :
    ∃ r, vsnscanf passes m size (ascii "%.*s %.*s %.*s") a = some r ∧ r.matched = 3 ∧
      r.stored = [.bytes ((methodWord text).1 ++ [0]), .bytes ((urlWord text).1 ++ [0]), .bytes ((versionWord text).1 ++ [0])] :=
  @vsnscanf_words m (cstring text) a 9 Http.maxLineLen 9 hs size hsize (by rw [hmethod]; decide) (by rw [hurl]; decide)
    (by rw [hversion]; decide) passes hp

/-- `%d`, as it is on lists. -/
theorem scanDec_eq (s : List UInt8) : (scanDec s).map Prod.fst = scannedOf .d (s.dropWhile isspace) := by
  have hvalue (u : List UInt8) :
      ((scanDigits 10 u).map fun v => (v, u.dropWhile (digitVal · < 10))).map Prod.fst = scanDigits 10 u := by
    cases scanDigits 10 u <;> rfl
  rw [scanDec]
  cases s.dropWhile isspace with
  | nil => rfl
  | cons c rest =>
      have hsign := signOf_cons c rest
      have hnone : prefixOf .d (unsigned (c :: rest)) = none := by
        cases hpfx : prefixOf .d (unsigned (c :: rest)) with
        | none => rfl
        | some p => exact absurd (prefixOf_mem hpfx) List.not_mem_nil
      have hbase : baseOf .d (c :: rest) = 10 := by rw [baseOf, hnone]; rfl
      have hfigures : figures .d (c :: rest) = unsigned (c :: rest) := by rw [figures, unprefixed, hnone]; rfl
      dsimp only
      by_cases hplus : c = 43
      · rw [if_pos hplus] at hsign ⊢
        have hunsigned : unsigned (c :: rest) = rest := by rw [unsigned, hsign]; rfl
        rw [scannedOf_plus (by rw [hsign]; decide), hbase, hfigures, hunsigned, hvalue]
      rw [if_neg hplus] at hsign ⊢
      by_cases hminus : c = 45
      · rw [if_pos hminus] at hsign ⊢
        have hunsigned : unsigned (c :: rest) = rest := by rw [unsigned, hsign]; rfl
        rw [scannedOf_minus hsign, hbase, hfigures, hunsigned, ← hvalue rest]
        cases scanDigits 10 rest <;> rfl
      · rw [if_neg hminus] at hsign ⊢
        have hunsigned : unsigned (c :: rest) = c :: rest := by rw [unsigned, hsign]; rfl
        rw [scannedOf_plus (by rw [hsign]; decide), hbase, hfigures, hunsigned, hvalue]

/-- With `"%.*s %d %.*s"`, a status line gives three matches where there is a code. -/
theorem vsnscanf_status {m : Nat → UInt8} {text : List UInt8} (hs : StringAt m 0 (cstring text)) {size : BitVec 32}
    (hsize : (cstring text).length ≤ size.toNat) {a : Args} (hversion : a.int 0 = 15) (htext : a.int 3 = 63)
    {passes : Nat} (hp : (cstring text).length < passes) :
    ∃ r, vsnscanf passes m size (ascii "%.*s %d %.*s") a = some r ∧ (r.matched = 3 ↔ (statusCode text).isSome) ∧
      r.stored.take 2 =
        [.bytes ((statusVersion text).1 ++ [0]), ((statusCode text).map fun c => Stored.int 32 c.1).getD .nothing] := by
  have hcode : (statusCode text).map Prod.fst = scannedOf .d ((statusVersion text).2.dropWhile isspace) := by
    rw [statusCode, scanDec_eq, List.dropWhile_idempotent]
  obtain ⟨r, hrun, hmatched, hstored⟩ :=
    @vsnscanf_numbered m (cstring text) a 15 63 hs size hsize (by rw [hversion]; decide) (by rw [htext]; decide) passes hp
  rw [show scanStr 15 32 (cstring text) = statusVersion text from rfl, ← hcode] at hmatched hstored
  refine ⟨r, hrun, hmatched.trans ?_, hstored.trans ?_⟩
  · rw [Option.isSome_map]
  · rw [Option.map_map]
    rfl

/-- The method alone decides whether a request is served. -/
theorem parseRequestLine_none (text : List UInt8) (out : RequestOut) :
    Http.parseRequestLine text = none ↔ ∃ out', parseRequestLine text out = .returned Http.efatal out' := by
  have heq : Http.parseRequestLine text = (Http.getMethodSpec (methodWord text).1).map fun m => (m, (urlWord text).1) := rfl
  rw [heq, Option.map_eq_none_iff]
  unfold parseRequestLine
  constructor
  · intro h
    rw [h]
    exact ⟨_, rfl⟩
  · rintro ⟨out', h⟩
    split at h
    · rename_i hm
      exact hm
    · split at h
      · cases h
      · injection h with hec _
        exact absurd hec (by decide)

end StartLine

end YieldStm32
