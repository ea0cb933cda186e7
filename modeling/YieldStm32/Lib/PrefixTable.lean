import Mathlib.Data.List.Basic

/-!
# Tables that are searched for what a word starts with

* `starting` : the first entry whose key the word starts with;
* `Separate` : entries of one name have one key, and no key goes on from a key of another name;
* `Exactly` : what is found is the name whose key the word is;
* `exactly_iff` : that is so for the words that go on from no key.
-/

namespace PrefixTable

variable {α β γ : Type*} [DecidableEq β] (key : α → List β) (name : α → γ) (table : List α)

/-- The first entry whose key the word starts with. -/
def starting (word : List β) : Option α := table.find? fun a => key a <+: word

/-- Names and keys belong together, and a word starts with the keys of one name only, if the name's key is all of the word. -/
structure Separate : Prop where
  key_of_name : ∀ a ∈ table, ∀ b ∈ table, name a = name b → key a = key b
  name_of_prefix : ∀ a ∈ table, ∀ b ∈ table, key a <+: key b → name a = name b

/-- `found` is the name whose key the word is, if there is one. -/
structure Exactly (word : List β) (found : Option γ) : Prop where
  name_iff : ∀ a ∈ table, found = some (name a) ↔ key a = word
  none_iff : found = none ↔ ∀ a ∈ table, key a ≠ word

variable {key name table} {word : List β}

theorem starting_some {a : α} (h : starting key table word = some a) : a ∈ table ∧ key a <+: word :=
  ⟨List.mem_of_find?_eq_some h, by simpa using List.find?_some h⟩

theorem starting_isSome {a : α} (ha : a ∈ table) (h : key a <+: word) : ∃ b, starting key table word = some b :=
  Option.isSome_iff_exists.1 (List.find?_isSome.2 ⟨a, ha, by simpa using h⟩)

/-- A key is found as what it is. -/
theorem starting_key (hs : Separate key name table) {a : α} (ha : a ∈ table) :
    (starting key table (key a)).map name = some (name a) := by
  obtain ⟨b, hb⟩ := starting_isSome ha (List.prefix_refl (key a))
  obtain ⟨hmem, hpre⟩ := starting_some hb
  rw [hb, Option.map_some, hs.name_of_prefix b hmem a ha hpre]

/-- **Searching for a prefix** is exact for the words that go on from no key. -/
theorem exactly_iff (hs : Separate key name table) :
    Exactly key name table word ((starting key table word).map name) ↔ ∀ a ∈ table, key a <+: word → key a = word := by
  constructor
  · intro h a ha hpre
    obtain ⟨b, hb⟩ := starting_isSome ha hpre
    obtain ⟨hmem, -⟩ := starting_some hb
    have hkey : key b = word := (h.name_iff b hmem).1 (by rw [hb, Option.map_some])
    rw [hs.key_of_name a ha b hmem (hs.name_of_prefix a ha b hmem (hkey ▸ hpre)), hkey]
  · intro h
    constructor
    · intro a ha
      constructor
      · intro hfound
        obtain ⟨b, hb, hname⟩ := Option.map_eq_some_iff.1 hfound
        obtain ⟨hmem, hpre⟩ := starting_some hb
        rw [hs.key_of_name a ha b hmem hname.symm, h b hmem hpre]
      · rintro rfl
        exact starting_key hs ha
    · rw [Option.map_eq_none_iff]
      constructor
      · rintro hnone a ha rfl
        obtain ⟨b, hb⟩ := starting_isSome ha (List.prefix_refl (key a))
        simp [hb] at hnone
      · intro hne
        cases hstart : starting key table word with
        | none => rfl
        | some b =>
            obtain ⟨hmem, hpre⟩ := starting_some hstart
            exact absurd (h b hmem hpre) (hne b hmem)

end PrefixTable
