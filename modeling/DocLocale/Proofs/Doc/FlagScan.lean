import DocLocale.Doc.Flags
import Mathlib.Data.List.Nodup

/-!
How the tags of a comment are taken into flags, one at a time. Flags that come out enabled are the
defaults of the kind with further names behind them, of which only the repeatable one occurs twice.
-/

set_option autoImplicit false
set_option relaxedAutoImplicit false

namespace DocLocale.Doc

theorem Tag.ofName?_name (tag : Tag) : Tag.ofName? tag.name = some tag := by
  cases tag <;> decide

theorem Tag.ofName?_eq_some_iff {name : String} {tag : Tag} :
    Tag.ofName? name = some tag ↔ tag.name = name := by
  constructor
  · intro found
    simpa using List.find?_some found
  · rintro rfl
    exact ofName?_name tag

theorem canonicalName_eq (word : String) :
    canonicalName word = if word = "param" then "params" else word := by
  unfold canonicalName Tag.ofSourceName?
  by_cases param : word = "param"
  · simp [param, Tag.name]
  · simp only [param, if_false]
    split
    · rename_i tag found
      exact Tag.ofName?_eq_some_iff.mp found
    · rfl

theorem isRepeatable_iff {name : String} : isRepeatable name = true ↔ name = "text" := by
  unfold isRepeatable
  constructor
  · intro repeatable
    obtain ⟨tag, found, kept⟩ := (Option.any_eq_true _ _).mp repeatable
    rw [← Tag.ofName?_eq_some_iff.mp found]
    cases tag with
    | text => rfl
    | deprecated | sample | params | returns => cases kept
  · rintro rfl
    rfl

/-- The names gathered so far, and the names met so far. -/
abbrev Gathered := List String × List String

/-- Takes in one tag that does not disable. -/
def absorb (defaults : List String) (g : Gathered) (word : String) : Gathered :=
  let name := canonicalName word
  (if isRepeatable name && g.2.count name < defaults.count name then g.1 else Flags.push g.1 name,
    name :: g.2)

theorem scanTags_flags (defaults : List String) (index : Nat) (names : List String)
    (unknown : List Nat) (met words : List String) :
    (scanTags defaults index names unknown met words).flags =
      if ∃ word ∈ words, canonicalName word = disableTag then Flags.disabled
      else ⟨true, (words.foldl (absorb defaults) (names, met)).1⟩ := by
  induction words generalizing index names unknown met with
  | nil => simp [scanTags]
  | cons word words ih =>
    by_cases disabling : canonicalName word = disableTag
    · simp [scanTags, disabling]
    · by_cases first : (isRepeatable (canonicalName word) &&
          met.count (canonicalName word) < defaults.count (canonicalName word)) = true
      · simp only [scanTags, disabling, if_false, first, if_true, ih, List.mem_cons, exists_eq_or_imp,
          false_or, List.foldl_cons, absorb]
      · simp only [scanTags, disabling, if_false, first, Bool.false_eq_true, ih, List.mem_cons,
          exists_eq_or_imp, false_or, List.foldl_cons, absorb]

/-- Taking tags in ends in disabled flags if one of them disables, and else in the names gathered. -/
theorem buildFlags_flags (kind : Kind) (tags : List String) :
    (buildFlags kind tags).flags =
      if ∃ tag ∈ tags, canonicalName tag = disableTag then Flags.disabled
      else ⟨true, (tags.foldl (absorb (defaultFlags kind)) (defaultFlags kind, [])).1⟩ :=
  scanTags_flags _ _ _ _ _ _

/-- Names of which only the repeatable one occurs more than once, each as it is gathered. -/
structure Regular (names : List String) : Prop where
  nodup : (names.filter (· ≠ "text")).Nodup
  canonical : ∀ name ∈ names, canonicalName name = name ∧ name ≠ disableTag

theorem canonicalName_canonicalName (word : String) :
    canonicalName (canonicalName word) = canonicalName word := by
  rw [canonicalName_eq word]
  by_cases param : word = "param"
  · rw [if_pos param]
    rfl
  · rw [if_neg param, canonicalName_eq, if_neg param]

private theorem Regular.push {names : List String} (regular : Regular names) {word : String}
    (enabling : canonicalName word ≠ disableTag) :
    Regular (Flags.push names (canonicalName word)) := by
  unfold Flags.push
  split
  · rename_i added
    refine ⟨?_, ?_⟩
    · by_cases text : canonicalName word = "text"
      · simpa [text] using regular.nodup
      · have new : canonicalName word ∉ names := by
          have single := mt isRepeatable_iff.mp text
          simpa [single] using added
        rw [List.filter_append, List.nodup_append']
        refine ⟨regular.nodup, (List.nodup_singleton _).filter _, ?_⟩
        intro name old same
        simp only [List.mem_filter, List.mem_singleton] at old same
        exact new (same.1 ▸ old.1)
    · intro name member
      rcases List.mem_append.mp member with old | last
      · exact regular.canonical name old
      · rw [List.mem_singleton.mp last]
        exact ⟨canonicalName_canonicalName word, enabling⟩
  · exact regular

private theorem Regular.absorb {defaults : List String} {g : Gathered} (regular : Regular g.1)
    {word : String} (enabling : canonicalName word ≠ disableTag) :
    Regular (absorb defaults g word).1 := by
  unfold Doc.absorb
  dsimp only
  split
  · exact regular
  · exact regular.push enabling

private theorem Regular.foldl {defaults : List String} {g : Gathered} (regular : Regular g.1)
    {words : List String} (enabling : ∀ word ∈ words, canonicalName word ≠ disableTag) :
    Regular (words.foldl (Doc.absorb defaults) g).1 := by
  induction words generalizing g with
  | nil => exact regular
  | cons word words ih =>
    exact ih (regular.absorb (enabling word List.mem_cons_self))
      fun other member => enabling other (List.mem_cons_of_mem _ member)

theorem regular_defaultFlags (kind : Kind) : Regular (defaultFlags kind) := by
  constructor
  · cases kind <;> decide
  · cases kind <;> decide

theorem count_text_defaultFlags (kind : Kind) : (defaultFlags kind).count "text" = 1 := by
  cases kind <;> rfl

private theorem absorb_extends (defaults : List String) (g : Gathered) (word : String) :
    ∃ more, (absorb defaults g word).1 = g.1 ++ more ∧ ∀ name ∈ more, name = canonicalName word := by
  unfold absorb Flags.push
  dsimp only
  split
  · exact ⟨[], by simp⟩
  · split
    · exact ⟨[canonicalName word], by simp⟩
    · exact ⟨[], by simp⟩

private theorem foldl_absorb_extends (defaults : List String) (g : Gathered) (words : List String) :
    ∃ more, (words.foldl (absorb defaults) g).1 = g.1 ++ more ∧
      ∀ name ∈ more, ∃ word ∈ words, name = canonicalName word := by
  induction words generalizing g with
  | nil => exact ⟨[], by simp⟩
  | cons word words ih =>
    obtain ⟨one, first, from_word⟩ := absorb_extends defaults g word
    obtain ⟨more, rest, from_words⟩ := ih (absorb defaults g word)
    refine ⟨one ++ more, by rw [List.foldl_cons, rest, first, List.append_assoc], ?_⟩
    intro name member
    rcases List.mem_append.mp member with here | later
    · exact ⟨word, List.mem_cons_self, from_word name here⟩
    · obtain ⟨other, found, same⟩ := from_words name later
      exact ⟨other, List.mem_cons_of_mem _ found, same⟩

/-- Enabled flags are the defaults of the kind and names of tags behind them. -/
theorem enabled_flags {kind : Kind} {tags : List String}
    (enabled : (buildFlags kind tags).flags.enabled = true) :
    ∃ extras, (buildFlags kind tags).flags.names = defaultFlags kind ++ extras ∧
      Regular (defaultFlags kind ++ extras) ∧
      ∀ name ∈ extras, ∃ tag ∈ tags, name = canonicalName tag := by
  rw [buildFlags_flags] at enabled ⊢
  split at enabled
  · cases enabled
  · rename_i enabling
    have none : ∀ tag ∈ tags, canonicalName tag ≠ disableTag := by
      simpa using enabling
    rw [if_neg enabling]
    obtain ⟨extras, names, origin⟩ :=
      foldl_absorb_extends (defaultFlags kind) (defaultFlags kind, []) tags
    have start : Regular ((defaultFlags kind, ([] : List String)).1) := regular_defaultFlags kind
    exact ⟨extras, names, names ▸ start.foldl none, origin⟩

end DocLocale.Doc
