import DocLocale.Proofs.Doc.FlagScan
import Mathlib.Data.List.Induction
import Mathlib.Data.List.TakeWhile

/-!
Flags as a function of the tags, without the scan. Main statement: unless a tag disables, the flags are the
defaults and behind them the tags that are kept, where each tag is judged by the tags in front of it; taking
the flags in as tags gives them back.
-/

set_option autoImplicit false
set_option relaxedAutoImplicit false

namespace DocLocale.Doc

/-- Whether a name is kept behind the names in front of it: a text unless it is the first, any other name if it
is new and no default. -/
def keeps (defaults before : List String) (name : String) : Bool :=
  if name = "text" then before.contains "text" else !before.contains name && !defaults.contains name

/-- The names that are kept, in order. -/
def kept (defaults names : List String) : List String :=
  (names.zipIdx.filter fun place => keeps defaults (names.take place.2) place.1).map (·.1)

/-- The positions of the names that are no known tags, in order, counted from `start`. -/
def strangersFrom (start : Nat) (names : List String) : List Nat :=
  ((names.zipIdx start).filter fun place => !isKnownTag place.1).map (·.2)

/-- The positions of the names that are no known tags, in order. -/
def strangers (names : List String) : List Nat := strangersFrom 0 names

section Kept

variable {defaults names : List String} {name : String}

private theorem keeps_of_single (single : name ≠ "text") :
    keeps defaults names name = true ↔ ¬ (name ∈ defaults ∨ name ∈ names) := by
  simp [keeps, single, and_comm]

theorem kept_concat (defaults names : List String) (name : String) :
    kept defaults (names ++ [name]) =
      kept defaults names ++ if keeps defaults names name then [name] else [] := by
  have front : names.zipIdx.filter (fun place => keeps defaults ((names ++ [name]).take place.2) place.1) =
      names.zipIdx.filter fun place => keeps defaults (names.take place.2) place.1 := by
    apply List.filter_congr
    rintro ⟨other, i⟩ member
    have bound : i < names.length := by
      simpa using List.snd_lt_of_mem_zipIdx member
    rw [List.take_append_of_le_length (Nat.le_of_lt bound)]
  rw [kept, List.zipIdx_append, List.filter_append, front, List.map_append, kept]
  congr 1
  simp only [List.zipIdx_cons, List.zipIdx_nil, Nat.zero_add, List.filter_cons, List.take_left', List.filter_nil]
  split <;> rfl

/-- A name other than a text is among the defaults and the kept names as soon as it was met. -/
private theorem mem_append_kept (single : name ≠ "text") :
    name ∈ defaults ++ kept defaults names ↔ name ∈ defaults ∨ name ∈ names := by
  induction names using List.reverseRecOn with
  | nil => simp [kept]
  | append_singleton names last ih =>
    rw [kept_concat, ← List.append_assoc, List.mem_append, ih, List.mem_append, List.mem_singleton]
    by_cases same : name = last
    · subst same
      split
      · simp
      · rename_i dropped
        have known : name ∈ defaults ∨ name ∈ names := not_not.mp (mt (keeps_of_single single).mpr dropped)
        simp [known]
    · have other : name ∉ (if keeps defaults names last = true then [last] else []) := by
        split <;> simp [same]
      simp [other, same]

/-- Taking in one more tag keeps it if it is to be kept. -/
private theorem absorb_kept (texts : defaults.count "text" = 1) (names : List String) (word : String) :
    absorb defaults (defaults ++ kept defaults names, names.reverse) word =
      (defaults ++ kept defaults (names ++ [canonicalName word]), (names ++ [canonicalName word]).reverse) := by
  rw [kept_concat, absorb, List.reverse_append, List.reverse_singleton, List.singleton_append]
  generalize canonicalName word = name
  dsimp only
  congr 1
  by_cases text : name = "text"
  · subst text
    have repeatable : isRepeatable "text" = true := rfl
    have first : (names.reverse.count "text" < defaults.count "text") ↔ "text" ∉ names := by
      rw [texts, List.count_reverse, Nat.lt_one_iff, List.count_eq_zero]
    by_cases met : "text" ∈ names
    · have later : ¬ names.reverse.count "text" < defaults.count "text" := mt first.mp (not_not_intro met)
      simp only [repeatable, later, keeps, met, Flags.push, decide_false, Bool.and_false, Bool.false_eq_true,
        if_false, if_true, Bool.true_or, List.contains_eq_mem, decide_true, List.append_assoc]
    · simp only [repeatable, first.mpr met, keeps, met, decide_true, Bool.and_true, if_true,
        List.contains_eq_mem, decide_false, Bool.false_eq_true, if_false, List.append_nil]
  · have once : isRepeatable name = false :=
      Bool.eq_false_iff.mpr fun repeatable => text (isRepeatable_iff.mp repeatable)
    have present : name ∈ defaults ++ kept defaults names ↔ name ∈ defaults ∨ name ∈ names :=
      mem_append_kept text
    have new : keeps defaults names name = true ↔ ¬ (name ∈ defaults ∨ name ∈ names) := keeps_of_single text
    by_cases known : name ∈ defaults ∨ name ∈ names
    · have dropped : keeps defaults names name = false := Bool.eq_false_iff.mpr fun kept => new.mp kept known
      simp [once, Flags.push, present.mpr known, dropped]
    · simp [once, Flags.push, mt present.mp known, new.mpr known]

private theorem foldl_absorb_kept (texts : defaults.count "text" = 1) (words : List String) :
    words.foldl (absorb defaults) (defaults, []) =
      (defaults ++ kept defaults (words.map canonicalName), (words.map canonicalName).reverse) := by
  induction words using List.reverseRecOn with
  | nil => simp [kept]
  | append_singleton words word ih =>
    rw [List.foldl_append, ih, List.foldl_cons, List.foldl_nil, absorb_kept texts, List.map_append,
      List.map_singleton]

end Kept

private theorem strangersFrom_cons (start : Nat) (name : String) (names : List String) :
    strangersFrom start (name :: names) =
      (if isKnownTag name then [] else [start]) ++ strangersFrom (start + 1) names := by
  rw [strangersFrom, List.zipIdx_cons, List.filter_cons]
  cases isKnownTag name <;> rfl

/-- The positions of unknown tags are collected up to the first tag that disables. -/
private theorem scanTags_unknown (defaults : List String) (index : Nat) (names : List String)
    (unknown : List Nat) (met words : List String) :
    (scanTags defaults index names unknown met words).unknown =
      unknown ++ strangersFrom index ((words.map canonicalName).takeWhile (· ≠ disableTag)) := by
  induction words generalizing index names unknown met with
  | nil => simp [scanTags, strangersFrom]
  | cons word words ih =>
    rw [List.map_cons]
    by_cases disabling : canonicalName word = disableTag
    · simp [scanTags, disabling, strangersFrom]
    · have reported : (if isKnownTag (canonicalName word) then unknown else unknown ++ [index]) =
          unknown ++ if isKnownTag (canonicalName word) then [] else [index] := by
        split <;> simp
      rw [List.takeWhile_cons_of_pos (by simpa using disabling), strangersFrom_cons, ← List.append_assoc,
        ← reported]
      simp only [scanTags, disabling, if_false]
      split
      · exact ih _ _ _ _
      · exact ih _ _ _ _

private theorem canonicalName_eq_disableTag {word : String} :
    canonicalName word = disableTag ↔ word = "disable" := by
  rw [canonicalName_eq]
  split
  · rename_i param
    simp [param, disableTag]
  · rfl

/-- The flags and the unknown tags, read off the tags. -/
theorem buildFlags_eq (kind : Kind) (tags : List String) :
    buildFlags kind tags =
      if "disable" ∈ tags then
        ⟨Flags.disabled, strangers ((tags.map canonicalName).takeWhile (· ≠ disableTag))⟩
      else
        ⟨⟨true, defaultFlags kind ++ kept (defaultFlags kind) (tags.map canonicalName)⟩,
          strangers (tags.map canonicalName)⟩ := by
  have flags := buildFlags_flags kind tags
  have unknown : (buildFlags kind tags).unknown = [] ++ strangersFrom 0 _ := scanTags_unknown _ 0 _ [] [] tags
  rw [foldl_absorb_kept (count_text_defaultFlags kind)] at flags
  have outcome : buildFlags kind tags = ⟨(buildFlags kind tags).flags, (buildFlags kind tags).unknown⟩ := rfl
  rw [outcome, flags, unknown, List.nil_append]
  by_cases disabling : "disable" ∈ tags
  · have found : ∃ tag ∈ tags, canonicalName tag = disableTag := ⟨_, disabling, rfl⟩
    rw [if_pos found, if_pos disabling, strangers]
  · have enabling : ∀ tag ∈ tags, canonicalName tag ≠ disableTag := by
      intro tag member same
      exact disabling (canonicalName_eq_disableTag.mp same ▸ member)
    have all : (tags.map canonicalName).takeWhile (· ≠ disableTag) = tags.map canonicalName := by
      rw [List.takeWhile_eq_self_iff]
      simpa using enabling
    rw [if_neg (by simpa using enabling), if_neg disabling, all, strangers]

/-- Names that stand behind the defaults as flags do are all kept. -/
private theorem kept_regular (kind : Kind) {extras : List String}
    (regular : Regular (defaultFlags kind ++ extras)) :
    kept (defaultFlags kind) (defaultFlags kind ++ extras) = extras := by
  induction extras using List.reverseRecOn with
  | nil => cases kind <;> decide
  | append_singleton extras name ih =>
    rw [← List.append_assoc] at regular ⊢
    have initial : Regular (defaultFlags kind ++ extras) := by
      refine ⟨?_, fun other member => regular.canonical other (List.mem_append_left _ member)⟩
      exact regular.nodup.sublist ((List.sublist_append_left _ _).filter _)
    have last : keeps (defaultFlags kind) (defaultFlags kind ++ extras) name = true := by
      by_cases text : name = "text"
      · have default : "text" ∈ defaultFlags kind := by
          rw [← List.count_pos_iff, count_text_defaultFlags]
          exact Nat.one_pos
        simp [keeps, text, default]
      · rw [keeps_of_single text]
        have nodup := regular.nodup
        rw [List.filter_append, List.nodup_append'] at nodup
        intro old
        have front : name ∈ defaultFlags kind ++ extras := by
          rcases old with default | met
          · exact List.mem_append_left _ default
          · exact met
        exact nodup.2.2 (List.mem_filter.mpr ⟨front, by simpa using text⟩) (by simp [text])
    rw [kept_concat, ih initial, if_pos last]

/-- Taking enabled flags in as tags gives them back. -/
theorem buildFlags_flags_again {kind : Kind} {tags : List String}
    (enabled : (buildFlags kind tags).flags.enabled = true) :
    (buildFlags kind (buildFlags kind tags).flags.names).flags = (buildFlags kind tags).flags := by
  obtain ⟨extras, names, regular, -⟩ := enabled_flags enabled
  have same : (buildFlags kind tags).flags = ⟨true, defaultFlags kind ++ extras⟩ := by
    rw [← names, ← enabled]
  have canonical : (defaultFlags kind ++ extras).map canonicalName = defaultFlags kind ++ extras :=
    (List.map_congr_left fun name member => (regular.canonical name member).1).trans (List.map_id' _)
  have enabling : "disable" ∉ defaultFlags kind ++ extras := fun member =>
    (regular.canonical "disable" member).2 rfl
  rw [same, buildFlags_eq, if_neg enabling, canonical, kept_regular kind regular]

/-- The flags in closed form. A tag `param` counts as `params`. If some tag is `disable`, documentation is off and
only the unknown tags in front of the first one are reported. Otherwise the flags are the defaults of the kind, then
every text but the first and every other name where it first occurs, unless it is a default; all unknown tags are
reported. Enabled flags, taken in as tags, give themselves back. -/
theorem buildFlags_closed_form (kind : Kind) (tags : List String) :
    let names := tags.map fun tag => if tag = "param" then "params" else tag
    ("disable" ∈ tags →
      buildFlags kind tags = ⟨⟨false, []⟩, strangers (names.takeWhile (· ≠ "disable"))⟩) ∧
    ("disable" ∉ tags →
      buildFlags kind tags =
        ⟨⟨true, defaultFlags kind ++ kept (defaultFlags kind) names⟩, strangers names⟩) ∧
    ((buildFlags kind tags).flags.enabled = true →
      (buildFlags kind (buildFlags kind tags).flags.names).flags = (buildFlags kind tags).flags) := by
  have read : (fun tag => if tag = "param" then "params" else tag) = canonicalName :=
    funext fun tag => (canonicalName_eq tag).symm
  rw [read]
  intro names
  refine ⟨fun disabling => ?_, fun enabling => ?_, buildFlags_flags_again⟩
  · rw [buildFlags_eq, if_pos disabling]
    rfl
  · rw [buildFlags_eq, if_neg enabling]

/-- A method with a repeated unknown tag, further texts and defaults among its tags, and a variable whose second tag
disables. -/
theorem buildFlags_closed_form_mixed :
    buildFlags .method ["since", "param", "text", "returns", "text", "since", "deprecated", "text"] =
        ⟨⟨true, ["text", "params", "returns", "since", "text", "deprecated", "text"]⟩, [0, 5]⟩ ∧
      buildFlags .var ["since", "disable", "until"] = ⟨⟨false, []⟩, [0]⟩ ∧
      (buildFlags .method ["text", "params", "returns", "since", "text", "deprecated", "text"]).flags =
        ⟨true, ["text", "params", "returns", "since", "text", "deprecated", "text"]⟩ := by
  refine ⟨?_, ?_, ?_⟩
  · exact ((buildFlags_closed_form .method _).2.1 (by decide)).trans (by decide)
  · exact ((buildFlags_closed_form .var _).1 (by decide)).trans (by decide)
  · exact (buildFlags_closed_form .method ["since", "param", "text", "text", "deprecated", "text"]).2.2 rfl

end DocLocale.Doc
