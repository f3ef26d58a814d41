import DocLocale.Config
import DocLocale.Proofs.Key.Ambiguity
import DocLocale.Proofs.Text.Columns
import DocLocale.Proofs.Translation.RecordLines

/-!
The words that tags make at the front of comment lines. Main statement: at every width that a configuration may
ask for, the first line of a record shows its whole tag, but for the longest tag at the narrowest width, which has
one column more.
-/

set_option autoImplicit false
set_option relaxedAutoImplicit false

namespace DocLocale

open Source (IsTagName Spaced)
open Text (isBlank isVisible)

namespace Translation

open Text

section Broken

variable {limit : Nat} {word rest : List Char}

private theorem not_isBlank_of_isVisible {c : Char} (visible : isVisible c = true) : isBlank c = false := by
  simp only [isVisible, Bool.and_eq_true, decide_eq_true_eq] at visible
  simp only [isBlank, Bool.or_eq_false_iff, Bool.and_eq_false_iff, decide_eq_false_iff_not, beq_eq_false_iff_ne]
  omega

private theorem summedWidth_visible (visible : ∀ c ∈ word, isVisible c = true) :
    summedWidth word = word.length := by
  induction word with
  | nil => rfl
  | cons c word ih =>
    rw [summedWidth, charWidth_of_isVisible (visible c List.mem_cons_self),
      ih fun d member => visible d (List.mem_cons_of_mem _ member), List.length_cons, Nat.add_comm]

/-- Visible characters fill the columns that are left one by one. -/
private theorem fitFrom_visible {used room : Nat} (visible : ∀ c ∈ word, isVisible c = true)
    (all : used + room = limit) (wider : room < word.length) : fitFrom limit used (word ++ rest) = room := by
  induction word generalizing used room with
  | nil => cases wider
  | cons c word ih =>
    rw [List.cons_append, fitFrom, charWidth_of_isVisible (visible c List.mem_cons_self)]
    cases room with
    | zero => rw [if_pos (by omega)]
    | succ room =>
      have later : fitFrom limit (used + 1) (word ++ rest) = room :=
        ih (fun d member => visible d (List.mem_cons_of_mem _ member)) (by omega) (Nat.lt_of_succ_lt_succ wider)
      rw [if_neg (by omega), later]

/-- A word of visible characters that is wider than the limit is cut right there. -/
private theorem cut_visible (visible : ∀ c ∈ word, isVisible c = true) (room : 0 < limit)
    (wider : limit < word.length) : (cut limit (word ++ rest)).1 = word.take limit := by
  have spaceless : ' ' ∉ word := fun space => absurd (visible ' ' space) (by decide)
  have fits : fit limit (word ++ rest) = limit := by
    rw [fit, fitFrom_visible visible (Nat.zero_add limit) wider]
    exact Nat.max_eq_right room
  have taken : (word ++ rest).take (fit limit (word ++ rest)) = word.take limit := by
    rw [fits, List.take_append_of_le_length (Nat.le_of_lt wider)]
  rcases cut_cases limit (word ++ rest) with ⟨head, tail, halves, line, same⟩ |
    ⟨before, after, behind, halves, line, same, -⟩ | ⟨head, behind, halves, -, same, -⟩
  · rw [halves, ← taken, same]
  · -- A space within what fits would stand in the word.
    have space : ' ' ∈ word.take limit := by
      rw [← taken, same]
      simp
    exact absurd (List.mem_of_mem_take space) spaceless
  · rw [halves, ← taken, same]

/-- The first piece of a line takes as much of its first word as the limit allows, and goes on behind the word only if
that is all of it. -/
theorem wrap_first_word (visible : ∀ c ∈ word, isVisible c = true) (nonempty : word ≠ []) (room : 0 < limit)
    (spaced : Spaced rest) {line : String} (whole : line.toList = word ++ rest) (lines : List String) :
    ∃ more later, wrap limit (line :: lines) = String.ofList (word.take limit ++ more) :: later ∧ Spaced more ∧
      (limit < word.length → more = []) := by
  have inked : ∀ c ∈ word, isBlank c = false := fun c member => not_isBlank_of_isVisible (visible c member)
  have behind : Spaced (trimEnd rest) := spaced.of_initial (trimEnd_initial rest)
  have first : ∀ {piece others}, wrapLine limit (word ++ trimEnd rest) = piece :: others →
      ∃ later, wrap limit (line :: lines) = String.ofList piece :: later := by
    intro piece others pieces
    refine ⟨others.map String.ofList ++ wrap limit lines, ?_⟩
    rw [wrap, List.flatMap_cons, whole, trim_append nonempty inked, pieces]
    rfl
  by_cases wider : limit < word.length
  · have wide : limit < width (word ++ trimEnd rest) := Nat.lt_of_lt_of_le wider (length_le_width visible behind)
    have ends : trimEnd (word.take limit) = word.take limit := by
      have taken : ∀ c ∈ word.take limit, isBlank c = false := fun c member => inked c (List.mem_of_mem_take member)
      simpa [trimEnd] using trimEnd_append taken []
    have pieces : wrapLine limit (word ++ trimEnd rest) =
        word.take limit :: wrapLine limit (trim (cut limit (word ++ trimEnd rest)).2) := by
      rw [wrapLine, if_pos wide, cut_visible visible room wider, ends]
    obtain ⟨later, laid⟩ := first pieces
    exact ⟨[], later, by rw [laid, List.append_nil], .inl rfl, fun _ => rfl⟩
  · have fits : word.length ≤ limit := Nat.le_of_not_lt wider
    have held : word.length ≤ fit limit (word ++ trimEnd rest) :=
      length_le_fit _ (by rwa [summedWidth_visible visible])
    obtain ⟨more, others, pieces, front, -⟩ := wrapLine_word nonempty inked held
    obtain ⟨later, laid⟩ := first pieces
    exact ⟨more, later, by rw [laid, List.take_of_length_le fits], behind.of_initial front,
      fun long => absurd long wider⟩

end Broken

end Translation

namespace Doc

/-- The word for a tag in comments; parameters come one by one there. -/
def Tag.word : Tag → String
  | params => "param"
  | tag => tag.name

theorem Tag.canonicalName_word (tag : Tag) : canonicalName tag.word = tag.name := by
  cases tag <;> decide

theorem Tag.isTagName_word (tag : Tag) : IsTagName tag.word := by
  cases tag <;> decide

private theorem Tag.isVisible_word (tag : Tag) : ∀ c ∈ '@' :: tag.word.toList, isVisible c = true := by
  have all : ('@' :: tag.word.toList).all isVisible = true := by cases tag <;> rfl
  exact List.all_eq_true.mp all

/-- A record of a tag is led by the word of the tag, if by anything. -/
theorem lead_of_mem_given {t : Tree} {languages : List String} {o : Occurrence} {r : Record} {tag : Tag}
    (builtIn : Tag.ofName? o.name = some tag) (member : r ∈ o.given t languages) (led : r.lead ≠ "") :
    ∃ tail, r.lead.toList = '@' :: tag.word.toList ++ tail ∧ Spaced tail := by
  have bare : ∀ lead, lead = "@" ++ tag.word →
      ∃ tail, lead.toList = '@' :: tag.word.toList ++ tail ∧ Spaced tail := by
    rintro _ rfl
    exact ⟨[], by rw [String.toList_append, List.append_nil]; rfl, .inl rfl⟩
  unfold Occurrence.given Occurrence.records at member
  rw [builtIn] at member
  cases tag with
  | deprecated =>
    rw [List.mem_singleton.mp member]
    exact bare _ rfl
  | text =>
    rw [List.mem_singleton.mp member] at led ⊢
    dsimp only at led ⊢
    split at led
    · rename_i several
      rw [if_pos several]
      exact bare _ rfl
    · exact absurd rfl led
  | sample =>
    obtain ⟨l, -, rfl⟩ := List.mem_map.mp member
    exact bare _ rfl
  | params =>
    cases signature : o.node.body.signature? with
    | none => simp [signature] at member
    | some s =>
      simp only [signature] at member
      obtain ⟨p, -, rfl⟩ := List.mem_map.mp member
      exact ⟨' ' :: (t.name p).toList, by rw [String.toList_append]; rfl, .inr ⟨_, rfl⟩⟩
  | returns =>
    by_cases functionLike : o.node.kind.isFunctionLike = true
    · simp only [functionLike, if_true] at member
      rw [List.mem_singleton.mp member]
      exact bare _ rfl
    · simp [functionLike] at member

/-- Only the longest word does not fit into the narrowest comments. -/
private theorem Tag.length_word_le {tag : Tag} {width : Nat} (wide : Config.minCommentWidth ≤ width)
    (sound : ¬ (tag = .deprecated ∧ width = Config.minCommentWidth)) : ('@' :: tag.word.toList).length ≤ width := by
  have lengths : tag = .deprecated ∨ ('@' :: tag.word.toList).length ≤ Config.minCommentWidth := by
    cases tag <;> decide
  rcases lengths with rfl | short
  · have longest : ('@' :: Tag.deprecated.word.toList).length = Config.minCommentWidth + 1 := rfl
    have wider : width ≠ Config.minCommentWidth := fun narrow => sound ⟨rfl, narrow⟩
    omega
  · exact Nat.le_trans short wide

end Doc

/-- A line of a comment that starts with a tag shows it. -/
private theorem lineName?_tag (indent : Nat) {w : String} (tag : IsTagName w) {rest : List Char} (spaced : Spaced rest) :
    Source.lineName? (Source.laidOut indent ('@' :: w.toList ++ rest)) = some w :=
  (Source.lineName?_laidOut indent rfl).trans (Source.headTag?_append tag spaced)

/-- The lines of a record start with its lead, and with a space if anything follows. -/
theorem Translator.rawLines_led (tr : Translator) {r : Doc.Record} (led : r.lead ≠ "") :
    ∃ first rest more, tr.rawLines r = first :: rest ∧ first.toList = r.lead.toList ++ more ∧ Spaced more := by
  have some : r.lead.isEmpty = false := by simpa using led
  unfold rawLines
  cases tr.translate r.key with
  | text s =>
    obtain ⟨part, parts, split⟩ := List.exists_cons_of_ne_nil (Text.splitAt_ne_nil '\n' s.toList)
    refine ⟨r.lead ++ " " ++ String.ofList part, parts.map String.ofList, ' ' :: part, ?_, ?_, .inr ⟨_, rfl⟩⟩
    · simp [split, withLead, some]
    · simp [String.toList_append]
  | lines ls => exact ⟨r.lead, ls, [], by simp [some], (List.append_nil _).symm, .inl rfl⟩

/-- The first line of a record of a tag takes as much of the word of the tag as a width allows, and goes on behind
it only if that is all of it. -/
theorem Translator.recordLines_first_word {t : Tree} {languages : List String} {o : Doc.Occurrence} {r : Doc.Record}
    {tag : Doc.Tag} (builtIn : Doc.Tag.ofName? o.name = some tag) (given : r ∈ o.given t languages)
    (led : r.lead ≠ "") (m : KeyMap) {width : Nat} (room : 0 < width) :
    ∃ more later, (Translator.ofLanguage m "en_us" width).recordLines r =
        String.ofList (('@' :: tag.word.toList).take width ++ more) :: later ∧ Spaced more ∧
      (width < ('@' :: tag.word.toList).length → more = []) := by
  obtain ⟨tail, lead, spaced⟩ := Doc.lead_of_mem_given builtIn given led
  obtain ⟨line, lines, more, raw, chars, behind⟩ := rawLines_led (Translator.ofLanguage m "en_us" width) led
  have whole : line.toList = '@' :: tag.word.toList ++ (tail ++ more) := by rw [chars, lead, List.append_assoc]
  have between : Spaced (tail ++ more) := by
    rcases spaced with rfl | ⟨others, rfl⟩
    · exact behind
    · exact .inr ⟨_, rfl⟩
  have wrapped : (Translator.ofLanguage m "en_us" width).recordLines r = Translation.wrap width (line :: lines) := by
    rw [recordLines, raw]
    rfl
  rw [wrapped]
  exact Translation.wrap_first_word tag.isVisible_word (List.cons_ne_nil _ _) room between whole lines

theorem Config.minCommentWidth_le {c : Config} (valid : c.invalid? = none) :
    Config.minCommentWidth ≤ c.commentMaxWidth := by
  unfold invalid? at valid
  split at valid
  · cases valid
  · split at valid
    · cases valid
    · split at valid
      · cases valid
      · rename_i wide
        exact Nat.le_of_not_lt wide

/-- The first line of a record of a tag starts with the whole word of the tag, and read in a comment gives the flag
back, but for `deprecated` in the narrowest comments that a configuration may ask for: its word loses the last
letter and reads as another tag. -/
theorem Translator.recordLines_tag_word {c : Config} (valid : c.invalid? = none) (m : KeyMap) (t : Tree)
    (languages : List String) {id : NodeId} {x : Doc.Site} (member : x ∈ Doc.sitesOf t languages id) {tag : Doc.Tag}
    (builtIn : Doc.Tag.ofName? x.flag.name = some tag) (led : x.record.lead ≠ "") :
    let broken := tag = .deprecated ∧ c.commentMaxWidth = Config.minCommentWidth
    ∃ first rest, (Translator.ofLanguage m "en_us" c.commentMaxWidth).recordLines x.record = first :: rest ∧
      ((∃ tail, first.toList = '@' :: tag.word.toList ++ tail ∧ Spaced tail) ↔ ¬ broken) ∧
      (broken → first = "@deprecate") ∧
      ∀ indent, (Source.lineName? (Source.laidOut indent first.toList)).map Doc.canonicalName =
        some (if broken then "deprecate" else x.flag.name) := by
  intro broken
  obtain ⟨o, -, site⟩ := List.mem_flatMap.mp member
  obtain ⟨r, given, rfl⟩ := List.mem_map.mp site
  have wide := Config.minCommentWidth_le valid
  obtain ⟨kept, later, laid, apart, all⟩ :=
    recordLines_first_word builtIn given led m (Nat.lt_of_lt_of_le (by decide) wide)
  refine ⟨_, later, laid, ?_⟩
  rw [String.toList_ofList]
  by_cases bad : broken
  · obtain ⟨rfl, narrow⟩ := bad
    have cut : ('@' :: Doc.Tag.deprecated.word.toList).take c.commentMaxWidth ++ kept =
        '@' :: "deprecate".toList ++ [] := by
      rw [all (by rw [narrow]; decide), narrow]
      decide
    have lost : ¬ ∃ tail, '@' :: "deprecate".toList ++ [] = '@' :: Doc.Tag.deprecated.word.toList ++ tail ∧
        Spaced tail := by
      rintro ⟨tail, same, -⟩
      have lengths := congrArg List.length same
      simp [Doc.Tag.word, Doc.Tag.name] at lengths
    rw [cut]
    refine ⟨⟨fun whole => absurd whole lost, fun sound => absurd ⟨rfl, narrow⟩ sound⟩, fun _ => by decide,
      fun indent => ?_⟩
    rw [lineName?_tag indent (by decide) (.inl rfl), if_pos ⟨rfl, narrow⟩]
    decide
  · rw [List.take_of_length_le (Doc.Tag.length_word_le wide bad)]
    refine ⟨⟨fun _ => bad, fun _ => ⟨kept, rfl, apart⟩⟩, fun worse => absurd worse bad, fun indent => ?_⟩
    rw [lineName?_tag indent tag.isTagName_word apart, if_neg bad, Option.map_some, tag.canonicalName_word,
      Doc.Tag.ofName?_eq_some_iff.mp builtIn]

/-- A deprecated variable with a translation, in comments of ten and of eleven columns. -/
theorem Translator.recordLines_tag_word_variable :
    let v : Node := ⟨"v", some ⟨true, ["text", "deprecated"]⟩, .var (.basic .any) true, some 1⟩
    let t : Tree := ⟨#[v, ⟨"", none, .root [0], none⟩], 1⟩
    let m : KeyMap := ⟨[("v.deprecated", .string "use w")]⟩
    let r : Doc.Record := ⟨"v.deprecated", "@deprecated"⟩
    r ∈ (Doc.expand t 0 []).records ∧
      Config.invalid? { commentMaxWidth := 10 } = none ∧
      (∃ first rest, (Translator.ofLanguage m "en_us" 10).recordLines r = first :: rest ∧ first = "@deprecate" ∧
        (Source.lineName? (Source.laidOut 0 first.toList)).map Doc.canonicalName = some "deprecate") ∧
      ∃ first rest, (Translator.ofLanguage m "en_us" 11).recordLines r = first :: rest ∧
        (∃ tail, first.toList = '@' :: Doc.Tag.deprecated.word.toList ++ tail ∧ Spaced tail) ∧
        (Source.lineName? (Source.laidOut 0 first.toList)).map Doc.canonicalName = some "deprecated" := by
  intro v t m r
  let x : Doc.Site := ⟨0, ⟨v, "v", "deprecated", 0, 1⟩, r⟩
  have member : x ∈ Doc.sitesOf t [] 0 := by
    have base : Key.ofNode t 0 = "v" := by decide +kernel
    have flag : x.flag ∈ Doc.flagsOf t 0 := by
      change x.flag ∈ Doc.occurrences v (Key.ofNode t 0) [] ["text", "deprecated"]
      rw [base]
      exact .tail _ (.head _)
    exact List.mem_flatMap.mpr ⟨x.flag, flag, List.mem_map.mpr ⟨r, .head _, rfl⟩⟩
  have builtIn : Doc.Tag.ofName? x.flag.name = some .deprecated := rfl
  have narrow : Config.invalid? { commentMaxWidth := 10 } = none := rfl
  have wider : Config.invalid? { commentMaxWidth := 11 } = none := rfl
  refine ⟨?_, narrow, ?_, ?_⟩
  · rw [← Doc.map_record_sitesOf]
    exact List.mem_map.mpr ⟨x, member, rfl⟩
  · obtain ⟨first, rest, lines, -, lost, read⟩ :=
      recordLines_tag_word narrow m t [] member builtIn (by decide)
    exact ⟨first, rest, lines, lost ⟨rfl, rfl⟩, read 0⟩
  · obtain ⟨first, rest, lines, whole, -, read⟩ :=
      recordLines_tag_word wider m t [] member builtIn (by decide)
    exact ⟨first, rest, lines, whole.mpr (by decide), read 0⟩

end DocLocale
