import DocLocale.Proofs.Doc.Expansion
import DocLocale.Proofs.Key.Generated
import DocLocale.Proofs.Source.CommentScan
import DocLocale.Proofs.Translation.WrapLines

/-!
The comment lines of records without translations. Main statement: in every layout the lines of a legible
record can stand in a comment, and show the tag of the record and no other.
-/

set_option autoImplicit false
set_option relaxedAutoImplicit false

namespace DocLocale

open Source (Clean IsTagName Plain headTag? isPlain)
open Text (isBlank)
open Translation (Inked)

/-- Whether a word is never broken in a layout, whatever stands behind it. -/
def LineFormat.Holds (word : List Char) : LineFormat → Prop
  | .wrapped limit => ∀ rest, word.length ≤ Translation.fit limit (word ++ rest)
  | .verbatim => True

theorem LineFormat.holds_char (format : LineFormat) (c : Char) : format.Holds [c] := by
  cases format with
  | wrapped limit => exact fun rest => Nat.le_max_left 1 _
  | verbatim => trivial

theorem LineFormat.holds_ofLanguage {word : List Char} {maxWidth : Nat}
    (fits : Translation.summedWidth word ≤ maxWidth) (language : String) :
    (LineFormat.ofLanguage language maxWidth).Holds word := by
  unfold ofLanguage
  split
  · exact fun rest => Translation.length_le_fit rest fits
  · trivial

/-- A line is laid out into pieces of which the first keeps its first word, if that is never broken. -/
theorem LineFormat.apply_line {format : LineFormat} {word : List Char} (nonempty : word ≠ [])
    (inked : ∀ c ∈ word, isBlank c = false) (holds : format.Holds word) {line : String}
    {rest : List Char} (whole : line.toList = word ++ rest) :
    ∃ more others, (format.apply [line]).map String.toList = (word ++ more) :: others ∧ more <+: rest ∧
      ∀ piece ∈ others, Inked piece ∧ piece ⊆ rest := by
  cases format with
  | verbatim => exact ⟨rest, [], by simp [apply, whole], List.prefix_rfl, by simp⟩
  | wrapped limit =>
    obtain ⟨more, others, pieces, front, later⟩ :=
      Translation.wrapLine_word nonempty inked (holds (Text.trimEnd rest))
    have initial := Translation.trimEnd_initial rest
    refine ⟨more, others, ?_, front.trans initial, ?_⟩
    · have strings : (Translation.wrap limit [line]).map String.toList =
          Translation.wrapLine limit (Text.trim line.toList) := by
        simp [Translation.wrap, Function.comp_def]
      rw [apply, strings, whole, Translation.trim_append nonempty inked, pieces]
    · intro piece member
      obtain ⟨ink, within⟩ := later piece member
      exact ⟨ink, fun c present => initial.mem (within present)⟩

section Lines

/-- Lines that can stand in a comment and show at most one tag. -/
structure Shows (lines : List (List Char)) (tag? : Option String) : Prop where
  nonempty : lines ≠ []
  clean : ∀ line ∈ lines, Clean line
  tags : lines.filterMap headTag? = tag?.toList

/-- Characters that may stand in a line behind its tag. -/
private def isQuiet (c : Char) : Bool := isPlain c || c = ' '

private theorem isQuiet_of_isPlain {c : Char} (plain : isPlain c = true) : isQuiet c = true := by
  simp [isQuiet, plain]

private theorem not_mem_of_quiet {c : Char} {cs : List Char} (quiet : ∀ d ∈ cs, isQuiet d = true)
    (loud : isQuiet c = false) : c ∉ cs := by
  intro member
  rw [quiet c member] at loud
  cases loud

private theorem headTag?_of_quiet {cs : List Char} (quiet : ∀ c ∈ cs, isQuiet c = true) :
    headTag? cs = none := by
  unfold headTag?
  split
  · rename_i name
    exact absurd (quiet '@' List.mem_cons_self) (by decide)
  · rfl

private theorem not_isBlank_of_isPlain {c : Char} (plain : isPlain c = true) : isBlank c = false := by
  simp only [isPlain, Bool.and_eq_true, Bool.not_eq_true'] at plain
  exact plain.1.1

private theorem isIndent_of_not_isBlank {c : Char} (ink : isBlank c = false) :
    Source.isIndent c = false := by
  by_contra present
  simp only [Source.isIndent, Bool.or_eq_true, decide_eq_true_eq, Bool.not_eq_false] at present
  rcases present with rfl | rfl
  · exact absurd ink (by decide)
  · exact absurd ink (by decide)

private theorem clean_of_quiet {cs : List Char} (ink : Inked cs) (quiet : ∀ c ∈ cs, isQuiet c = true) :
    Clean cs := by
  obtain ⟨c, rest, rfl, ink⟩ := ink
  exact ⟨⟨c, rest, rfl, isIndent_of_not_isBlank ink⟩, not_mem_of_quiet quiet (by decide),
    not_mem_of_quiet quiet (by decide)⟩

/-- Quiet lines behind a first one show no tags of their own. -/
private theorem Shows.cons {first : List Char} {others : List (List Char)} {rest : List Char}
    (clean : Clean first) (quiet : ∀ c ∈ rest, isQuiet c = true)
    (later : ∀ piece ∈ others, Inked piece ∧ piece ⊆ rest) : Shows (first :: others) (headTag? first) := by
  have silent : ∀ piece ∈ others, ∀ c ∈ piece, isQuiet c = true :=
    fun piece member c present => quiet c ((later piece member).2 present)
  refine ⟨List.cons_ne_nil _ _, ?_, ?_⟩
  · intro line member
    rcases List.mem_cons.mp member with rfl | behind
    · exact clean
    · exact clean_of_quiet (later line behind).1 (silent line behind)
  · have none : others.filterMap headTag? = [] := by
      rw [List.filterMap_eq_nil_iff]
      exact fun piece member => headTag?_of_quiet (silent piece member)
    rw [List.filterMap_cons]
    cases headTag? first <;> simp [none]

end Lines

/-- The first word of a record's lead: its tag with the at sign. -/
def Doc.Record.tagWord (r : Doc.Record) : List Char := r.lead.toList.takeWhile (· ≠ ' ')

section Records

variable {m : KeyMap} {format : LineFormat} {r : Doc.Record}

private theorem rawLines_eq (untranslated : m.Untranslated) (plain : Plain r.key) :
    (Translator.mk m format).rawLines r =
      [if r.lead.isEmpty then r.key else r.lead ++ " " ++ r.key] := by
  have unbroken : '\n' ∉ r.key.toList := fun member => absurd (plain _ member) (by decide)
  simp only [Translator.rawLines, untranslated.translate, Text.splitAt_of_not_mem unbroken,
    List.map_cons, List.map_nil, String.ofList_toList, Translator.withLead]

private theorem shows_bare (untranslated : m.Untranslated) (legible : r.Legible) (bare : r.lead = "") :
    Shows (((Translator.mk m format).recordLines r).map String.toList) r.tag? := by
  obtain ⟨c, cs, chars⟩ := List.exists_cons_of_ne_nil legible.key_ne
  have plain : ∀ d ∈ c :: cs, isPlain d = true := chars ▸ legible.key
  have ink : ∀ d ∈ [c], isBlank d = false := by
    simpa using not_isBlank_of_isPlain (plain c List.mem_cons_self)
  have line : (if r.lead.isEmpty then r.key else r.lead ++ " " ++ r.key) = r.key := by simp [bare]
  have none : r.tag? = none := by
    rw [Doc.Record.tag?, bare]
    rfl
  have whole : r.key.toList = [c] ++ cs := chars
  obtain ⟨more, others, pieces, front, later⟩ :=
    LineFormat.apply_line (List.cons_ne_nil c []) ink (format.holds_char c) whole
  have quiet : ∀ d ∈ [c] ++ more, isQuiet d = true := by
    intro d member
    apply isQuiet_of_isPlain
    rcases List.mem_cons.mp member with rfl | behind
    · exact plain d List.mem_cons_self
    · exact plain d (List.mem_cons_of_mem _ (front.mem behind))
  have clean : Clean ([c] ++ more) :=
    clean_of_quiet ⟨c, more, rfl, ink c List.mem_cons_self⟩ quiet
  have rest_quiet : ∀ d ∈ cs, isQuiet d = true :=
    fun d member => isQuiet_of_isPlain (plain d (List.mem_cons_of_mem _ member))
  rw [Translator.recordLines, rawLines_eq untranslated legible.key, line, pieces, none,
    ← headTag?_of_quiet quiet]
  exact Shows.cons clean rest_quiet later

private theorem tagWord_of_lead {tag tail : String} (lead : r.lead = "@" ++ tag ++ tail)
    (named : IsTagName tag) (ends : Doc.LeadEnd tail) : r.tagWord = '@' :: tag.toList := by
  have spaceless : ∀ c ∈ '@' :: tag.toList, decide (c ≠ ' ') = true := by
    intro c member
    rcases List.mem_cons.mp member with rfl | behind
    · decide
    · rw [decide_eq_true_eq]
      rintro rfl
      exact absurd (named.plain ' ' behind) (by decide)
  have stops : tail.toList.takeWhile (· ≠ ' ') = [] := by
    rcases ends.spaced with none | ⟨more, space⟩
    · rw [none]
      rfl
    · rw [space]
      rfl
  rw [Doc.Record.tagWord, lead, Doc.toList_lead, List.takeWhile_append_of_pos spaceless, stops,
    List.append_nil]

private theorem isQuiet_of_mem_leadEnd {tail : String} (ends : Doc.LeadEnd tail) {c : Char}
    (member : c ∈ tail.toList) : isQuiet c = true := by
  rcases ends with rfl | ⟨name, rfl, plain⟩
  · cases member
  · rw [String.toList_append, List.mem_append] at member
    rcases member with space | inner
    · rw [List.mem_singleton.mp space]
      rfl
    · exact isQuiet_of_isPlain (plain c inner)

private theorem shows_tagged (untranslated : m.Untranslated) (plain : Plain r.key) {tag tail : String}
    (lead : r.lead = "@" ++ tag ++ tail) (named : IsTagName tag) (ends : Doc.LeadEnd tail)
    (holds : format.Holds r.tagWord) :
    Shows (((Translator.mk m format).recordLines r).map String.toList) r.tag? := by
  have inked : ∀ c ∈ '@' :: tag.toList, isBlank c = false := by
    intro c member
    rcases List.mem_cons.mp member with rfl | behind
    · decide
    · exact not_isBlank_of_isPlain (named.plain c behind)
  have line : (if r.lead.isEmpty then r.key else r.lead ++ " " ++ r.key).toList =
      '@' :: tag.toList ++ (tail.toList ++ ' ' :: r.key.toList) := by
    have space : " ".toList = [' '] := rfl
    simp [String.toList_append, lead, space]
  have quiet : ∀ c ∈ tail.toList ++ ' ' :: r.key.toList, isQuiet c = true := by
    intro c member
    simp only [List.mem_append, List.mem_cons] at member
    rcases member with inner | rfl | inKey
    · exact isQuiet_of_mem_leadEnd ends inner
    · rfl
    · exact isQuiet_of_isPlain (plain c inKey)
  obtain ⟨more, others, pieces, front, later⟩ :=
    LineFormat.apply_line (List.cons_ne_nil _ _) inked (tagWord_of_lead lead named ends ▸ holds) line
  -- Whatever of the line follows the tag on its first piece, it starts with a space.
  have spaced : Source.Spaced (tail.toList ++ ' ' :: r.key.toList) := by
    rcases ends.spaced with none | ⟨behind, space⟩
    · exact .inr ⟨r.key.toList, by rw [none]; rfl⟩
    · exact .inr ⟨_, by rw [space]; rfl⟩
  have clean : Clean ('@' :: tag.toList ++ more) := by
    have behind : ∀ c ∈ tag.toList ++ more, isQuiet c = true := by
      intro c member
      rcases List.mem_append.mp member with inner | outer
      · exact isQuiet_of_isPlain (named.plain c inner)
      · exact quiet c (front.mem outer)
    refine ⟨⟨'@', tag.toList ++ more, rfl, rfl⟩, ?_, ?_⟩
    · simpa using not_mem_of_quiet behind (c := '\n') (by decide)
    · simpa using not_mem_of_quiet behind (c := '*') (by decide)
  rw [Translator.recordLines, rawLines_eq untranslated plain, pieces,
    Doc.Record.tag?_of_lead lead named ends,
    ← Source.headTag?_append named (spaced.of_initial front)]
  exact Shows.cons clean quiet later

/-- The lines of a legible record can stand in a comment and show the tag of the record. -/
theorem recordLines_shows (untranslated : m.Untranslated) (legible : r.Legible)
    (holds : format.Holds r.tagWord) :
    Shows (((Translator.mk m format).recordLines r).map String.toList) r.tag? := by
  rcases legible.lead with bare | ⟨tag, tail, lead, named, ends⟩
  · exact shows_bare untranslated legible bare
  · exact shows_tagged untranslated legible.key lead named ends holds

end Records

end DocLocale
