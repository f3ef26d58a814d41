import DocLocale.Source.DocComment
import Mathlib.Data.List.Basic

/-!
Tags at the front of comment lines. Main statement: a line laid out behind its indentation and star shows
the tag that it starts with.
-/

set_option autoImplicit false
set_option relaxedAutoImplicit false

namespace DocLocale.Source

open Text (isBlank isWordChar)

/-- Code points of the blank characters. -/
private def blankPoints : List Nat :=
  [9, 10, 11, 12, 13, 0x20, 0x85, 0xA0, 0x1680, 0x2000, 0x2001, 0x2002, 0x2003, 0x2004, 0x2005, 0x2006,
    0x2007, 0x2008, 0x2009, 0x200A, 0x2028, 0x2029, 0x202F, 0x205F, 0x3000]

private theorem toNat_mem_blankPoints {c : Char} (blank : isBlank c = true) :
    c.toNat ∈ blankPoints := by
  simp only [isBlank, Bool.or_eq_true, Bool.and_eq_true, decide_eq_true_eq, beq_iff_eq] at blank
  simp only [blankPoints, List.mem_cons, List.not_mem_nil, or_false]
  omega

theorem not_isWordChar_of_isBlank {c : Char} (blank : isBlank c = true) : isWordChar c = false := by
  have all : ∀ n ∈ blankPoints, isWordChar (Char.ofNat n) = false := by decide +kernel
  have here := all c.toNat (toNat_mem_blankPoints blank)
  rwa [Char.ofNat_toNat] at here

/-- A character of a tag name behind the first. -/
def isTagChar (c : Char) : Bool := isWordChar c || c = '-'

/-- A word that comments can write as a tag: a letter or underscore, then word characters and
hyphens. -/
def IsTagName (w : String) : Prop :=
  ∃ c cs, w.toList = c :: cs ∧ (c.isAlpha || c = '_') = true ∧ ∀ d ∈ cs, isTagChar d = true

instance (w : String) : Decidable (IsTagName w) :=
  decidable_of_iff (w.toList.head?.any (fun c => c.isAlpha || c = '_') = true ∧
      w.toList.tail.all isTagChar = true) <| by
    unfold IsTagName
    cases w.toList <;> simp

/-- Characters that neither break words nor mark tags or comments. -/
def isPlain (c : Char) : Bool := !isBlank c && c ≠ '@' && c ≠ '*'

/-- A text of plain characters. -/
def Plain (s : String) : Prop := ∀ c ∈ s.toList, isPlain c = true

instance (s : String) : Decidable (Plain s) :=
  decidable_of_iff (s.toList.all isPlain = true) List.all_eq_true

theorem isPlain_of_isTagChar {c : Char} (tagChar : isTagChar c = true) : isPlain c = true := by
  have blank : isBlank c = false := by
    by_contra present
    have word := not_isWordChar_of_isBlank (by simpa using present)
    have hyphen : c = '-' := by simpa [isTagChar, word] using tagChar
    subst hyphen
    exact present rfl
  have sign : c ≠ '@' := by
    rintro rfl
    exact absurd tagChar (by decide)
  have star : c ≠ '*' := by
    rintro rfl
    exact absurd tagChar (by decide)
  simp [isPlain, blank, sign, star]

theorem isTagChar_of_start {c : Char} (start : (c.isAlpha || c = '_') = true) :
    isTagChar c = true := by
  simp only [Bool.or_eq_true, decide_eq_true_eq] at start
  rcases start with letter | rfl
  · simp [isTagChar, isWordChar, Char.isAlphanum, letter]
  · decide

theorem IsTagName.plain {w : String} (tag : IsTagName w) : Plain w := by
  obtain ⟨c, cs, chars, start, rest⟩ := tag
  intro d member
  rw [chars] at member
  rcases List.mem_cons.mp member with rfl | member
  · exact isPlain_of_isTagChar (isTagChar_of_start start)
  · exact isPlain_of_isTagChar (rest d member)

/-- The tag that a line starts with. -/
def headTag? : List Char → Option String
  | '@' :: name => tagName? name
  | _ => none

/-- A tag name is read up to the first character that is no part of it. -/
theorem tagName?_append {w : String} (tag : IsTagName w) {rest : List Char}
    (ends : ∀ c cs, rest = c :: cs → isTagChar c = false) :
    tagName? (w.toList ++ rest) = some w := by
  obtain ⟨c, cs, chars, start, all⟩ := tag
  have stops : rest.takeWhile isTagChar = [] := by
    cases rest with
    | nil => rfl
    | cons d ds => simp [ends d ds rfl]
  have taken : (cs ++ rest).takeWhile isTagChar = cs := by
    rw [List.takeWhile_append_of_pos all, stops, List.append_nil]
  rw [chars, List.cons_append]
  simp only [tagName?, start, if_true]
  have same : (fun d => isWordChar d || decide (d = '-')) = isTagChar := rfl
  rw [same, taken, ← chars, String.ofList_toList]

/-- A text that is empty or starts with a space, as it stands behind a word. -/
def Spaced (rest : List Char) : Prop := rest = [] ∨ ∃ more, rest = ' ' :: more

theorem Spaced.of_initial {more rest : List Char} (spaced : Spaced rest) (initial : more <+: rest) :
    Spaced more := by
  obtain ⟨tail, whole⟩ := initial
  cases more with
  | nil => exact .inl rfl
  | cons c more =>
    rcases spaced with none | ⟨behind, front⟩
    · rw [none] at whole
      cases whole
    · rw [front] at whole
      exact .inr ⟨more, by rw [(List.cons.inj whole).1]⟩

/-- A line that starts with a tag shows it. -/
theorem headTag?_append {w : String} (tag : IsTagName w) {rest : List Char} (spaced : Spaced rest) :
    headTag? ('@' :: w.toList ++ rest) = some w := by
  apply tagName?_append tag
  rintro c cs front
  rcases spaced with none | ⟨more, space⟩
  · rw [none] at front
    cases front
  · rw [space] at front
    rw [← (List.cons.inj front).1]
    decide

/-- A carriage return at the end of a line is no part of its tag. -/
theorem headTag?_append_return (line : List Char) : headTag? (line ++ ['\r']) = headTag? line := by
  have taken : ∀ cs, (cs ++ ['\r']).takeWhile isTagChar = cs.takeWhile isTagChar := by
    intro cs
    induction cs with
    | nil => decide
    | cons c cs ih => simp only [List.cons_append, List.takeWhile_cons, ih]
  have name : ∀ cs, tagName? (cs ++ ['\r']) = tagName? cs := by
    intro cs
    cases cs with
    | nil => decide
    | cons c cs =>
      have same : (fun d => isWordChar d || decide (d = '-')) = isTagChar := rfl
      simp only [List.cons_append, tagName?, same, taken]
  unfold headTag?
  split
  · rename_i cs split_eq
    cases line with
    | nil => simp at split_eq
    | cons c line =>
      simp only [List.cons_append, List.cons.injEq] at split_eq
      obtain ⟨rfl, rfl⟩ := split_eq
      exact name line
  · rename_i other
    split
    · rename_i cs
      exact absurd rfl (other (cs ++ ['\r']))
    · rfl

/-- The name of the tag that a line shows, wherever the line stands. -/
def lineName? (line : List Char) : Option String := (lineTag? 0 line).map (·.name)

theorem lineTag?_map_name (position : Nat) (line : List Char) :
    (lineTag? position line).map (·.name) = lineName? line := by
  unfold lineName? lineTag?
  dsimp only
  split
  · rename_i name _
    cases tagName? name <;> rfl
  · rfl

theorem lineTags_map_name (position : Nat) (lines : List (List Char)) :
    (lineTags position lines).map (·.name) = lines.filterMap lineName? := by
  induction lines generalizing position with
  | nil => rfl
  | cons line lines ih =>
    simp only [lineTags, List.map_append, ih, List.filterMap_cons, ← lineTag?_map_name position line]
    cases lineTag? position line <;> rfl

/-- A line of a comment block: its indentation, a star and its text. -/
def laidOut (indent : Nat) (line : List Char) : List Char :=
  List.replicate indent ' ' ++ ' ' :: '*' :: ' ' :: line

/-- A laid out line shows the tag that its text starts with. -/
theorem lineName?_laidOut (indent : Nat) {c : Char} {cs : List Char} (start : isIndent c = false) :
    lineName? (laidOut indent (c :: cs)) = headTag? (c :: cs) := by
  have before : (laidOut indent (c :: cs)).dropWhile isIndent = '*' :: ' ' :: c :: cs := by
    have blanks : ∀ d ∈ List.replicate indent ' ', isIndent d = true := by
      intro d member
      rw [List.eq_of_mem_replicate member]
      rfl
    rw [laidOut, List.dropWhile_append_of_pos blanks]
    rfl
  have between : (' ' :: c :: cs).dropWhile isIndent = c :: cs := by
    have space : isIndent ' ' = true := rfl
    simp [space, start]
  simp only [lineName?, lineTag?, skipIndent, before, between]
  by_cases sign : c = '@'
  · subst sign
    simp only [headTag?]
    cases tagName? cs <;> rfl
  · have none : headTag? (c :: cs) = none := by
      unfold headTag?
      split
      · rename_i same
        exact absurd (List.cons.inj same).1 sign
      · rfl
    rw [none]
    split
    · rename_i same
      exact absurd (List.cons.inj same).1 sign
    · rfl

end DocLocale.Source
