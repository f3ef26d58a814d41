import DocLocale.Text.Blank
import Mathlib.Data.List.Induction
import Mathlib.Tactic.Common

/-!
Texts split at a separator. Parts without separators, put together with one behind or in front of each, are found
again.
-/

set_option autoImplicit false
set_option relaxedAutoImplicit false

namespace DocLocale.Text

variable {sep : Char} {part : List Char}

theorem splitAt_append (sep : Char) (cs rest : List Char) :
    splitAt sep (cs ++ sep :: rest) = splitAt sep cs ++ splitAt sep rest := by
  induction cs with
  | nil => simp [splitAt]
  | cons c cs ih =>
    obtain ⟨part, parts, first⟩ := List.exists_cons_of_ne_nil (splitAt_ne_nil sep cs)
    by_cases same : (c == sep) = true
    · simp [splitAt, same, ih]
    · simp [splitAt, same, ih, first]

theorem splitAt_of_not_mem (absent : sep ∉ part) : splitAt sep part = [part] := by
  induction part with
  | nil => rfl
  | cons c part ih =>
    simp only [List.mem_cons, not_or] at absent
    have other : (c == sep) = false := by simpa using Ne.symm absent.1
    simp [splitAt, other, ih absent.2]

theorem splitAt_append_cons (absent : sep ∉ part) (rest : List Char) :
    splitAt sep (part ++ sep :: rest) = part :: splitAt sep rest := by
  rw [splitAt_append, splitAt_of_not_mem absent]
  rfl

/-- Lines that each end with a break stand apart from what follows them. -/
theorem splitAt_lines {lines : List (List Char)} (absent : ∀ line ∈ lines, sep ∉ line) (rest : List Char) :
    splitAt sep (lines.flatMap (· ++ [sep]) ++ rest) = lines ++ splitAt sep rest := by
  induction lines with
  | nil => rfl
  | cons line lines ih =>
    have later := ih fun other member => absent other (List.mem_cons_of_mem _ member)
    have shape : (line :: lines).flatMap (· ++ [sep]) ++ rest =
        line ++ sep :: (lines.flatMap (· ++ [sep]) ++ rest) := by
      simp
    rw [shape, splitAt_append_cons (absent line List.mem_cons_self), later, List.cons_append]

theorem splitAt_flatMap_cons {parts : List (List Char)} (absent : ∀ part ∈ parts, sep ∉ part) :
    splitAt sep (parts.flatMap (sep :: ·)) = [] :: parts := by
  induction parts using List.reverseRecOn with
  | nil => rfl
  | append_singleton parts part ih =>
    have last := absent part (by simp)
    have earlier := ih fun other member => absent other (List.mem_append_left _ member)
    rw [List.flatMap_append, List.flatMap_singleton, splitAt_append, earlier, splitAt_of_not_mem last]
    rfl

/-- The parts of a text hold no separator and stand in the text, the first one at its front. -/
theorem exists_parts (sep : Char) (cs : List Char) :
    ∃ first rest, splitAt sep cs = first :: rest ∧ first <+: cs ∧
      (∀ part ∈ rest, part <:+: cs) ∧ ∀ part ∈ first :: rest, sep ∉ part := by
  induction cs with
  | nil => exact ⟨[], [], rfl, List.prefix_rfl, by simp, by simp⟩
  | cons c cs ih =>
    obtain ⟨first, rest, split, front, inner, absent⟩ := ih
    by_cases here : (c == sep) = true
    · refine ⟨[], first :: rest, by simp [splitAt, here, split], List.nil_prefix, ?_, by simpa using absent⟩
      intro part member
      have within : part <:+: cs := by
        rcases List.mem_cons.mp member with rfl | later
        · exact front.isInfix
        · exact inner part later
      exact within.trans (List.suffix_cons c cs).isInfix
    · have other : c ≠ sep := by simpa using here
      refine ⟨c :: first, rest, by simp [splitAt, here, split], ?_, ?_, ?_⟩
      · exact List.cons_prefix_cons.mpr ⟨rfl, front⟩
      · exact fun part member => (inner part member).trans (List.suffix_cons c cs).isInfix
      · simp only [List.mem_cons, forall_eq_or_imp, not_or] at absent ⊢
        exact ⟨⟨other.symm, absent.1⟩, absent.2⟩

/-- What stands in joined parts. -/
theorem mem_of_mem_intercalate {c : Char} {sep : String} {parts : List String}
    (member : c ∈ (sep.intercalate parts).toList) : c ∈ sep.toList ∨ ∃ part ∈ parts, c ∈ part.toList := by
  induction parts with
  | nil =>
    rw [String.intercalate_nil] at member
    cases member
  | cons part parts ih =>
    by_cases last : parts = []
    · subst last
      rw [String.intercalate_singleton] at member
      exact .inr ⟨part, List.mem_cons_self, member⟩
    · rw [String.intercalate_cons_of_ne_nil last, String.toList_append, String.toList_append] at member
      simp only [List.mem_append] at member
      rcases member with (here | between) | there
      · exact .inr ⟨part, List.mem_cons_self, here⟩
      · exact .inl between
      · rcases ih there with between | ⟨other, present, inside⟩
        · exact .inl between
        · exact .inr ⟨other, List.mem_cons_of_mem _ present, inside⟩

/-- Lines put together, each with a line feed behind it. -/
def joinLines (lines : List (List Char)) : String := String.ofList (lines.flatMap (· ++ ['\n']))

/-- The lines of a text in which each line is ended by a line feed. -/
def linesOf (text : String) : List (List Char) := (splitAt '\n' text.toList).dropLast

theorem joinLines_append (lines more : List (List Char)) :
    joinLines (lines ++ more) = joinLines lines ++ joinLines more := by
  simp [joinLines]

theorem joinLines_isEmpty (lines : List (List Char)) : (joinLines lines).isEmpty = lines.isEmpty := by
  cases lines with
  | nil => rfl
  | cons line lines => simp [joinLines]

theorem linesOf_joinLines {lines : List (List Char)} (unbroken : ∀ line ∈ lines, '\n' ∉ line) :
    linesOf (joinLines lines) = lines := by
  have split := splitAt_lines unbroken []
  rw [List.append_nil] at split
  rw [linesOf, joinLines, String.toList_ofList, split]
  simp [splitAt]

end DocLocale.Text
