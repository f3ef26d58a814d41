import DocLocale.Text.Blank
import Mathlib.Data.List.TakeWhile
import Mathlib.Tactic.Common

/-!
Words of a text. A text is blank, or has a first word with blanks in front of it and a blank or the end behind
it. Main statement: all words of a text are among some given ones exactly if the text is spaced out of those.
-/

set_option autoImplicit false
set_option relaxedAutoImplicit false

namespace DocLocale.Text

/-- Blanks. -/
def IsBlankText (cs : List Char) : Prop := ∀ c ∈ cs, isBlank c = true

/-- A text in which a word may stand: it is not empty and has no blanks. -/
structure IsWord (cs : List Char) : Prop where
  nonempty : cs ≠ []
  solid : ∀ c ∈ cs, isBlank c = false

/-- Texts made of given words, with blanks between any two of them and perhaps before and behind them. -/
inductive SpacedOf (given : List Char → Prop) : List Char → Prop
  | blanks {gap : List Char} (blank : IsBlankText gap) : SpacedOf given gap
  | word {gap word rest : List Char} (blank : IsBlankText gap) (known : given word)
    (apart : ∀ c ∈ rest.head?, isBlank c = true) (later : SpacedOf given rest) :
    SpacedOf given (gap ++ (word ++ rest))

-- How the words go on from a text is decided by its first two characters.
section Equations

variable {c d : Char} {cs : List Char}

theorem words_cons_of_blank (blank : isBlank c = true) : words (c :: cs) = words cs := by
  cases cs with
  | nil => exact if_pos blank
  | cons d cs => exact if_pos blank

theorem words_single (solid : isBlank c = false) : words [c] = [[c]] :=
  if_neg (by simp [solid])

theorem words_cons_cons_of_blank (solid : isBlank c = false) (blank : isBlank d = true) :
    words (c :: d :: cs) = [c] :: words (d :: cs) :=
  (if_neg (by simp [solid])).trans (if_pos blank)

theorem words_cons_cons_of_solid {word : List Char} {ws : List (List Char)} (solid : isBlank c = false)
    (second : isBlank d = false) (later : words (d :: cs) = word :: ws) :
    words (c :: d :: cs) = (c :: word) :: ws := by
  refine (if_neg (by simp [solid])).trans ((if_neg (by simp [second])).trans ?_)
  rw [later]

end Equations

theorem words_append_of_blank {gap : List Char} (blank : IsBlankText gap) (rest : List Char) :
    words (gap ++ rest) = words rest := by
  induction gap with
  | nil => rfl
  | cons c gap ih =>
    have later : IsBlankText gap := fun d member => blank d (List.mem_cons_of_mem c member)
    rw [List.cons_append, words_cons_of_blank (blank c List.mem_cons_self)]
    exact ih later

theorem words_of_blank {gap : List Char} (blank : IsBlankText gap) : words gap = [] := by
  have none := words_append_of_blank blank []
  rwa [List.append_nil] at none

theorem words_append {word rest : List Char} (isWord : IsWord word)
    (apart : ∀ c ∈ rest.head?, isBlank c = true) : words (word ++ rest) = word :: words rest := by
  obtain ⟨nonempty, solid⟩ := isWord
  induction word with
  | nil => exact absurd rfl nonempty
  | cons c word ih =>
    have first : isBlank c = false := solid c List.mem_cons_self
    have inside : ∀ d ∈ word, isBlank d = false := fun d member => solid d (List.mem_cons_of_mem c member)
    cases word with
    | nil =>
      cases rest with
      | nil => exact words_single first
      | cons d rest => exact words_cons_cons_of_blank first (apart d rfl)
    | cons d word =>
      have second : isBlank d = false := inside d List.mem_cons_self
      exact words_cons_cons_of_solid first second (ih (List.cons_ne_nil d word) inside)

/-- A text is blank or has a first word. -/
theorem blank_or_exists_word (cs : List Char) : IsBlankText cs ∨ ∃ gap word rest,
    cs = gap ++ (word ++ rest) ∧ IsBlankText gap ∧ IsWord word ∧ ∀ c ∈ rest.head?, isBlank c = true := by
  induction cs with
  | nil => exact .inl (fun c member => absurd member List.not_mem_nil)
  | cons c cs ih =>
    cases kind : isBlank c with
    | true =>
      have front : ∀ gap, IsBlankText gap → IsBlankText (c :: gap) := by
        intro gap blank d member
        rcases List.mem_cons.mp member with rfl | later
        · exact kind
        · exact blank d later
      rcases ih with blank | ⟨gap, word, rest, rfl, blank, isWord, apart⟩
      · exact .inl (front cs blank)
      · exact .inr ⟨c :: gap, word, rest, rfl, front gap blank, isWord, apart⟩
    | false =>
      -- The word ends with the characters that are not blank.
      refine .inr ⟨[], c :: cs.takeWhile (!isBlank ·), cs.dropWhile (!isBlank ·), ?_, ?_, ?_, ?_⟩
      · rw [List.nil_append, List.cons_append, List.takeWhile_append_dropWhile]
      · exact fun d member => absurd member List.not_mem_nil
      · refine ⟨List.cons_ne_nil _ _, fun d member => ?_⟩
        rcases List.mem_cons.mp member with rfl | inside
        · exact kind
        · simpa using List.mem_takeWhile_imp inside
      · intro d first
        have stop := List.head?_dropWhile_not (!isBlank ·) cs
        rw [Option.mem_def.mp first] at stop
        simpa using stop

/-- The words of a text are given ones exactly if the text is spaced out of those. -/
theorem forall_mem_words_iff {given : List Char → Prop} (proper : ∀ word, given word → IsWord word)
    (cs : List Char) : (∀ word ∈ words cs, given word) ↔ SpacedOf given cs := by
  constructor
  · intro known
    induction size : cs.length using Nat.strong_induction_on generalizing cs with
    | h n ih =>
      rcases blank_or_exists_word cs with blank | ⟨gap, word, rest, rfl, blank, isWord, apart⟩
      · exact .blanks blank
      · rw [words_append_of_blank blank, words_append isWord apart, List.forall_mem_cons] at known
        have shorter : rest.length < n := by
          have some : 0 < word.length := List.length_pos_iff.mpr isWord.nonempty
          simp only [List.length_append] at size
          omega
        exact .word blank known.1 apart (ih rest.length shorter rest known.2 rfl)
  · intro spaced
    induction spaced with
    | blanks blank =>
      rw [words_of_blank blank]
      exact fun word member => absurd member List.not_mem_nil
    | @word gap word rest blank known apart later ih =>
      rw [words_append_of_blank blank, words_append (proper word known) apart, List.forall_mem_cons]
      exact ⟨known, ih⟩

end DocLocale.Text
