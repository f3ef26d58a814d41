import DocLocale.Source.Reference
import Mathlib.Data.List.Infix

/-!
Reference directives on lines of their own. A path is read up to the last quote on its line that closes the directive,
so it is found whole whatever stands in it; the search passes over text in which no three slashes stand in a row. Main
statement: the paths read from a text whose lines are directives or have no three slashes in a row are the paths of its
directives, in order.
-/

set_option autoImplicit false
set_option relaxedAutoImplicit false

namespace DocLocale.Source

open Text (isBlank)

/-- Spaces and tabs. -/
def IsGap (cs : List Char) : Prop := ∀ c ∈ cs, c = ' ' ∨ c = '\t'

/-- A directive on a line of its own: its path, and the spaces and tabs around its words. The path may hold slashes,
quotes and whatever else does not break the line. -/
structure Directive where
  indent : Nat
  beforeWord : List Char
  beforePath : List Char
  path : List Char
  beforeEnd : List Char
  gaps : IsGap beforeWord ∧ IsGap beforePath ∧ IsGap beforeEnd
  spaced : beforePath ≠ []
  named : path ≠ []
  unbroken : '\n' ∉ path

/-- A directive without its indentation. -/
def Directive.body (d : Directive) : List Char :=
  "///".toList ++ (d.beforeWord ++ ("<reference".toList ++ (d.beforePath ++ ("path=\"".toList ++
    (d.path ++ '"' :: (d.beforeEnd ++ ['/', '>']))))))

/-- A line that is a directive or has no three slashes in a row. -/
inductive Line
  | directive (d : Directive)
  | other (text : List Char) (unmarked : ¬ "///".toList <:+: text)

namespace Line

/-- The text of a line. -/
def text : Line → List Char
  | directive d => List.replicate d.indent ' ' ++ d.body
  | other text _ => text

/-- The path that a line names. -/
def path? : Line → Option String
  | directive d => some (String.ofList d.path)
  | other .. => none

end Line

/-- What stands between two lines. -/
inductive Break
  | feed
  | returnFeed

/-- The text of a break. -/
def Break.text : Break → List Char
  | feed => ['\n']
  | returnFeed => ['\r', '\n']

/-- A line and further lines, each behind a break. -/
def pageText (first : Line) (rest : List (Break × Line)) : List Char :=
  first.text ++ rest.flatMap fun next => next.1.text ++ next.2.text

theorem pageText_cons (first : Line) (b : Break) (line : Line) (rest : List (Break × Line)) :
    pageText first ((b, line) :: rest) = first.text ++ (b.text ++ pageText line rest) := by
  simp [pageText]

section Reading

theorem isBlank_of_gap {gap : List Char} (all : IsGap gap) : ∀ c ∈ gap, isBlank c = true := by
  intro c member
  rcases all c member with rfl | rfl <;> decide

theorem dropWhile_gap {gap : List Char} (all : IsGap gap) {c : Char} (solid : isBlank c = false) (rest : List Char) :
    (gap ++ c :: rest).dropWhile isBlank = c :: rest := by
  rw [List.dropWhile_append_of_pos (isBlank_of_gap all), List.dropWhile_cons_of_neg (by simp [solid])]

/-- Nothing can be read up to a quote where there is none. -/
theorem pathTail?_of_unquoted {front rest : List Char} (unquoted : '"' ∉ front) (none : pathTail? rest = none) :
    pathTail? (front ++ rest) = .none := by
  induction front with
  | nil => exact none
  | cons c front ih =>
    simp only [List.mem_cons, not_or] at unquoted
    rw [List.cons_append, pathTail?, ih unquoted.2, if_neg (Ne.symm unquoted.1), ite_self]

/-- A path is read up to the last quote that closes it, with any quotes before it. -/
theorem pathTail?_append {path tail rest : List Char} (unbroken : '\n' ∉ path)
    (closed : pathTail? tail = some ([], rest)) : pathTail? (path ++ tail) = some (path, rest) := by
  induction path with
  | nil => exact closed
  | cons c path ih =>
    simp only [List.mem_cons, not_or] at unbroken
    rw [List.cons_append, pathTail?, if_neg (Ne.symm unbroken.1), ih unbroken.2]

theorem pathTail?_closing {gap rest : List Char} (all : IsGap gap) (none : pathTail? rest = none) :
    pathTail? ('"' :: (gap ++ '/' :: '>' :: rest)) = some ([], rest) := by
  have unquoted : '"' ∉ gap ++ ['/', '>'] := by
    intro member
    rcases List.mem_append.mp member with inside | mark
    · rcases all _ inside with same | same <;> cases same
    · simp at mark
  have later : pathTail? (gap ++ '/' :: '>' :: rest) = .none := by
    simpa using pathTail?_of_unquoted unquoted none
  have closes : closing? (gap ++ '/' :: '>' :: rest) = some rest := by
    rw [closing?, dropWhile_gap all (by decide)]
    exact after?_append ['/', '>'] rest
  rw [pathTail?, later, closes, if_neg (by decide), if_pos rfl]
  rfl

/-- A directive is read with its whole path, if no quote closes one in what follows on the line. -/
theorem directive?_body (d : Directive) {rest : List Char} (none : pathTail? rest = none) :
    directive? (d.body ++ rest) = some (d.path, rest) := by
  obtain ⟨first, more, whole⟩ := List.exists_cons_of_ne_nil d.named
  obtain ⟨word, path, close⟩ := d.gaps
  have unbroken := d.unbroken
  rw [whole, List.mem_cons, not_or] at unbroken
  have tail := pathTail?_append unbroken.2 (pathTail?_closing close none)
  -- What is left behind each of the three words.
  have behindSlashes : after? "///".toList (d.body ++ rest) = some (d.beforeWord ++ ("<reference".toList ++
      (d.beforePath ++ ("path=\"".toList ++ (first :: (more ++ '"' :: (d.beforeEnd ++ '/' :: '>' :: rest))))))) := by
    rw [Directive.body, List.append_assoc, after?_append, whole]
    simp
  have behindWord (cs : List Char) :
      after? "<reference".toList ((d.beforeWord ++ ("<reference".toList ++ cs)).dropWhile isBlank) = some cs := by
    exact (congrArg _ (dropWhile_gap word (by decide) _)).trans (after?_append _ cs)
  have behindName (cs : List Char) :
      after? "path=\"".toList ((d.beforePath ++ ("path=\"".toList ++ cs)).dropWhile isBlank) = some cs := by
    exact (congrArg _ (dropWhile_gap path (by decide) _)).trans (after?_append _ cs)
  have blanks (cs : List Char) : (d.beforePath ++ cs).takeWhile isBlank ≠ [] := by
    rw [List.takeWhile_append_of_pos (isBlank_of_gap path)]
    exact List.append_ne_nil_of_left_ne_nil d.spaced _
  rw [directive?]
  simp only [behindSlashes, behindWord, behindName, blanks, Option.bind_eq_bind, Option.bind_some, if_false,
    Ne.symm unbroken.1, tail, whole]
  rfl

end Reading

section Skipping

theorem directive?_of_unmarked {cs : List Char} (unmarked : ¬ "///".toList <+: cs) : directive? cs = none := by
  have absent : after? "///".toList cs = none := by
    cases found : after? "///".toList cs with
    | none => rfl
    | some rest => exact absurd ⟨rest, (eq_append_of_after? found).symm⟩ unmarked
  rw [directive?, absent]
  rfl

theorem referencesFrom_nil (fuel : Nat) : referencesFrom fuel [] = [] := by
  cases fuel <;> rfl

theorem referencesFrom_found {cs path rest : List Char} (found : directive? cs = some (path, rest)) (fuel : Nat) :
    referencesFrom (fuel + 1) cs = String.ofList path :: referencesFrom fuel rest := by
  rw [referencesFrom.eq_def]
  simp only [found]

theorem referencesFrom_missed {c : Char} {cs : List Char} (missed : directive? (c :: cs) = none) (fuel : Nat) :
    referencesFrom (fuel + 1) (c :: cs) = referencesFrom fuel cs := by
  rw [referencesFrom.eq_def]
  simp only [missed]

/-- The search goes on behind a text in which no directive starts. -/
theorem referencesFrom_skip {front rest : List Char}
    (unmarked : ∀ final, final <:+ front → final ≠ [] → ¬ "///".toList <+: final ++ rest) (fuel : Nat) :
    referencesFrom (front.length + fuel) (front ++ rest) = referencesFrom fuel rest := by
  induction front with
  | nil => rw [List.length_nil, Nat.zero_add, List.nil_append]
  | cons c front ih =>
    have here := directive?_of_unmarked (unmarked (c :: front) List.suffix_rfl (List.cons_ne_nil _ _))
    have later := ih fun final ends => unmarked final (ends.trans (List.suffix_cons c front))
    rw [List.cons_append] at here
    rw [List.length_cons, Nat.add_right_comm, List.cons_append, referencesFrom_missed here, later]

theorem referencesFrom_skip_solid {front : List Char} (solid : '/' ∉ front) (rest : List Char) (fuel : Nat) :
    referencesFrom (front.length + fuel) (front ++ rest) = referencesFrom fuel rest := by
  refine referencesFrom_skip ?_ fuel
  intro final ends nonempty marked
  obtain ⟨c, more, rfl⟩ := List.exists_cons_of_ne_nil nonempty
  obtain rfl : '/' = c := (List.cons_prefix_cons.mp marked).1
  exact solid (ends.subset List.mem_cons_self)

/-- Three slashes do not start in a text without them that another character than a slash follows. -/
theorem referencesFrom_skip_unmarked {front rest : List Char} (unmarked : ¬ "///".toList <:+: front)
    (apart : rest.head? ≠ some '/') (fuel : Nat) :
    referencesFrom (front.length + fuel) (front ++ rest) = referencesFrom fuel rest := by
  refine referencesFrom_skip ?_ fuel
  intro final ends nonempty marked
  rcases List.prefix_or_prefix_of_prefix marked (List.prefix_append final rest) with inside | ⟨more, across⟩
  · exact unmarked (inside.isInfix.trans ends.isInfix)
  · rw [← across, List.prefix_append_right_inj] at marked
    cases more with
    | nil => exact unmarked ((List.append_nil final ▸ across) ▸ ends.isInfix)
    | cons c more =>
      have slash : c ∈ "///".toList := across ▸ List.mem_append_right _ List.mem_cons_self
      obtain ⟨others, rfl⟩ := marked
      obtain rfl : c = '/' := by simpa using slash
      exact apart rfl

end Skipping

section Lines

/-- The end of a line: the end of the text, or a break. -/
inductive LineEnd : List Char → Prop
  | last : LineEnd []
  | break (b : Break) (rest : List Char) : LineEnd (b.text ++ rest)

theorem LineEnd.pathTail? {rest : List Char} (ends : LineEnd rest) : pathTail? rest = none := by
  cases ends with
  | last => rfl
  | «break» b rest => cases b <;> rfl

theorem LineEnd.apart {rest : List Char} (ends : LineEnd rest) : rest.head? ≠ some '/' := by
  cases ends with
  | last => exact nofun
  | «break» b rest => cases b <;> simp [Break.text]

/-- The search passes over a line and takes the path that it names. -/
theorem referencesFrom_line (line : Line) {rest : List Char} (ends : LineEnd rest) {fuel : Nat}
    (enough : (line.text ++ rest).length < fuel) :
    ∃ left, rest.length < left ∧
      referencesFrom fuel (line.text ++ rest) = line.path?.toList ++ referencesFrom left rest := by
  rw [List.length_append] at enough
  cases line with
  | directive d =>
    obtain ⟨left, rfl⟩ : ∃ left, fuel = (List.replicate d.indent ' ').length + (left + 1) :=
      ⟨fuel - d.indent - 1, by simp [Line.text] at enough ⊢; omega⟩
    have solid : '/' ∉ List.replicate d.indent ' ' := by simp
    refine ⟨left, ?_, ?_⟩
    · simp [Line.text, Directive.body] at enough
      omega
    · rw [Line.text, List.append_assoc, referencesFrom_skip_solid solid,
        referencesFrom_found (directive?_body d ends.pathTail?)]
      rfl
  | other text unmarked =>
    refine ⟨fuel - text.length, ?_, ?_⟩
    · rw [Line.text] at enough
      omega
    · have skipped := referencesFrom_skip_unmarked unmarked ends.apart (fuel - text.length)
      rw [Nat.add_sub_cancel' (by rw [Line.text] at enough; omega)] at skipped
      exact skipped

theorem referencesFrom_page (first : Line) (rest : List (Break × Line)) {fuel : Nat}
    (enough : (pageText first rest).length < fuel) :
    referencesFrom fuel (pageText first rest) = (first :: rest.map Prod.snd).filterMap Line.path? := by
  induction rest generalizing first fuel with
  | nil =>
    rw [pageText, List.flatMap_nil] at enough ⊢
    obtain ⟨left, -, step⟩ := referencesFrom_line first .last enough
    rw [step, referencesFrom_nil, List.map_nil, List.filterMap_cons]
    cases first.path? <;> rfl
  | cons next rest ih =>
    obtain ⟨b, line⟩ := next
    rw [pageText_cons] at enough ⊢
    obtain ⟨left, more, step⟩ := referencesFrom_line first (.break b _) enough
    have solid : '/' ∉ b.text := by cases b <;> decide
    rw [List.length_append] at more
    have skipped := referencesFrom_skip_solid solid (pageText line rest) (left - b.text.length)
    rw [Nat.add_sub_cancel' (by omega)] at skipped
    rw [step, skipped, ih line (by omega), List.map_cons, List.filterMap_cons (a := first)]
    cases first.path? <;> rfl

end Lines

/-- The paths read from a text whose lines are directives or have no three slashes in a row are those of its
directives, in order. Lines are ended by a line feed, with or without a carriage return in front of it. -/
theorem referencePaths_lines (first : Line) (rest : List (Break × Line)) :
    referencePaths (String.ofList (pageText first rest)) = (first :: rest.map Prod.snd).filterMap Line.path? := by
  rw [referencePaths, String.toList_ofList]
  exact referencesFrom_page first rest (Nat.lt_succ_self _)

example : referencePaths
    "  ///<reference\tpath=\"///a\"/>b/>\" />\r\n// <reference path=\"c\" />\n/// <reference path=\"d\"/>" =
      ["///a\"/>b/>", "d"] := by
  decide +kernel

end DocLocale.Source
