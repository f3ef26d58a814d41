import DocLocale.Proofs.Translation.Lossless
import Mathlib.Data.List.Infix

/-!
Wrapping breaks lines as late as possible. What fits on a line is maximal, so whatever reaches further is too wide.
Main statement: where the width of a text is the sum of the widths of its characters, each piece together with the
blanks and the word behind it is wider than the limit, and a word is broken only if it does not fit on a line of its
own.
-/

set_option autoImplicit false
set_option relaxedAutoImplicit false

namespace DocLocale.Translation

open Text

variable {limit : Nat}

section Widths

/-- What reaches beyond the characters that fit is too wide. -/
private theorem lt_of_fitFrom_lt {used : Nat} {part cs : List Char} (initial : part <+: cs)
    (longer : fitFrom limit used cs < part.length) : limit < used + summedWidth part := by
  induction cs generalizing part used with
  | nil =>
    rw [List.prefix_nil.mp initial] at longer
    cases longer
  | cons c cs ih =>
    cases part with
    | nil => cases longer
    | cons d part =>
      obtain ⟨rfl, shorter⟩ := List.cons_prefix_cons.mp initial
      rw [fitFrom] at longer
      rw [summedWidth]
      split at longer
      · omega
      · have later := ih shorter (Nat.lt_of_succ_lt_succ longer)
        omega

theorem lt_summedWidth_of_fit_lt {part cs : List Char} (initial : part <+: cs)
    (longer : fit limit cs < part.length) : limit < summedWidth part := by
  have beyond : limit < 0 + summedWidth part :=
    lt_of_fitFrom_lt initial (Nat.lt_of_le_of_lt (Nat.le_max_right _ _) longer)
  rwa [Nat.zero_add] at beyond

end Widths

section Blanks

theorem exists_trimEnd_append (cs : List Char) :
    ∃ blanks, cs = trimEnd cs ++ blanks ∧ ∀ c ∈ blanks, isBlank c = true := by
  refine ⟨(cs.reverse.takeWhile isBlank).reverse, ?_, fun c member => ?_⟩
  · rw [trimEnd, ← List.reverse_append, List.takeWhile_append_dropWhile, List.reverse_reverse]
  · exact List.mem_takeWhile_imp (List.mem_reverse.mp member)

theorem exists_trim_append (cs : List Char) :
    ∃ leading trailing, cs = leading ++ trim cs ++ trailing ∧ ∀ c ∈ leading, isBlank c = true := by
  obtain ⟨trailing, behind, -⟩ := exists_trimEnd_append (trimStart cs)
  refine ⟨cs.takeWhile isBlank, trailing, ?_, fun c => List.mem_takeWhile_imp⟩
  rw [List.append_assoc, trim, ← behind]
  exact List.takeWhile_append_dropWhile.symm

/-- The end of a text that ends with ink has no blanks to trim behind it. -/
theorem trimEnd_of_final {cs tail : List Char} (back : Inked cs.reverse) (final : tail <:+ cs) :
    trimEnd tail = tail := by
  obtain ⟨c, rest, reversed, ink⟩ := back
  have initial := List.reverse_prefix.mpr final
  rw [reversed] at initial
  cases last : tail.reverse with
  | nil => rw [List.reverse_eq_nil_iff.mp last]; rfl
  | cons d more =>
    rw [last] at initial
    obtain ⟨rfl, -⟩ := List.cons_prefix_cons.mp initial
    rw [trimEnd, last, List.dropWhile_cons_of_neg (by simp [ink]), ← last, List.reverse_reverse]

/-- The leading blanks of a text and the word behind them reach beyond any front without spaces, if no space
follows it. -/
private theorem length_lt_blanks_word {front : List Char} (spaceless : ' ' ∉ front) {d : Char} (next : d ≠ ' ')
    (more : List Char) :
    front.length < ((front ++ d :: more).takeWhile isBlank).length +
      ((trimStart (front ++ d :: more)).takeWhile (· ≠ ' ')).length := by
  induction front with
  | nil =>
    by_cases blank : isBlank d = true
    · rw [List.nil_append, List.takeWhile_cons_of_pos blank, List.length_cons, List.length_nil]
      omega
    · simp [trimStart, blank, next]
  | cons c front ih =>
    by_cases blank : isBlank c = true
    · have shifted := ih (List.not_mem_of_not_mem_cons spaceless)
      simp only [List.cons_append, List.takeWhile_cons_of_pos blank, List.length_cons, trimStart,
        List.dropWhile_cons_of_pos blank] at shifted ⊢
      omega
    · have solid : ∀ x ∈ c :: front, decide (x ≠ ' ') = true := by
        intro x member
        rw [decide_eq_true_eq]
        rintro rfl
        exact spaceless member
      have start : trimStart (c :: front ++ d :: more) = c :: front ++ d :: more := by simp [trimStart, blank]
      rw [start, List.takeWhile_append_of_pos solid, List.takeWhile_cons_of_pos (by simpa using next),
        List.length_append, List.length_cons (a := d)]
      omega

end Blanks

/-- A break between a piece and the rest of a line, with the blanks of the gap between them, that could not have been
made later: behind a gap stands a word that does not fit any more, and without a gap not even one more character of the
word that is broken fits. -/
structure Forced (limit : Nat) (piece gap rest : List Char) : Prop where
  blank : ∀ c ∈ gap, isBlank c = true
  soft : gap ≠ [] → limit < summedWidth (piece ++ gap ++ rest.takeWhile (· ≠ ' '))
  hard : gap = [] → ' ' ∉ piece ∧ ∃ c more, rest = c :: more ∧ c ≠ ' ' ∧ limit < summedWidth (piece ++ [c])

private theorem takeWhile_initial (p : Char → Bool) (cs more : List Char) :
    cs.takeWhile p <+: (cs ++ more).takeWhile p := by
  rw [List.takeWhile_append]
  split
  · exact (List.takeWhile_prefix p).trans (List.prefix_append _ _)
  · exact List.prefix_rfl

/-- More text at the end of the line changes nothing. -/
theorem Forced.append {piece gap rest : List Char} (forced : Forced limit piece gap rest) (more : List Char) :
    Forced limit piece gap (rest ++ more) where
  blank := forced.blank
  soft := by
    intro gapped
    refine Nat.lt_of_lt_of_le (forced.soft gapped) (summedWidth_le_of_initial ?_)
    exact (List.prefix_append_right_inj _).mpr (takeWhile_initial _ rest more)
  hard := by
    intro gapless
    obtain ⟨spaceless, c, behind, rfl, next, wide⟩ := forced.hard gapless
    exact ⟨spaceless, c, behind ++ more, rfl, next, wide⟩

/-- A word is broken only if it does not fit on a line of its own. -/
theorem Forced.broken_word {piece rest : List Char} (forced : Forced limit piece [] rest) :
    limit < summedWidth ((piece ++ rest).takeWhile (· ≠ ' ')) := by
  obtain ⟨spaceless, c, more, rfl, next, wide⟩ := forced.hard rfl
  have solid : ∀ d ∈ piece ++ [c], decide (d ≠ ' ') = true := by
    intro d member
    rw [decide_eq_true_eq]
    rintro rfl
    rcases List.mem_append.mp member with present | last
    · exact spaceless present
    · exact next (List.mem_singleton.mp last).symm
  refine Nat.lt_of_lt_of_le wide (summedWidth_le_of_initial ?_)
  rw [List.append_cons piece c more, List.takeWhile_append_of_pos solid]
  exact List.prefix_append _ _

section Breaks

variable {cs : List Char}

/-- A break between two parts of a line is forced if the leading blanks of the second part and the word behind them
reach beyond what fits. -/
private theorem forced_of_reach {before gap after : List Char} (line : cs = before ++ gap ++ after)
    (back : Inked cs.reverse) (blank : ∀ c ∈ gap, isBlank c = true)
    (reach : fit limit cs < before.length + gap.length +
      ((after.takeWhile isBlank).length + ((trimStart after).takeWhile (· ≠ ' ')).length))
    (solid : gap = [] → ' ' ∉ before ∧ fit limit cs = before.length ∧ ∃ c more, after = c :: more ∧ c ≠ ' ') :
    ∃ gap, cs = trimEnd before ++ gap ++ trim after ∧ Forced limit (trimEnd before) gap (trim after) := by
  obtain ⟨trailing, front, trailing_blank⟩ := exists_trimEnd_append before
  have final : trimStart after <:+ cs := (List.dropWhile_suffix _).trans ⟨before ++ gap, line.symm⟩
  have trimmed : trim after = trimStart after := trimEnd_of_final back final
  have leading : after = after.takeWhile isBlank ++ trimStart after := List.takeWhile_append_dropWhile.symm
  have whole : cs = trimEnd before ++ (trailing ++ gap ++ after.takeWhile isBlank) ++ trimStart after := by
    conv_lhs => rw [line, front, leading]
    simp
  rw [trimmed]
  refine ⟨_, whole, ?_, fun _ => ?_, fun empty => ?_⟩
  · intro c member
    simp only [List.mem_append] at member
    rcases member with (inside | between) | leads
    · exact trailing_blank c inside
    · exact blank c between
    · exact List.mem_takeWhile_imp leads
  · refine lt_summedWidth_of_fit_lt (?_ : _ <+: cs) ?_
    · conv_rhs => rw [whole]
      exact (List.prefix_append_right_inj _).mpr (List.takeWhile_prefix _)
    · have size := congrArg List.length front
      simp only [List.length_append] at size ⊢
      omega
  · -- With nothing between the parts, nothing was trimmed from them either.
    simp only [List.append_eq_nil_iff] at empty
    obtain ⟨⟨rfl, rfl⟩, none⟩ := empty
    obtain ⟨spaceless, full, c, more, rfl, next⟩ := solid rfl
    rw [List.append_nil] at front
    rw [none, List.nil_append] at leading
    rw [← front, ← leading]
    have initial : before ++ [c] <+: cs := ⟨more, by simp [line]⟩
    exact ⟨spaceless, c, more, rfl, next, lt_summedWidth_of_fit_lt initial (by simp [full])⟩

private theorem fit_eq_length {head rest : List Char} (taken : cs.take (fit limit cs) = head)
    (line : cs = head ++ rest) (more : rest ≠ []) : fit limit cs = head.length := by
  have size := congrArg List.length taken
  have total := congrArg List.length line
  have positive := List.length_pos_iff.mpr more
  rw [List.length_take] at size
  rw [List.length_append] at total
  omega

/-- The break that a cut makes is forced, if a piece follows it. -/
theorem cut_forced (snug : Snug cs) (wide : limit < summedWidth cs) (later : trim (cut limit cs).2 ≠ []) :
    ∃ gap, cs = trimEnd (cut limit cs).1 ++ gap ++ trim (cut limit cs).2 ∧
      Forced limit (trimEnd (cut limit cs).1) gap (trim (cut limit cs).2) := by
  have space : ∀ c ∈ [' '], isBlank c = true := by
    intro c member
    rw [List.mem_singleton.mp member]
    decide
  have unspaced : ∀ {c : Char} {more : List Char}, (c :: more).head? ≠ some ' ' → c ≠ ' ' := by
    rintro c more other rfl
    exact other rfl
  rcases cut_cases limit cs with ⟨head, tail, halves, line, taken⟩ |
    ⟨before, after, rest, halves, line, taken, spaceless, other⟩ | ⟨head, rest, halves, line, taken, spaceless, other⟩
  · rw [halves]
    have full := fit_eq_length taken line (List.cons_ne_nil _ _)
    have parts : cs = head ++ [' '] ++ tail := by simp [line]
    refine forced_of_reach parts snug.back space ?_ (by simp)
    simp only [full, List.length_singleton]
    omega
  · rw [halves]
    have fitting : cs = (before ++ ' ' :: after) ++ rest := by simp [line]
    cases rest with
    | nil =>
      -- The whole line would fit.
      rw [List.append_nil] at fitting
      exfalso
      rcases summedWidth_take_fit limit cs with short | fits
      · rw [taken, List.length_append, List.length_cons] at short
        obtain rfl : before = [] := List.length_eq_zero_iff.mp (by omega)
        obtain ⟨c, tail, chars, ink⟩ := snug.front
        rw [line, List.nil_append] at chars
        rw [← (List.cons.inj chars).1] at ink
        exact absurd ink (by decide)
      · rw [taken, ← fitting] at fits
        exact Nat.not_lt.mpr fits wide
    | cons d more =>
      have full := fit_eq_length taken fitting (List.cons_ne_nil _ _)
      have reach := length_lt_blanks_word spaceless (unspaced other) more
      have parts : cs = before ++ [' '] ++ (after ++ d :: more) := by simp [line]
      refine forced_of_reach parts snug.back space ?_ (by simp)
      simp only [full, List.length_append, List.length_cons]
      omega
  · rw [halves] at later ⊢
    cases rest with
    | nil => exact absurd rfl later
    | cons d more =>
      have full := fit_eq_length taken line (List.cons_ne_nil _ _)
      have reach := length_lt_blanks_word List.not_mem_nil (unspaced other) more
      have parts : cs = head ++ [] ++ d :: more := by simp [line]
      refine forced_of_reach parts snug.back (by simp) ?_ fun _ => ⟨spaceless, full, d, more, rfl, unspaced other⟩
      simp only [full, List.length_nil, List.nil_append] at reach ⊢
      omega

end Breaks

section Runs

/-- Texts in which the width of every part is the sum of the widths of its characters. -/
def Additive (cs : List Char) : Prop := ∀ part, part <:+: cs → width part = summedWidth part

theorem Additive.of_infix {cs part : List Char} (additive : Additive cs) (inside : part <:+: cs) : Additive part :=
  fun inner within => additive inner (within.trans inside)

theorem wrapLine_nil (limit : Nat) : wrapLine limit [] = [] := by
  rw [wrapLine, if_neg (fun wide => ne_nil_of_lt_width wide rfl), if_pos rfl]

theorem initial_of_wrapLine {cs first : List Char} {later : List (List Char)}
    (laid : wrapLine limit cs = first :: later) : first <+: cs := by
  rw [wrapLine] at laid
  split at laid
  · obtain ⟨rfl, -⟩ := List.cons.inj laid
    exact (trimEnd_initial _).trans (cut_ends limit cs).1
  · split at laid
    · cases laid
    · obtain ⟨rfl, -⟩ := List.cons.inj laid
      exact List.prefix_rfl

/-- Between two pieces of a trimmed line that follow each other stands a forced break, and the pieces before it hold the
ink of what the line has before it. -/
theorem wrapLine_forced {cs : List Char} (trimmed : cs = [] ∨ Snug cs) (additive : Additive cs)
    {front back : List (List Char)} {piece next : List Char}
    (laid : wrapLine limit cs = front ++ piece :: next :: back) :
    ∃ done gap rest, cs = done ++ piece ++ gap ++ rest ∧ ink done = ink front.flatten ∧ next <+: rest ∧
      Forced limit piece gap rest := by
  fun_induction wrapLine limit cs generalizing front with
  | case1 cs wide ih =>
    have summed : limit < summedWidth cs := additive cs List.infix_rfl ▸ wide
    have forced := cut_forced (trimmed.resolve_left (ne_nil_of_lt_width wide)) summed
    have later : ∀ {pieces : List (List Char)}, pieces ≠ [] →
        wrapLine limit (trim (cut limit cs).2) = pieces → trim (cut limit cs).2 ≠ [] := by
      rintro pieces nonempty rfl empty
      exact nonempty (empty ▸ wrapLine_nil limit)
    cases front with
    | nil =>
      obtain ⟨rfl, behind⟩ := List.cons.inj laid
      obtain ⟨gap, line, forced⟩ := forced (later (List.cons_ne_nil _ _) behind)
      exact ⟨[], gap, _, line, rfl, initial_of_wrapLine behind, forced⟩
    | cons first front =>
      obtain ⟨rfl, behind⟩ := List.cons.inj laid
      obtain ⟨gap, line, forced⟩ := forced (later (by simp) behind)
      have inside : trim (cut limit cs).2 <:+: cs := (infix_trim _).trans (cut_ends limit cs).2.isInfix
      obtain ⟨done, gap', rest, line', same, initial, forced'⟩ :=
        ih (snug_trim _) (additive.of_infix inside) behind
      refine ⟨trimEnd (cut limit cs).1 ++ gap ++ done, gap', rest, ?_, ?_, initial, forced'⟩
      · conv_lhs => rw [line, line']
        simp
      · rw [ink_append, ink_append, ink_eq_nil forced.blank, List.append_nil, same, List.flatten_cons, ink_append]
  | case2 => simp at laid
  | case3 cs narrow nonempty =>
    have size := congrArg List.length laid
    simp only [List.length_append, List.length_cons, List.length_nil] at size
    omega

end Runs

/-- On a line whose width is the sum of the widths of its characters, two pieces that follow each other stand in the
line with a gap of blanks between them, behind the ink of the pieces before them. If there is a gap, the next word would
not have fitted; if there is none, the piece has no space, one more character would not have fitted, and neither would
the broken word on a line of its own. -/
theorem wrap_greedy {limit : Nat} {line : String} (additive : Additive line.toList) {front back : List String}
    {piece next : String} (laid : wrap limit [line] = front ++ piece :: next :: back) :
    ∃ done gap rest, line.toList = done ++ piece.toList ++ gap ++ rest ∧
      ink done = ink (front.flatMap String.toList) ∧ next.toList <+: rest ∧ (∀ c ∈ gap, isBlank c = true) ∧
      (gap ≠ [] → limit < width (piece.toList ++ gap ++ rest.takeWhile (· ≠ ' '))) ∧
      (gap = [] → ' ' ∉ piece.toList ∧ (∃ c, rest.head? = some c ∧ limit < width (piece.toList ++ [c])) ∧
        limit < width ((piece.toList ++ rest).takeWhile (· ≠ ' '))) := by
  have pieces : wrapLine limit (trim line.toList) =
      front.map String.toList ++ piece.toList :: next.toList :: back.map String.toList := by
    rw [← toList_wrap_line, laid]
    simp
  obtain ⟨leading, trailing, whole, blank⟩ := exists_trim_append line.toList
  obtain ⟨done, gap, rest, trimmed, same, initial, forced⟩ :=
    wrapLine_forced (snug_trim _) (additive.of_infix (infix_trim _)) pieces
  have line_eq : line.toList = leading ++ done ++ piece.toList ++ gap ++ (rest ++ trailing) := by
    conv_lhs => rw [whole, trimmed]
    simp
  have forced := forced.append trailing
  have inside : ∀ {part}, part <+: piece.toList ++ gap ++ (rest ++ trailing) → width part = summedWidth part := by
    intro part initial
    refine additive part (initial.isInfix.trans ⟨leading ++ done, [], ?_⟩)
    rw [line_eq]
    simp
  refine ⟨leading ++ done, gap, rest ++ trailing, line_eq, ?_, initial.trans (List.prefix_append _ _), forced.blank,
    fun gapped => ?_, fun gapless => ?_⟩
  · rw [ink_append, ink_eq_nil blank, same, List.nil_append, List.flatMap_def]
  · rw [inside ((List.prefix_append_right_inj _).mpr (List.takeWhile_prefix _))]
    exact forced.soft gapped
  · subst gapless
    obtain ⟨spaceless, c, more, behind, next, wide⟩ := forced.hard rfl
    refine ⟨spaceless, ⟨c, by rw [behind, List.head?_cons], ?_⟩, ?_⟩
    · rw [inside ⟨more, by simp [behind]⟩]
      exact wide
    · rw [inside (by rw [List.append_nil]; exact List.takeWhile_prefix _)]
      exact forced.broken_word

/-- Wide and narrow words, two spaces at the limit, and a word that does not fit on a line. -/
private def mixedLine : String := " 宽 b  abcdefg\u3000x "

private theorem additive_mixedLine : Additive mixedLine.toList := by
  have checked : ∀ final ∈ mixedLine.toList.tails, ∀ part ∈ final.inits, width part = summedWidth part := by
    decide +kernel
  intro part inside
  obtain ⟨final, initial, ends⟩ := List.infix_iff_prefix_suffix.mp inside
  exact checked final ((List.mem_tails _ _).mpr ends) part ((List.mem_inits _ _).mpr initial)

theorem wrap_greedy_mixedLine :
    Additive mixedLine.toList ∧ wrap 5 [mixedLine] = ["宽 b", "abcde", "fg\u3000x"] ∧
      (∃ done gap rest, mixedLine.toList = done ++ "宽 b".toList ++ gap ++ rest ∧ ink done = [] ∧
        "abcde".toList <+: rest ∧ (gap ≠ [] → 5 < width ("宽 b".toList ++ gap ++ rest.takeWhile (· ≠ ' ')))) ∧
      ∃ done gap rest, mixedLine.toList = done ++ "abcde".toList ++ gap ++ rest ∧ ink done = "宽b".toList ∧
        "fg\u3000x".toList <+: rest ∧
        (gap = [] → ' ' ∉ "abcde".toList ∧ ∃ c, rest.head? = some c ∧ 5 < width ("abcde".toList ++ [c])) := by
  have laid : wrap 5 [mixedLine] = ["宽 b", "abcde", "fg\u3000x"] := by decide +kernel
  have first : wrap 5 [mixedLine] = [] ++ "宽 b" :: "abcde" :: ["fg\u3000x"] := laid
  have second : wrap 5 [mixedLine] = ["宽 b"] ++ "abcde" :: "fg\u3000x" :: [] := laid
  obtain ⟨done, gap, rest, line, same, initial, -, soft, -⟩ := wrap_greedy additive_mixedLine first
  obtain ⟨done', gap', rest', line', same', initial', -, -, hard⟩ := wrap_greedy additive_mixedLine second
  exact ⟨additive_mixedLine, laid, ⟨done, gap, rest, line, same, initial, soft⟩, done', gap', rest', line', same',
    initial', fun gapless => ⟨(hard gapless).1, (hard gapless).2.1⟩⟩

end DocLocale.Translation
