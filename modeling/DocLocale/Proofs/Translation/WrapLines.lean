import DocLocale.Translation.Wrap
import Mathlib.Data.List.Basic

/-!
What wrapping does to the words of a line. A line is only broken at spaces and inside words that are too
wide, so its first word stays whole at the front of the first piece if it fits, and the later pieces hold
nothing but characters behind it.
-/

set_option autoImplicit false
set_option relaxedAutoImplicit false

namespace DocLocale.Translation

open Text

/-- A text that starts with a character that is not blank. -/
def Inked (cs : List Char) : Prop := ∃ c rest, cs = c :: rest ∧ isBlank c = false

section Trimming

variable {word : List Char}

theorem trimEnd_initial (cs : List Char) : trimEnd cs <+: cs := by
  rw [trimEnd, ← List.reverse_suffix, List.reverse_reverse]
  exact List.dropWhile_suffix _

/-- Trimming never reaches behind a word. -/
theorem trimEnd_append (inked : ∀ c ∈ word, isBlank c = false)
    (rest : List Char) : trimEnd (word ++ rest) = word ++ trimEnd rest := by
  have kept : word.reverse.dropWhile isBlank = word.reverse := by
    cases reversed : word.reverse with
    | nil => rfl
    | cons c cs =>
      have member : c ∈ word := by
        rw [← List.mem_reverse, reversed]
        exact List.mem_cons_self
      simp [inked c member]
  unfold trimEnd
  rw [List.reverse_append, List.dropWhile_append]
  split
  · rename_i empty
    have none : rest.reverse.dropWhile isBlank = [] := List.isEmpty_iff.mp empty
    rw [kept, List.reverse_reverse, none, List.reverse_nil, List.append_nil]
  · rw [List.reverse_append, List.reverse_reverse]

theorem trim_append (nonempty : word ≠ []) (inked : ∀ c ∈ word, isBlank c = false)
    (rest : List Char) : trim (word ++ rest) = word ++ trimEnd rest := by
  have start : trimStart (word ++ rest) = word ++ rest := by
    cases word with
    | nil => exact absurd rfl nonempty
    | cons c word => simp [trimStart, inked c List.mem_cons_self]
  rw [trim, start, trimEnd_append inked]

theorem infix_trim (cs : List Char) : trim cs <:+: cs :=
  (trimEnd_initial _).isInfix.trans (List.dropWhile_suffix _).isInfix

theorem mem_of_mem_trim {c : Char} {cs : List Char} (member : c ∈ trim cs) : c ∈ cs :=
  (infix_trim cs).mem member

theorem inked_trimStart (cs : List Char) : trimStart cs = [] ∨ Inked (trimStart cs) := by
  cases front : trimStart cs with
  | nil => exact .inl rfl
  | cons c rest =>
    have dropped := List.head?_dropWhile_not isBlank cs
    rw [← trimStart, front] at dropped
    exact .inr ⟨c, rest, rfl, dropped⟩

/-- A trimmed text is empty or starts with no blank. -/
theorem inked_trim (cs : List Char) : trim cs = [] ∨ Inked (trim cs) := by
  cases front : trim cs with
  | nil => exact Or.inl rfl
  | cons c rest =>
    obtain ⟨tail, whole⟩ := trimEnd_initial (trimStart cs)
    change trim cs ++ tail = trimStart cs at whole
    rw [front, List.cons_append] at whole
    rcases inked_trimStart cs with empty | ⟨d, more, chars, ink⟩
    · rw [empty] at whole
      cases whole
    · rw [chars] at whole
      exact Or.inr ⟨c, rest, rfl, (List.cons.inj whole).1 ▸ ink⟩

end Trimming

theorem eq_of_splitLastSpace {cs before after : List Char}
    (found : splitLastSpace cs = some (before, after)) : cs = before ++ ' ' :: after := by
  induction cs generalizing before after with
  | nil => cases found
  | cons c cs ih =>
    simp only [splitLastSpace] at found
    split at found
    · rename_i b a later
      obtain ⟨rfl, rfl⟩ := Prod.mk.inj (Option.some.inj found)
      rw [List.cons_append, ← ih later]
    · split at found
      · rename_i space
        obtain ⟨rfl, rfl⟩ := Prod.mk.inj (Option.some.inj found)
        rw [space, List.nil_append]
      · cases found

theorem notMem_of_splitLastSpace {cs : List Char} (missing : splitLastSpace cs = none) : ' ' ∉ cs := by
  induction cs with
  | nil => simp
  | cons c cs ih =>
    simp only [splitLastSpace] at missing
    split at missing
    · cases missing
    · rename_i later
      split at missing
      · cases missing
      · rename_i other
        exact List.not_mem_cons_of_ne_of_not_mem (Ne.symm other) (ih later)

theorem notMem_after_of_splitLastSpace {cs before after : List Char}
    (found : splitLastSpace cs = some (before, after)) : ' ' ∉ after := by
  induction cs generalizing before with
  | nil => cases found
  | cons c cs ih =>
    simp only [splitLastSpace] at found
    split at found
    · rename_i b a later
      obtain ⟨rfl, rfl⟩ := Prod.mk.inj (Option.some.inj found)
      exact ih later
    · rename_i later
      split at found
      · obtain ⟨rfl, rfl⟩ := Prod.mk.inj (Option.some.inj found)
        exact notMem_of_splitLastSpace later
      · cases found

/-- The widths of the characters of a text, summed. -/
def summedWidth : List Char → Nat
  | [] => 0
  | c :: cs => charWidth c + summedWidth cs

theorem summedWidth_append (cs ds : List Char) : summedWidth (cs ++ ds) = summedWidth cs + summedWidth ds := by
  induction cs with
  | nil => simp [summedWidth]
  | cons c cs ih => rw [List.cons_append, summedWidth, summedWidth, ih, Nat.add_assoc]

theorem summedWidth_le_of_initial {cs ds : List Char} (initial : cs <+: ds) : summedWidth cs ≤ summedWidth ds := by
  obtain ⟨rest, rfl⟩ := initial
  rw [summedWidth_append]
  exact Nat.le_add_right _ _

section Cutting

variable {limit : Nat} {word : List Char}

private theorem summedWidth_take_fitFrom {used : Nat} (room : used ≤ limit) (cs : List Char) :
    used + summedWidth (cs.take (fitFrom limit used cs)) ≤ limit := by
  induction cs generalizing used with
  | nil => simpa [summedWidth] using room
  | cons c cs ih =>
    rw [fitFrom]
    split
    · simpa [summedWidth] using room
    · rename_i fits
      have later := ih (Nat.le_of_not_lt fits)
      rw [List.take_succ_cons, summedWidth]
      omega

/-- What goes on a line is a single character or no wider than the limit, its characters taken one by one. -/
theorem summedWidth_take_fit (limit : Nat) (cs : List Char) :
    (cs.take (fit limit cs)).length ≤ 1 ∨ summedWidth (cs.take (fit limit cs)) ≤ limit := by
  by_cases some : fitFrom limit 0 cs = 0
  · left
    rw [fit, some]
    exact List.length_take_le 1 cs
  · right
    have within := summedWidth_take_fitFrom (Nat.zero_le limit) cs
    rwa [Nat.zero_add, ← Nat.max_eq_right (Nat.one_le_iff_ne_zero.mpr some)] at within

theorem length_le_fitFrom (used : Nat) (rest : List Char)
    (fits : used + summedWidth word ≤ limit) :
    word.length ≤ fitFrom limit used (word ++ rest) := by
  induction word generalizing used with
  | nil => exact Nat.zero_le _
  | cons c word ih =>
    rw [summedWidth] at fits
    have room : ¬ limit < used + charWidth c := by omega
    simp only [List.cons_append, fitFrom, room, if_false, List.length_cons]
    exact Nat.succ_le_succ (ih (used + charWidth c) (by omega))

/-- A cut leaves a word that fits at the front, and drops at most a space behind what it takes. -/
theorem cut_word (spaceless : ' ' ∉ word) {rest : List Char}
    (fits : word.length ≤ fit limit (word ++ rest)) :
    ∃ more gap, (cut limit (word ++ rest)).1 = word ++ more ∧
      rest = more ++ gap ++ (cut limit (word ++ rest)).2 := by
  have head : (word ++ rest).take (fit limit (word ++ rest)) =
      word ++ rest.take (fit limit (word ++ rest) - word.length) := by
    rw [List.take_append, List.take_of_length_le fits]
  have tail : (word ++ rest).drop (fit limit (word ++ rest)) =
      rest.drop (fit limit (word ++ rest) - word.length) := by
    rw [List.drop_append, List.drop_of_length_le fits, List.nil_append]
  unfold cut
  rw [head, tail]
  generalize fit limit (word ++ rest) - word.length = n
  have whole : rest = rest.take n ++ rest.drop n := (List.take_append_drop n rest).symm
  dsimp only
  split
  · rename_i after behind
    refine ⟨rest.take n, [' '], rfl, ?_⟩
    rw [List.append_assoc, List.singleton_append, ← behind, ← whole]
  · split
    · rename_i before after found
      -- The word has no space, so the last space of the line stands behind it.
      have halves := eq_of_splitLastSpace found
      rcases List.append_eq_append_iff.mp halves with ⟨more, front, back⟩ | ⟨more, front, back⟩
      · refine ⟨more, [' '], front, ?_⟩
        conv_lhs => rw [whole, back]
        simp
      · cases more with
        | nil =>
          refine ⟨[], [' '], by simpa using front.symm, ?_⟩
          conv_lhs => rw [whole]
          simp only [List.nil_append] at back
          simp [← back]
        | cons d more =>
          have space : d = ' ' := (List.cons.inj back).1.symm
          exact absurd (by simp [front, space]) spaceless
    · refine ⟨rest.take n, [], rfl, ?_⟩
      rw [List.append_nil, ← whole]

theorem length_le_fit (rest : List Char) (fits : summedWidth word ≤ limit) :
    word.length ≤ fit limit (word ++ rest) :=
  Nat.le_trans (length_le_fitFrom 0 rest (by simpa using fits)) (Nat.le_max_right _ _)

end Cutting

/-- The three ways to cut a line: at a space right behind what fits, at the last space of what fits, and behind
what fits if it has no space. -/
theorem cut_cases (limit : Nat) (cs : List Char) :
    (∃ head tail, cut limit cs = (head, tail) ∧ cs = head ++ ' ' :: tail ∧ cs.take (fit limit cs) = head) ∨
    (∃ before after rest, cut limit cs = (before, after ++ rest) ∧ cs = before ++ ' ' :: (after ++ rest) ∧
      cs.take (fit limit cs) = before ++ ' ' :: after ∧ ' ' ∉ after ∧ rest.head? ≠ some ' ') ∨
    (∃ head rest, cut limit cs = (head, rest) ∧ cs = head ++ rest ∧ cs.take (fit limit cs) = head ∧ ' ' ∉ head ∧
      rest.head? ≠ some ' ') := by
  have whole : cs.take (fit limit cs) ++ cs.drop (fit limit cs) = cs := List.take_append_drop _ _
  generalize head_eq : cs.take (fit limit cs) = head at whole
  generalize rest_eq : cs.drop (fit limit cs) = rest at whole
  by_cases space : ∃ tail, rest = ' ' :: tail
  · obtain ⟨tail, rfl⟩ := space
    exact .inl ⟨head, tail, by simp only [cut, head_eq, rest_eq], whole.symm, rfl⟩
  · have other : rest.head? ≠ some ' ' := fun first => space (List.head?_eq_some_iff.mp first)
    have unspaced : ∀ tail, rest = ' ' :: tail → False := fun tail same => space ⟨tail, same⟩
    cases found : splitLastSpace head with
    | none =>
      refine .inr (.inr ⟨head, rest, ?_, whole.symm, rfl, notMem_of_splitLastSpace found, other⟩)
      simp only [cut, head_eq, rest_eq, found]
    | some halves =>
      obtain ⟨before, after⟩ := halves
      have parts := eq_of_splitLastSpace found
      refine .inr (.inl ⟨before, after, rest, ?_, ?_, parts, notMem_after_of_splitLastSpace found, other⟩)
      · simp only [cut, head_eq, rest_eq, found]
      · rw [← whole, parts]
        simp

/-- A cut takes the front of a line and leaves its end. -/
theorem cut_ends (limit : Nat) (cs : List Char) :
    (cut limit cs).1 <+: cs ∧ (cut limit cs).2 <:+ cs := by
  rcases cut_cases limit cs with ⟨head, tail, halves, line, -⟩ | ⟨before, after, rest, halves, line, -⟩ |
    ⟨head, rest, halves, line, -⟩
  · rw [halves, line]
    exact ⟨List.prefix_append _ _, head ++ [' '], by simp⟩
  · rw [halves, line]
    exact ⟨List.prefix_append _ _, before ++ [' '], by simp⟩
  · rw [halves, line]
    exact ⟨List.prefix_append _ _, List.suffix_append _ _⟩

/-- Every piece of a wrapped line stands in the line as it is. -/
theorem infix_of_mem_wrapLine (limit : Nat) (cs : List Char) : ∀ piece ∈ wrapLine limit cs, piece <:+: cs := by
  fun_induction wrapLine limit cs with
  | case1 cs wide ih =>
    obtain ⟨front, back⟩ := cut_ends limit cs
    intro piece member
    rcases List.mem_cons.mp member with rfl | later
    · exact ((trimEnd_initial _).trans front).isInfix
    · exact (ih piece later).trans ((infix_trim _).trans back.isInfix)
  | case2 => simp
  | case3 cs narrow nonempty =>
    intro piece member
    obtain rfl := List.mem_singleton.mp member
    exact List.infix_rfl

/-- Every piece of a wrapped line starts with no blank and holds characters of the line. -/
theorem wrapLine_pieces (limit : Nat) {cs : List Char} (start : cs = [] ∨ Inked cs) :
    ∀ piece ∈ wrapLine limit cs, Inked piece ∧ piece ⊆ cs := by
  have inked : ∀ piece ∈ wrapLine limit cs, Inked piece := by
    fun_induction wrapLine limit cs with
    | case1 cs wide ih =>
      obtain ⟨c, rest, rfl, ink⟩ := start.resolve_left (ne_nil_of_lt_width wide)
      -- The first character is a word of its own that always fits.
      have spaceless : ' ' ∉ [c] := by
        simp only [List.mem_singleton]
        rintro rfl
        exact absurd ink (by decide)
      have fits : [c].length ≤ fit limit ([c] ++ rest) := Nat.le_max_left 1 _
      obtain ⟨more, gap, taken, -⟩ := cut_word spaceless fits
      have inked : ∀ d ∈ [c], isBlank d = false := by simpa using ink
      intro piece member
      rcases List.mem_cons.mp member with rfl | later
      · rw [List.singleton_append] at taken
        rw [taken, trimEnd_append inked]
        exact ⟨c, trimEnd more, rfl, ink⟩
      · exact ih (inked_trim _) piece later
    | case2 => simp
    | case3 cs narrow nonempty =>
      intro piece member
      rw [List.mem_singleton.mp member]
      exact start.resolve_left nonempty
  exact fun piece member => ⟨inked piece member, (infix_of_mem_wrapLine limit cs piece member).subset⟩

/-- The first word of a line stays whole if it fits, and what stood behind it follows. -/
theorem wrapLine_word {limit : Nat} {word rest : List Char} (nonempty : word ≠ [])
    (inked : ∀ c ∈ word, isBlank c = false) (fits : word.length ≤ fit limit (word ++ rest)) :
    ∃ more others, wrapLine limit (word ++ rest) = (word ++ more) :: others ∧ more <+: rest ∧
      ∀ piece ∈ others, Inked piece ∧ piece ⊆ rest := by
  have spaceless : ' ' ∉ word := fun space => absurd (inked ' ' space) (by decide)
  rw [wrapLine]
  split
  · obtain ⟨more, gap, taken, left⟩ := cut_word spaceless fits
    rw [taken, trimEnd_append inked]
    refine ⟨_, _, rfl, ?_, ?_⟩
    · rw [left, List.append_assoc]
      exact (trimEnd_initial more).trans (List.prefix_append _ _)
    · intro piece member
      obtain ⟨ink, within⟩ := wrapLine_pieces limit (inked_trim _) piece member
      refine ⟨ink, fun d present => ?_⟩
      have last := mem_of_mem_trim (within present)
      rw [left]
      simp [last]
  · refine ⟨rest, [], ?_, List.prefix_rfl, by simp⟩
    simp [nonempty]

end DocLocale.Translation
