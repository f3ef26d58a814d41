import DocLocale.Proofs.Text.Swelling
import Mathlib.Algebra.Ring.Nat

/-!
Texts that are as wide as their characters one by one. In a text of characters that each take one or two columns, only
neighbours can share columns: letters that form a ligature, and an emoji in front of a skin tone. Main statement: where
no two neighbours do, the width of the text is the sum of the widths of its characters.
-/

set_option autoImplicit false
set_option relaxedAutoImplicit false

namespace DocLocale.Text

/-- A character that takes one or two columns. -/
def IsPrinted (c : Char) : Prop := charWidth c = 1 ∨ charWidth c = 2

instance (c : Char) : Decidable (IsPrinted c) := inferInstanceAs (Decidable (_ ∨ _))

/-- Whether a context merges with the character in front of it. Indicators form flags, but each keeps its column. -/
def Ahead.merges (ahead : Ahead) (c : Char) : Bool :=
  match ahead with
  | .merging letter joined => (mergeStep letter joined c).isSome
  | .indicator | .indicators => false
  | ahead => (emojiStep ahead c).isSome

/-- Two characters that keep their own columns side by side. -/
def Apart (c d : Char) : Prop := (ownWidth d).2.merges c = false

instance (c d : Char) : Decidable (Apart c d) := inferInstanceAs (Decidable (_ = _))

section Printed

/-- The runs of characters that merging letters look through. -/
private def transparentRuns : List (Nat × Nat) :=
  [(0x34F, 0x350), (0x17B4, 0x17B6), (0x180B, 0x180E), (0x180F, 0x1810), (0x200D, 0x200E), (0xFE00, 0xFE10),
    (0xE0100, 0xE01F0)]

private theorem transparent_covered : zeroWidth.Paired ∧ Ranges.uncovered transparentRuns zeroWidth = [] := by
  decide +kernel

variable {c : Char}

private theorem tableWidth_of_isTransparent (transparent : isTransparent c = true) : tableWidth c = 0 := by
  simp only [isTransparent, inRun, List.contains_eq_mem, List.mem_cons, List.not_mem_nil, or_false, Bool.or_eq_true,
    Bool.and_eq_true, decide_eq_true_eq] at transparent
  have held : ∃ run ∈ transparentRuns, run.1 ≤ c.toNat ∧ c.toNat < run.2 := by
    simp only [transparentRuns, List.exists_mem_cons_iff, List.not_mem_nil, false_and, exists_false, or_false]
    omega
  have zero := Ranges.mem_of_uncovered transparent_covered.1 transparent_covered.2 held
  have other : (c.toNat == 0x17D8) = false := by
    rw [beq_eq_false_iff_ne]
    omega
  rw [tableWidth, if_neg (by omega), other, if_neg Bool.false_ne_true, if_pos zero]

theorem IsPrinted.pos (printed : IsPrinted c) : 0 < charWidth c := by
  rcases printed with one | two <;> omega

theorem IsPrinted.not_isControl (printed : IsPrinted c) : isControl c = false := by
  by_contra control
  rw [Bool.not_eq_false] at control
  have pos := printed.pos
  rw [charWidth, if_pos control] at pos
  exact absurd pos (Nat.lt_irrefl 0)

theorem IsPrinted.tableWidth_eq (printed : IsPrinted c) : tableWidth c = charWidth c := by
  rw [charWidth, printed.not_isControl, if_neg Bool.false_ne_true]

private theorem IsPrinted.not_isTransparent (printed : IsPrinted c) : isTransparent c = false := by
  by_contra transparent
  rw [Bool.not_eq_false] at transparent
  have pos := printed.pos
  rw [← printed.tableWidth_eq, tableWidth_of_isTransparent transparent] at pos
  exact absurd pos (Nat.lt_irrefl 0)

/-- The selectors and the joiner are not printed. -/
private theorem IsPrinted.toNat_ne (printed : IsPrinted c) :
    c.toNat ≠ 0xFE0F ∧ c.toNat ≠ 0xFE0E ∧ c.toNat ≠ 0x200D := by
  have visible := printed.not_isTransparent
  refine ⟨?_, ?_, ?_⟩
  all_goals
    intro same
    simp [isTransparent, inRun, same] at visible

end Printed

/-- A context that a character leaves when it has taken its own columns. -/
structure LeftBy (c : Char) (context : Following) : Prop where
  unselected : context.selector = .none
  ahead : context.ahead = .plain ∨ context.ahead = (ownWidth c).2 ∨ context.ahead = .indicators

theorem LeftBy.not_merges {c d : Char} {context : Following} (left : LeftBy d context) (apart : Apart c d) :
    context.ahead.merges c = false := by
  rcases left.ahead with plain | own | flag
  · rw [plain]
    rfl
  · rw [own]
    exact apart
  · rw [flag]
    rfl

/-- A step over `c` that takes the columns of `c` and no others. -/
def Whole (c : Char) (step : Int × Following) : Prop := step.1 = charWidth c ∧ LeftBy c step.2

section Steps

variable {c : Char} (printed : IsPrinted c)
include printed

private theorem whole_own : Whole c ((ownWidth c).1, ⟨(ownWidth c).2, .none⟩) :=
  ⟨by rw [ownWidth_fst, printed.tableWidth_eq], rfl, .inr (.inl rfl)⟩

private theorem whole_small (small : c.toNat ≤ 0xA0) : Whole c (1, ⟨.plain, .none⟩) :=
  ⟨by rw [← printed.tableWidth_eq, tableWidth_of_small small]; rfl, rfl, .inl rfl⟩

private theorem whole_indicator (indicator : isIndicator c = true) : Whole c (1, ⟨.indicators, .none⟩) :=
  ⟨by rw [← printed.tableWidth_eq, tableWidth_of_isIndicator indicator]; rfl, rfl, .inr (.inr rfl)⟩

/-- In front of indicators a character is a further indicator or keeps to itself. -/
private theorem whole_emojiStep {ahead : Ahead} (flag : ahead = .indicator ∨ ahead = .indicators) :
    Whole c (match emojiStep ahead c with
      | some (columns, ahead) => (columns, ⟨ahead, .none⟩)
      | none => ((ownWidth c).1, ⟨(ownWidth c).2, .none⟩)) := by
  by_cases indicator : isIndicator c = true
  · have step : emojiStep ahead c = some (1, .indicators) := by
      rcases flag with rfl | rfl <;> rw [emojiStep, if_pos indicator]
    rw [step]
    exact whole_indicator printed indicator
  · have joiner : ¬(c.toNat == 0x200D) = true := by
      rw [beq_iff_eq]
      exact printed.toNat_ne.2.2
    have step : emojiStep ahead c = none := by
      rcases flag with rfl | rfl
      · rw [emojiStep, if_neg indicator]
      · rw [emojiStep, if_neg indicator, if_neg joiner]
    rw [step]
    exact whole_own printed

/-- One step back over a printed character in front of a context that does not merge with it takes its own columns. -/
theorem whole_widthBefore {next : Following} (unselected : next.selector = .none)
    (apart : next.ahead.merges c = false) : Whole c (widthBefore c next) := by
  obtain ⟨emoji, text, joiner⟩ := printed.toNat_ne
  rw [← beq_eq_false_iff_ne] at emoji text joiner
  have visible := printed.not_isTransparent
  have own := whole_own printed
  obtain ⟨ahead, selector⟩ := next
  subst unselected
  unfold widthBefore
  simp only [reduceCtorEq, decide_false, Bool.false_and, Bool.false_eq_true, if_false, emoji, text, joiner, visible]
  refine iteInduction (fun small => ?_) fun _ => ?_
  · have feed : ¬(c == '\n') = true := fun same => by
      rw [eq_of_beq same] at printed
      exact absurd printed (by decide)
    have carriage : ¬(c == '\r' && decide (ahead = .lineFeed)) = true := fun same => by
      rw [Bool.and_eq_true] at same
      rw [eq_of_beq same.1] at printed
      exact absurd printed (by decide)
    rw [if_neg feed, if_neg carriage]
    exact whole_small printed small
  · cases ahead
    case indicator => exact whole_emojiStep printed (.inl rfl)
    case indicators => exact whole_emojiStep printed (.inr rfl)
    case plain | lineFeed | joinedKeycap => exact own
    all_goals
      have alone := Option.isNone_iff_eq_none.mp (Option.isSome_eq_false_iff.mp apart)
      dsimp only
      rw [alone]
      exact own

end Steps

/-- A text of printed characters of which no two neighbours merge takes their columns and no others. -/
private theorem measure_of_isChain {c : Char} {cs : List Char} (printed : ∀ d ∈ c :: cs, IsPrinted d)
    (apart : (c :: cs).IsChain Apart) :
    (measure (c :: cs)).1 = ((c :: cs).map charWidth).sum ∧ LeftBy c (measure (c :: cs)).2 := by
  induction cs generalizing c with
  | nil =>
    have whole : Whole c (widthBefore c ⟨.plain, .none⟩) := whole_widthBefore (printed c (.head _)) rfl rfl
    exact ⟨by simpa [measure] using whole.1, whole.2⟩
  | cons d cs ih =>
    rw [List.isChain_cons_cons] at apart
    obtain ⟨total, left⟩ := ih (fun e member => printed e (.tail _ member)) apart.2
    have whole : Whole c (widthBefore c (measure (d :: cs)).2) :=
      whole_widthBefore (printed c (.head _)) left.unselected (left.not_merges apart.1)
    refine ⟨?_, whole.2⟩
    calc (measure (c :: d :: cs)).1
      _ = (measure (d :: cs)).1 + (widthBefore c (measure (d :: cs)).2).1 := rfl
      _ = ((c :: d :: cs).map charWidth).sum := by
        rw [total, whole.1, List.map_cons (a := c), List.sum_cons, Int.natCast_add, Int.add_comm]

section Texts

variable {cs ds : List Char}

/-- A text of printed characters of which no two neighbours merge is as wide as its characters one by one. -/
theorem width_of_isChain (printed : ∀ c ∈ cs, IsPrinted c) (apart : cs.IsChain Apart) :
    width cs = (cs.map charWidth).sum := by
  cases cs with
  | nil => rfl
  | cons c cs => rw [width, (measure_of_isChain printed apart).1, Int.toNat_natCast]

theorem width_append_of_isChain (printed : ∀ c ∈ cs ++ ds, IsPrinted c) (apart : (cs ++ ds).IsChain Apart) :
    width (cs ++ ds) = width cs + width ds := by
  have front : ∀ c ∈ cs, IsPrinted c := fun c member => printed c (List.mem_append_left _ member)
  have rest : ∀ c ∈ ds, IsPrinted c := fun c member => printed c (List.mem_append_right _ member)
  rw [width_of_isChain printed apart, width_of_isChain front apart.left_of_append,
    width_of_isChain rest apart.right_of_append, List.map_append, List.sum_append]

theorem width_eq_zero_iff_of_isChain (printed : ∀ c ∈ cs, IsPrinted c) (apart : cs.IsChain Apart) :
    width cs = 0 ↔ cs = [] := by
  rw [width_of_isChain printed apart]
  cases cs with
  | nil => exact iff_of_true rfl rfl
  | cons c cs =>
    have pos := (printed c (.head _)).pos
    rw [List.map_cons, List.sum_cons]
    exact iff_of_false (by omega) (List.cons_ne_nil c cs)

end Texts

end DocLocale.Text
