import DocLocale.Proofs.Text.Runs
import DocLocale.Text.Width

/-!
How much wider a text can be than its characters one by one. Only control characters and the emoji selector make a
text wider, by one column each; merging letters, flags and joined emoji make it narrower. The text is measured from its
end, and each context on the way holds a credit: columns that the characters passed have paid for and not yet taken.
-/

set_option autoImplicit false
set_option relaxedAutoImplicit false

namespace DocLocale.Text

section Tables

/-- Characters of one column that the rules for merging letters and flags name one by one, and the blank without a
break. -/
private def letterRuns : List (Nat × Nat) :=
  [(0xA0, 0xA1), (0x5DC, 0x5DD), (0x622, 0x628), (0x671, 0x676), (0x773, 0x775), (0x870, 0x883), (0x1780, 0x17B0),
    (0x1A10, 0x1A11), (0x2D31, 0x2D80), (0xA4FC, 0xA4FE), (0x10C03, 0x10C04), (0x16D67, 0x16D69),
    (0x1F1E6, 0x1F200)]

private theorem tables_paired : zeroWidth.Paired ∧ zeroWidth.complement.Paired ∧ doubleWidth.Paired ∧
    doubleWidth.complement.Paired ∧ emojiCapable.Paired ∧ emojiByDefault.Paired := by
  decide +kernel

/-- Letters, emoji and wide characters all take a column, letters take no more, and emoji by default are wide. -/
private theorem tables_covered : Ranges.uncovered letterRuns zeroWidth.complement = [] ∧
    Ranges.uncovered letterRuns doubleWidth.complement = [] ∧
    Ranges.uncovered emojiCapable.runs zeroWidth.complement = [] ∧
    Ranges.uncovered doubleWidth.runs zeroWidth.complement = [] ∧
    Ranges.uncovered emojiByDefault.runs doubleWidth = [] ∧ (0x1F3F8, 0x1F43F) ∈ doubleWidth.runs ∧
    ∀ run ∈ letterRuns ++ doubleWidth.runs, 0xA0 ≤ run.1 ∧ (run.2 ≤ 0x17D8 ∨ 0x17D8 < run.1) := by
  decide +kernel

private theorem zeroWidth_eq_false {c : Char} (outside : zeroWidth.complement.mem c = true) :
    zeroWidth.mem c = false := by
  obtain ⟨zero, complement, -⟩ := tables_paired
  rwa [Ranges.mem_complement zero complement, Bool.not_eq_true'] at outside

/-- A character outside of the table of characters without a column takes at least one. -/
private theorem tableWidth_pos {c : Char} (outside : zeroWidth.complement.mem c = true) : 0 < tableWidth c := by
  unfold tableWidth
  rw [zeroWidth_eq_false outside, if_neg Bool.false_ne_true]
  split
  · decide
  · split
    · decide
    · split <;> decide

/-- A character of a run that is neither plain nor the one of three columns has its columns from the tables. -/
private theorem tableWidth_of_run {c : Char} (run : Nat × Nat) (member : run ∈ letterRuns ++ doubleWidth.runs)
    (first : run.1 ≤ c.toNat) (last : c.toNat < run.2) (outside : zeroWidth.complement.mem c = true) :
    tableWidth c = if doubleWidth.mem c then 2 else 1 := by
  obtain ⟨-, -, -, -, -, -, bounds⟩ := tables_covered
  obtain ⟨large, apart⟩ := bounds run member
  have other : (c.toNat == 0x17D8) = false := by
    rw [beq_eq_false_iff_ne]
    omega
  rw [tableWidth, if_neg (by omega), other, zeroWidth_eq_false outside, if_neg Bool.false_ne_true,
    if_neg Bool.false_ne_true]

private theorem tableWidth_of_letter (lo hi : Nat) (letter : (lo, hi) ∈ letterRuns) {c : Char} (first : lo ≤ c.toNat)
    (last : c.toNat < hi) : tableWidth c = 1 := by
  obtain ⟨-, complement, double, complement', -⟩ := tables_paired
  obtain ⟨visible, narrow, -⟩ := tables_covered
  have held : ∃ run ∈ letterRuns, run.1 ≤ c.toNat ∧ c.toNat < run.2 := ⟨(lo, hi), letter, first, last⟩
  have single := Ranges.mem_of_uncovered complement' narrow held
  rw [Ranges.mem_complement double complement', Bool.not_eq_true'] at single
  rw [tableWidth_of_run (lo, hi) (List.mem_append_left _ letter) first last
    (Ranges.mem_of_uncovered complement visible held), single, if_neg Bool.false_ne_true]

private theorem pos_of_emojiCapable {c : Char} (capable : emojiCapable.mem c = true) : 0 < tableWidth c := by
  obtain ⟨-, complement, -, -, emoji, -⟩ := tables_paired
  obtain ⟨-, -, covered, -⟩ := tables_covered
  exact tableWidth_pos (Ranges.mem_of_uncovered complement covered ((Ranges.mem_iff emoji c).mp capable))

/-- A character of the table of wide characters takes two columns. -/
private theorem tableWidth_of_wide {c : Char} (wide : doubleWidth.mem c = true) : tableWidth c = 2 := by
  obtain ⟨-, complement, double, -⟩ := tables_paired
  obtain ⟨-, -, -, covered, -⟩ := tables_covered
  have held := (Ranges.mem_iff double c).mp wide
  have outside := Ranges.mem_of_uncovered complement covered held
  obtain ⟨run, present, first, last⟩ := held
  rw [tableWidth_of_run run (List.mem_append_right _ present) first last outside, if_pos wide]

private theorem tableWidth_of_emojiByDefault {c : Char} (emoji : emojiByDefault.mem c = true) : tableWidth c = 2 := by
  obtain ⟨-, -, double, -, -, default⟩ := tables_paired
  obtain ⟨-, -, -, -, covered, -⟩ := tables_covered
  exact tableWidth_of_wide (Ranges.mem_of_uncovered double covered ((Ranges.mem_iff default c).mp emoji))

end Tables

section Classes

variable {c : Char}

private theorem tableWidth_of_isAlef (alef : isAlef c = true) : tableWidth c = 1 := by
  simp only [isAlef, inRun, List.contains_eq_mem, List.mem_cons, List.not_mem_nil, or_false, Bool.or_eq_true,
    Bool.and_eq_true, decide_eq_true_eq] at alef
  have ranges : (0x622 ≤ c.toNat ∧ c.toNat < 0x628) ∨ (0x671 ≤ c.toNat ∧ c.toNat < 0x676) ∨
      (0x773 ≤ c.toNat ∧ c.toNat < 0x775) ∨ (0x870 ≤ c.toNat ∧ c.toNat < 0x883) := by omega
  rcases ranges with ⟨first, last⟩ | ⟨first, last⟩ | ⟨first, last⟩ | ⟨first, last⟩
  · exact tableWidth_of_letter 0x622 0x628 (by decide) first last
  · exact tableWidth_of_letter 0x671 0x676 (by decide) first last
  · exact tableWidth_of_letter 0x773 0x775 (by decide) first last
  · exact tableWidth_of_letter 0x870 0x883 (by decide) first last

private theorem tableWidth_of_isKhmerBase (base : isKhmerBase c = true) : tableWidth c = 1 := by
  simp only [isKhmerBase, inRun, List.contains_eq_mem, List.mem_cons, List.not_mem_nil, or_false, Bool.or_eq_true,
    Bool.and_eq_true, decide_eq_true_eq] at base
  exact tableWidth_of_letter 0x1780 0x17B0 (by decide) (by omega) (by omega)

private theorem tableWidth_of_isTifinagh (tifinagh : isTifinagh c = true) : tableWidth c = 1 := by
  simp only [isTifinagh, inRun, Bool.or_eq_true, Bool.and_eq_true, decide_eq_true_eq, beq_iff_eq] at tifinagh
  exact tableWidth_of_letter 0x2D31 0x2D80 (by decide) (by omega) (by omega)

theorem tableWidth_of_isIndicator (indicator : isIndicator c = true) : tableWidth c = 1 := by
  simp only [isIndicator, inRun, Bool.and_eq_true, decide_eq_true_eq] at indicator
  exact tableWidth_of_letter 0x1F1E6 0x1F200 (by decide) (by omega) (by omega)

private theorem tableWidth_of_isSkinTone (tone : isSkinTone c = true) : tableWidth c = 2 := by
  simp only [isSkinTone, inRun, Bool.and_eq_true, decide_eq_true_eq] at tone
  obtain ⟨-, -, double, -⟩ := tables_paired
  obtain ⟨-, -, -, -, -, held, -⟩ := tables_covered
  exact tableWidth_of_wide ((Ranges.mem_iff double c).mpr ⟨_, held, by omega, by omega⟩)

theorem tableWidth_of_small (small : c.toNat ≤ 0xA0) : tableWidth c = 1 := by
  rcases Nat.lt_or_eq_of_le small with ascii | blank
  · rw [tableWidth, if_pos ascii]
  · exact tableWidth_of_letter 0xA0 0xA1 (by decide) (by omega) (by omega)

end Classes

section Credit

/-- Columns that the characters of a context have paid for and not taken: a selector pays for the emoji in front of it,
and every second indicator in front of a joined emoji gives columns back. -/
def credit (next : Following) : Int :=
  (if next.selector = .emoji then 1 else 0) + if next.ahead = .joinedIndicatorsEven then 2 else 0

theorem credit_nonneg (next : Following) : 0 ≤ credit next := by
  unfold credit
  split <;> split <;> decide

/-- A character that takes its own columns, and whose context has saved none. -/
private def Paid (c : Char) (own : Nat × Ahead) : Prop := own.1 = tableWidth c ∧ credit ⟨own.2, .none⟩ = 0

private theorem paid_ownWidth (c : Char) : Paid c (ownWidth c) := by
  unfold ownWidth
  refine iteInduction (fun lamed => ?_) fun _ => iteInduction (fun alef => ?_) fun _ =>
    iteInduction (fun base => ?_) fun _ => iteInduction (fun buginese => ?_) fun _ =>
    iteInduction (fun tifinagh => ?_) fun _ => iteInduction (fun lisu => ?_) fun _ =>
    iteInduction (fun turkic => ?_) fun _ => iteInduction (fun kirat => ?_) fun _ =>
    iteInduction (fun kirat => ?_) fun _ => iteInduction (fun indicator => ?_) fun _ =>
    iteInduction (fun tone => ?_) fun _ => iteInduction (fun emoji => ?_) fun _ => ?_
  · rw [beq_iff_eq] at lamed
    exact ⟨(tableWidth_of_letter 0x5DC 0x5DD (by decide) (by omega) (by omega)).symm, rfl⟩
  · exact ⟨(tableWidth_of_isAlef alef).symm, rfl⟩
  · exact ⟨(tableWidth_of_isKhmerBase base).symm, rfl⟩
  · rw [beq_iff_eq] at buginese
    exact ⟨(tableWidth_of_letter 0x1A10 0x1A11 (by decide) (by omega) (by omega)).symm, rfl⟩
  · exact ⟨(tableWidth_of_isTifinagh tifinagh).symm, rfl⟩
  · simp only [Bool.or_eq_true, beq_iff_eq] at lisu
    exact ⟨(tableWidth_of_letter 0xA4FC 0xA4FE (by decide) (by omega) (by omega)).symm, rfl⟩
  · rw [beq_iff_eq] at turkic
    exact ⟨(tableWidth_of_letter 0x10C03 0x10C04 (by decide) (by omega) (by omega)).symm, rfl⟩
  · rw [beq_iff_eq] at kirat
    exact ⟨(tableWidth_of_letter 0x16D67 0x16D69 (by decide) (by omega) (by omega)).symm, rfl⟩
  · rw [beq_iff_eq] at kirat
    exact ⟨(tableWidth_of_letter 0x16D67 0x16D69 (by decide) (by omega) (by omega)).symm, rfl⟩
  · exact ⟨(tableWidth_of_isIndicator indicator).symm, rfl⟩
  · exact ⟨(tableWidth_of_isSkinTone tone).symm, rfl⟩
  · exact ⟨(tableWidth_of_emojiByDefault emoji).symm, rfl⟩
  · exact ⟨rfl, rfl⟩

/-- A character that merges with nothing is as wide in a text as alone. -/
theorem ownWidth_fst (c : Char) : (ownWidth c).1 = tableWidth c := (paid_ownWidth c).1

/-- A step that takes no more columns than the character has and the context behind it has saved. -/
private def Affordable (c : Char) (saved : Int) (step : Option (Int × Ahead)) : Prop :=
  ∀ taken ∈ step, taken.1 + credit ⟨taken.2, .none⟩ ≤ tableWidth c + saved

private theorem affordable_none (c : Char) (saved : Int) : Affordable c saved none := by
  rintro taken ⟨⟩

private theorem affordable_some {c : Char} {saved columns : Int} {ahead : Ahead}
    (within : columns + credit ⟨ahead, .none⟩ ≤ tableWidth c + saved) : Affordable c saved (some (columns, ahead)) := by
  rintro taken ⟨⟩
  exact within

private theorem affordable_free {c : Char} {saved columns : Int} {ahead : Ahead} (few : columns ≤ 0)
    (free : credit ⟨ahead, .none⟩ = 0) (nonneg : 0 ≤ saved) : Affordable c saved (some (columns, ahead)) :=
  affordable_some (by omega)

private theorem affordable_mergeStep (letter : Merging) (joined : Bool) (c : Char) :
    Affordable c 0 (mergeStep letter joined c) := by
  have free : ∀ {columns : Int} {ahead : Ahead}, columns ≤ 0 → credit ⟨ahead, .none⟩ = 0 →
      Affordable c 0 (some (columns, ahead)) := fun few free => affordable_free few free (Int.le_refl 0)
  have none := affordable_none c 0
  unfold mergeStep
  cases letter <;> dsimp only
  case alef =>
    exact iteInduction (fun _ => free (by decide) rfl) fun _ =>
      iteInduction (fun _ => free (by decide) rfl) fun _ => none
  case tifinagh =>
    refine iteInduction (fun joiner => affordable_some ?_) fun _ =>
      iteInduction (fun _ => free (by decide) rfl) fun _ => none
    rw [beq_iff_eq] at joiner
    have single : tableWidth c = 1 := tableWidth_of_letter 0x2D31 0x2D80 (by decide) (by omega) (by omega)
    have plain : credit ⟨.merging .tifinaghJoined false, .none⟩ = 0 := rfl
    omega
  case kiratE =>
    refine iteInduction (fun _ => free (by decide) rfl) fun _ => iteInduction (fun _ => free (by decide) rfl) fun _ =>
      iteInduction (fun sign => affordable_some ?_) fun _ => none
    rw [beq_iff_eq] at sign
    have single : tableWidth c = 1 := tableWidth_of_letter 0x16D67 0x16D69 (by decide) (by omega) (by omega)
    have plain : credit ⟨.merging .kiratE false, .none⟩ = 0 := rfl
    omega
  all_goals exact iteInduction (fun _ => free (by decide) rfl) fun _ => none

private theorem affordable_emojiStep (ahead : Ahead) (c : Char) :
    Affordable c (credit ⟨ahead, .none⟩) (emojiStep ahead c) := by
  have saved := credit_nonneg ⟨ahead, .none⟩
  have free : ∀ {columns : Int} {next : Ahead}, columns ≤ 0 → credit ⟨next, .none⟩ = 0 →
      Affordable c (credit ⟨ahead, .none⟩) (some (columns, next)) := fun few free => affordable_free few free saved
  have none := affordable_none c (credit ⟨ahead, .none⟩)
  -- What an indicator takes and leaves is no more than its one column and what was saved.
  have flag : ∀ {columns : Int} {next : Ahead}, isIndicator c = true →
      columns + credit ⟨next, .none⟩ ≤ 1 + credit ⟨ahead, .none⟩ →
      Affordable c (credit ⟨ahead, .none⟩) (some (columns, next)) := by
    intro columns next indicator within
    have single := tableWidth_of_isIndicator indicator
    exact affordable_some (by omega)
  unfold emojiStep
  cases ahead <;> dsimp only
  case skinTone =>
    exact iteInduction (fun _ => free (by decide) rfl) fun _ =>
      iteInduction (fun _ => free (by decide) rfl) fun _ => none
  case indicator => exact iteInduction (fun indicator => flag indicator (by decide)) fun _ => none
  case emoji => exact iteInduction (fun _ => free (by decide) rfl) fun _ => none
  case indicators | joinedIndicator | joinedIndicatorsOdd | joinedIndicatorsEven =>
    exact iteInduction (fun indicator => flag indicator (by decide)) fun _ =>
      iteInduction (fun _ => free (by decide) rfl) fun _ => none
  case joinedEmoji =>
    exact iteInduction (fun _ => free (by decide) rfl) fun _ =>
      iteInduction (fun indicator => flag indicator (by decide)) fun _ =>
      iteInduction (fun _ => free (by decide) rfl) fun _ => iteInduction (fun _ => free (by decide) rfl) fun _ =>
      iteInduction (fun _ => free (by decide) rfl) fun _ => none
  case tags letters digits =>
    exact iteInduction (fun _ => free (by decide) rfl) fun _ => iteInduction (fun _ => free (by decide) rfl) fun _ =>
      iteInduction (fun _ => free (by decide) rfl) fun _ => none
  all_goals exact none

end Credit

section Swelling

/-- A character that can make a text wider than its characters one by one. -/
def isSwelling (c : Char) : Bool := isControl c || c.toNat == 0xFE0F

/-- The characters of a text that can make it wider. -/
def swelling (cs : List Char) : Nat := cs.countP isSwelling

/-- The columns of one character and the one it may add to a text. -/
private def price (c : Char) : Nat := charWidth c + if isSwelling c then 1 else 0

private theorem tableWidth_le_price (c : Char) : tableWidth c ≤ price c := by
  unfold price charWidth
  by_cases control : isControl c = true
  · have swells : isSwelling c = true := by rw [isSwelling, control, Bool.true_or]
    have small : c.toNat < 0xA0 := by
      simp only [isControl, inRun, Bool.or_eq_true, Bool.and_eq_true, decide_eq_true_eq] at control
      omega
    rw [if_pos control, if_pos swells, tableWidth, if_pos small]
  · rw [if_neg control]
    exact Nat.le_add_right _ _

/-- A step back over `c` that takes no more columns than the price of `c` and the credit of the context behind. -/
private def Covered (c : Char) (next : Following) (step : Int × Following) : Prop :=
  step.1 + credit step.2 ≤ price c + credit next

section Steps

variable {c : Char} {next : Following}

private theorem covered_of_le {step : Int × Following} (cheap : step.1 + credit step.2 ≤ tableWidth c) :
    Covered c next step := by
  have saved := credit_nonneg next
  have paid := tableWidth_le_price c
  unfold Covered
  omega

private theorem covered_free {columns : Int} {context : Following} (few : columns ≤ 0) (free : credit context = 0) :
    Covered c next (columns, context) :=
  covered_of_le (by dsimp only; omega)

private theorem covered_of_pos {columns : Int} {context : Following} (few : columns ≤ 1) (free : credit context = 0)
    (pos : 0 < tableWidth c) : Covered c next (columns, context) :=
  covered_of_le (by dsimp only; omega)

/-- A step that is affordable covers itself, and where there is none the character takes its own columns. -/
private theorem covered_of_affordable {saved : Int} {step : Option (Int × Ahead)} (within : saved ≤ credit next) :
    Affordable c saved step → Covered c next (match step with
      | some (columns, ahead) => (columns, ⟨ahead, .none⟩)
      | none => ((ownWidth c).1, ⟨(ownWidth c).2, .none⟩)) := by
  intro affordable
  cases step with
  | none =>
    obtain ⟨own, free⟩ := paid_ownWidth c
    exact covered_of_le (by dsimp only; omega)
  | some taken =>
    have paid := tableWidth_le_price c
    have cost := affordable taken rfl
    unfold Covered
    dsimp only
    omega

end Steps

private theorem credit_ahead_le (next : Following) : credit ⟨next.ahead, .none⟩ ≤ credit next := by
  obtain ⟨ahead, selector⟩ := next
  cases selector with
  | emoji => exact Int.add_le_add_right (show (0 : Int) ≤ 1 by decide) _
  | none | text => exact Int.le_refl _

/-- One step back takes no more columns than the price of its character and the credit of the context. -/
private theorem covered_widthBefore (c : Char) (next : Following) : Covered c next (widthBefore c next) := by
  unfold widthBefore
  extract_lets settled own
  -- A selector behind a character that is no emoji is forgotten, with the credit it brought.
  have lowered : credit settled ≤ credit next := by
    refine iteInduction (motive := fun settled => credit settled ≤ credit next) (fun _ => ?_) fun _ => Int.le_refl _
    have saved := credit_nonneg next
    cases next.ahead <;> exact saved
  have capable : settled.selector = .emoji → emojiCapable.mem c = true := by
    refine iteInduction (motive := fun settled : Following => settled.selector = .emoji → emojiCapable.mem c = true)
      (fun _ emoji => ?_) fun kept emoji => ?_
    · cases ahead : next.ahead <;> rw [ahead] at emoji <;> cases emoji
    · rw [emoji] at kept
      simpa using kept
  clear_value settled
  refine iteInduction (fun emoji => ?_) fun _ => iteInduction (fun small => ?_) fun _ =>
    iteInduction (fun selector => ?_) fun _ => iteInduction (fun _ => ?_) fun _ =>
    iteInduction (fun text => ?_) fun _ => ?_
  · have pos := pos_of_emojiCapable (capable emoji)
    have paid := tableWidth_le_price c
    have saved : 1 ≤ credit settled := by
      rw [credit, if_pos emoji]
      split <;> decide
    have plain : credit ⟨.emoji, .none⟩ = 0 := rfl
    unfold Covered
    dsimp only
    split <;> omega
  · have pos : 0 < tableWidth c := by rw [tableWidth_of_small small]; decide
    exact iteInduction (fun _ => covered_of_pos (by decide) rfl pos) fun _ =>
      iteInduction (fun _ => covered_of_pos (by decide) rfl pos) fun _ => covered_of_pos (by decide) rfl pos
  · have swells : 1 ≤ price c := by
      have swells : isSwelling c = true := by rw [isSwelling, selector, Bool.or_true]
      rw [price, if_pos swells]
      exact Nat.le_add_left _ _
    have saved := credit_nonneg next
    have covered : ∀ {ahead : Ahead}, credit ⟨ahead, .emoji⟩ = 1 → Covered c next (0, ⟨ahead, .emoji⟩) := by
      intro ahead brought
      unfold Covered
      dsimp only
      omega
    cases settled.ahead <;> exact covered rfl
  · cases settled.ahead <;> exact covered_free (by decide) rfl
  · simp only [Bool.and_eq_true] at text
    exact covered_of_pos (by decide) rfl (pos_of_emojiCapable text.1.2)
  · have within := Int.le_trans (credit_ahead_le settled) lowered
    cases ahead : settled.ahead <;> rw [ahead] at within <;> dsimp only
    case merging letter joined =>
      exact iteInduction (fun _ => covered_free (by decide) rfl) fun _ =>
        iteInduction (fun _ => covered_free (by decide) rfl) fun _ =>
        covered_of_affordable (credit_nonneg next) (affordable_mergeStep letter joined c)
    all_goals exact covered_of_affordable within (affordable_emojiStep _ c)

/-- One step back takes no more columns than its character alone, one more if it swells, and what the context has
saved. -/
theorem widthBefore_le (c : Char) (next : Following) :
    (widthBefore c next).1 + credit (widthBefore c next).2 ≤
      charWidth c + (if isSwelling c then 1 else 0 : Nat) + credit next := by
  have covered := covered_widthBefore c next
  unfold Covered price at covered
  omega

end Swelling

end DocLocale.Text
