import DocLocale.Text.Width

/-!
How little a text can measure. Some letters, and flags in front of a joined emoji, give back a column of the characters
behind them; each context on the way back through a text keeps in reserve what may still be given back. Main statement:
no text measures less than nothing, so a word in front of a space takes at least its own columns.
-/

set_option autoImplicit false
set_option relaxedAutoImplicit false

namespace DocLocale.Text

section Reserve

/-- The columns that a context has taken and may give back to the character in front of it. -/
def reserve : Ahead → Int
  | .merging .khmer _ | .merging .tifinaghJoined _ | .joinedIndicator | .joinedIndicatorsOdd => 1
  | _ => 0

theorem reserve_nonneg (ahead : Ahead) : 0 ≤ reserve ahead := by
  unfold reserve
  split <;> decide

private theorem reserve_ownWidth (c : Char) : reserve (ownWidth c).2 ≤ (ownWidth c).1 := by
  unfold ownWidth
  repeat
    refine iteInduction (motive := fun own : Nat × Ahead => reserve own.2 ≤ own.1) (fun _ => by decide) fun _ => ?_
  exact Int.natCast_nonneg _

private theorem reserve_mergeStep (letter : Merging) (joined : Bool) (c : Char) (columns : Int) (ahead : Ahead)
    (step : mergeStep letter joined c = some (columns, ahead)) :
    reserve ahead ≤ columns + reserve (.merging letter joined) := by
  cases letter <;> grind [mergeStep, reserve]

private theorem reserve_emojiStep (next : Ahead) (c : Char) (columns : Int) (ahead : Ahead)
    (step : emojiStep next c = some (columns, ahead)) : reserve ahead ≤ columns + reserve next := by
  cases next <;> grind [emojiStep, reserve]

/-- A step that leaves no more in reserve than there was and the columns it takes. -/
private def Kept (next : Ahead) (step : Int × Following) : Prop := reserve step.2.ahead ≤ step.1 + reserve next

private theorem kept_of_settled {next : Ahead} {columns : Int} {context : Following}
    (settled : reserve context.ahead = 0) (nonneg : 0 ≤ columns) : Kept next (columns, context) := by
  have saved := reserve_nonneg next
  unfold Kept
  dsimp only
  omega

private theorem kept_of_le {next : Ahead} {context : Following} (within : reserve context.ahead ≤ reserve next) :
    Kept next (0, context) := by
  unfold Kept
  dsimp only
  omega

/-- A step that keeps its reserve is taken; where there is none, the own columns of the character pay for what it
leaves. -/
private theorem kept_of_step {c : Char} {next passed : Ahead} {step : Option (Int × Ahead)}
    (within : reserve passed ≤ reserve next) :
    (∀ columns ahead, step = some (columns, ahead) → reserve ahead ≤ columns + reserve passed) →
      Kept next (match step with
        | some (columns, ahead) => (columns, ⟨ahead, .none⟩)
        | none => ((ownWidth c).1, ⟨(ownWidth c).2, .none⟩)) := by
  intro kept
  cases step with
  | none =>
    have own := reserve_ownWidth c
    have saved := reserve_nonneg next
    unfold Kept
    dsimp only
    omega
  | some taken =>
    have left := kept taken.1 taken.2 rfl
    unfold Kept
    dsimp only
    omega

/-- One step back leaves in reserve no more than there was and the columns it takes. -/
private theorem kept_widthBefore (c : Char) (next : Following) : Kept next.ahead (widthBefore c next) := by
  unfold widthBefore
  extract_lets settled own
  -- A selector behind a character that is no emoji is forgotten, with all but a merging letter behind it.
  have within : reserve settled.ahead ≤ reserve next.ahead := by
    refine iteInduction (motive := fun settled : Following => reserve settled.ahead ≤ reserve next.ahead)
      (fun _ => ?_) fun _ => Int.le_refl _
    have saved := reserve_nonneg next.ahead
    cases ahead : next.ahead <;> rw [ahead] at saved <;> first | exact Int.le_refl _ | exact saved
  clear_value settled
  refine iteInduction (fun _ => ?_) fun _ => iteInduction (fun _ => ?_) fun _ =>
    iteInduction (fun _ => ?_) fun _ => iteInduction (fun _ => ?_) fun _ => iteInduction (fun _ => ?_) fun _ => ?_
  -- The emoji of a selector, the characters up to U+00A0, the two selectors, an emoji shown as text, all others.
  · exact kept_of_settled rfl (by split <;> decide)
  · exact iteInduction (fun _ => kept_of_settled rfl (by decide)) fun _ =>
      iteInduction (fun _ => kept_of_settled rfl (by decide)) fun _ => kept_of_settled rfl (by decide)
  · cases ahead : settled.ahead <;> rw [ahead] at within <;> first
      | exact kept_of_settled rfl (by decide)
      | exact kept_of_le within
  · cases ahead : settled.ahead <;> rw [ahead] at within <;> first
      | exact kept_of_settled rfl (by decide)
      | exact kept_of_le within
  · exact kept_of_settled rfl (by decide)
  · cases ahead : settled.ahead <;> rw [ahead] at within <;> dsimp only
    case merging letter joined =>
      have same : reserve (.merging letter true) ≤ reserve next.ahead := by
        cases letter <;> exact within
      exact iteInduction (fun _ => kept_of_le same) fun _ => iteInduction (fun _ => kept_of_le within) fun _ =>
        kept_of_step within (reserve_mergeStep letter joined c)
    all_goals exact kept_of_step within (reserve_emojiStep _ c)

/-- No text measures less than what it keeps in reserve. -/
theorem reserve_measure (cs : List Char) : reserve (measure cs).2.ahead ≤ (measure cs).1 := by
  induction cs with
  | nil => decide
  | cons c cs ih =>
    have step := kept_widthBefore c (measure cs).2
    unfold Kept at step
    simp only [measure]
    omega

theorem measure_nonneg (cs : List Char) : 0 ≤ (measure cs).1 :=
  Int.le_trans (reserve_nonneg _) (reserve_measure cs)

end Reserve

section Words

/-- A visible character of one column, whatever stands behind it but a selector. -/
def isVisible (c : Char) : Bool := 0x20 < c.toNat && c.toNat < 0x7F

theorem charWidth_of_isVisible {c : Char} (visible : isVisible c = true) : charWidth c = 1 := by
  simp only [isVisible, Bool.and_eq_true, decide_eq_true_eq] at visible
  have plain : isControl c = false := by
    simp only [isControl, inRun, Bool.or_eq_false_iff, Bool.and_eq_false_iff, decide_eq_false_iff_not]
    omega
  rw [charWidth, plain, if_neg Bool.false_ne_true, tableWidth, if_pos (by omega)]

private theorem widthBefore_eq_one {c : Char} {next : Following} (first : 0x20 ≤ c.toNat) (last : c.toNat < 0x7F)
    (plain : next.selector = .emoji → emojiCapable.mem c = false) : widthBefore c next = (1, ⟨.plain, .none⟩) := by
  have feed : c ≠ '\n' := by
    rintro rfl
    exact absurd first (by decide)
  have carriage : c ≠ '\r' := by
    rintro rfl
    exact absurd first (by decide)
  unfold widthBefore
  extract_lets settled own
  have unselected : settled.selector ≠ .emoji := by
    refine iteInduction (motive := fun settled : Following => settled.selector ≠ .emoji) (fun _ => ?_) fun kept => ?_
    · cases next.ahead <;> exact nofun
    · intro emoji
      simp [emoji, plain emoji] at kept
  clear_value settled
  rw [if_neg unselected, if_pos (by omega), if_neg (by simpa using feed), if_neg (by simp [carriage])]

/-- A space keeps apart what stands before it and behind it. -/
private theorem measure_space (cs : List Char) : measure (' ' :: cs) = ((measure cs).1 + 1, ⟨.plain, .none⟩) := by
  have step : widthBefore ' ' (measure cs).2 = (1, ⟨.plain, .none⟩) :=
    widthBefore_eq_one (by decide) (by decide) fun _ => by decide +kernel
  simp only [measure, step]

private theorem measure_visible {word rest : List Char} (visible : ∀ c ∈ word, isVisible c = true)
    (plain : (measure rest).2 = ⟨.plain, .none⟩) :
    measure (word ++ rest) = ((measure rest).1 + word.length, ⟨.plain, .none⟩) := by
  induction word with
  | nil => exact Prod.ext (Int.add_zero _).symm plain
  | cons c word ih =>
    have here := visible c List.mem_cons_self
    simp only [isVisible, Bool.and_eq_true, decide_eq_true_eq] at here
    have step : widthBefore c ⟨.plain, .none⟩ = (1, ⟨.plain, .none⟩) :=
      widthBefore_eq_one (by omega) (by omega) nofun
    have later := ih fun d member => visible d (List.mem_cons_of_mem _ member)
    simp only [List.cons_append, measure, later, step, List.length_cons, Int.add_assoc]
    rfl

/-- A word of visible characters takes its own columns at least, if a space or nothing stands behind it. -/
theorem length_le_width {word rest : List Char} (visible : ∀ c ∈ word, isVisible c = true)
    (spaced : rest = [] ∨ ∃ more, rest = ' ' :: more) : word.length ≤ width (word ++ rest) := by
  have plain : (measure rest).2 = ⟨.plain, .none⟩ := by
    rcases spaced with rfl | ⟨more, rfl⟩
    · rfl
    · rw [measure_space]
  have nonneg := measure_nonneg rest
  rw [width, measure_visible visible plain]
  omega

end Words

end DocLocale.Text
