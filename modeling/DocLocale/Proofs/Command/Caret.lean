import DocLocale.Command.Report
import DocLocale.Project.Outline
import DocLocale.Proofs.Source.Locating
import DocLocale.Proofs.Text.Sharing
import Mathlib.Data.Bool.AllAny

/-!
Where the mark below a line points. A place counts its column as it is displayed, but the report takes that many
characters of the line and measures them. Main statement: every column beyond the first that a character before the
place takes moves the mark over one more of the characters behind it; where no neighbours share columns, the mark is
right exactly if the characters before the place all count for one column, or none is behind it.
-/

set_option autoImplicit false
set_option relaxedAutoImplicit false

namespace DocLocale.Command

open Project (Sheet)
open Source (Spot columnsOf withoutMark)
open Text (Apart IsPrinted charWidth)

/-- The columns of some characters beyond one each. -/
def surplus (cs : List Char) : Nat := (cs.map (columnsOf · - 1)).sum

/-- A character that counts for one column: it takes one and has fewer than four bytes. -/
def IsNarrow (c : Char) : Prop := charWidth c = 1 ∧ c.utf8Size < 4

section Columns

variable {c : Char} {cs : List Char}

theorem columnsOf_of_isPrinted (printed : IsPrinted c) :
    columnsOf c = charWidth c + if c.utf8Size = 4 then 1 else 0 := by
  have tab : c ≠ '\t' := by
    rintro rfl
    exact absurd printed (by decide)
  rw [columnsOf, if_neg tab]

theorem columnsOf_eq_one_iff (printed : IsPrinted c) : columnsOf c = 1 ↔ IsNarrow c := by
  have pos := printed.pos
  have size := c.utf8Size_le_four
  rw [columnsOf_of_isPrinted printed, IsNarrow]
  split <;> omega

theorem columnsOf_pos (printed : IsPrinted c) : 0 < columnsOf c := by
  rw [columnsOf_of_isPrinted printed]
  exact Nat.lt_of_lt_of_le printed.pos (Nat.le_add_right _ _)

theorem sum_columnsOf (printed : ∀ c ∈ cs, IsPrinted c) : (cs.map columnsOf).sum = cs.length + surplus cs := by
  induction cs with
  | nil => rfl
  | cons c cs ih =>
    have pos := columnsOf_pos (printed c (.head _))
    have rest := ih fun d member => printed d (.tail _ member)
    simp only [surplus, List.map_cons, List.sum_cons, List.length_cons] at rest ⊢
    omega

theorem surplus_eq_zero_iff (printed : ∀ c ∈ cs, IsPrinted c) : surplus cs = 0 ↔ ∀ c ∈ cs, IsNarrow c := by
  rw [surplus, List.sum_eq_zero_iff_forall_eq_nat, List.forall_mem_map]
  refine forall₂_congr fun c member => ?_
  have pos := columnsOf_pos (printed c member)
  rw [← columnsOf_eq_one_iff (printed c member)]
  omega

end Columns

/-- The line with the mark behind some blanks. -/
def markLine (colored : Colored) (width blanks : Nat) : String :=
  padLeft width "" ++ " " ++ paint colored .blue "|" ++ " " ++ String.ofList (List.replicate blanks ' ') ++
    paint colored .yellow "^"

theorem placeLines_getLast? (colored : Colored) (width : Nat) (p : Place) :
    (placeLines colored width p).getLast? = some (markLine colored width (caretPadding p)) := by
  have blanks : padLeft (caretPadding p) "" = String.ofList (List.replicate (caretPadding p) ' ') := String.append_empty
  rw [markLine, ← blanks]
  rfl

section Marks

variable {s : Sheet} (spot : Spot (withoutMark s.file.text))

/-- The report measures the characters before the place and as many behind it as those take columns beyond one each. -/
theorem caretPadding_place (printed : ∀ c ∈ spot.front, IsPrinted c) :
    caretPadding (s.place spot.position) = Text.width (spot.front ++ spot.rest.take (surplus spot.front)) := by
  have located : s.file.locate spot.position = _ := spot.locate_position
  rw [caretPadding, Sheet.place, located]
  dsimp only
  rw [String.toList_ofList, Nat.add_sub_cancel, sum_columnsOf printed, List.take_length_add_append]

/-- The mark below a line of printed characters lies under the place if the characters before the place all count for
one column, or the place is at the end of the line. Otherwise it lies further to the right, by the width of as many
characters as there are columns beyond one each, unless these share columns with their neighbours. -/
theorem mark_of_place (printed : ∀ c ∈ spot.line, IsPrinted c) (colored : Colored) (width : Nat) :
    ∃ blanks, (placeLines colored width (s.place spot.position)).getLast? = some (markLine colored width blanks) ∧
      blanks = Text.width (spot.front ++ spot.rest.take (surplus spot.front)) ∧
      ((∀ c ∈ spot.front, IsNarrow c) ∨ spot.rest = [] → blanks = Text.width spot.front) ∧
      (spot.line.IsChain Apart →
        blanks = Text.width spot.front + Text.width (spot.rest.take (surplus spot.front)) ∧
          (blanks = Text.width spot.front ↔ (∀ c ∈ spot.front, IsNarrow c) ∨ spot.rest = [])) := by
  have before : ∀ c ∈ spot.front, IsPrinted c := fun c member => printed c (List.mem_append_left _ member)
  have padding := caretPadding_place spot before
  have nothing : (∀ c ∈ spot.front, IsNarrow c) ∨ spot.rest = [] ↔ spot.rest.take (surplus spot.front) = [] := by
    rw [List.take_eq_nil_iff, surplus_eq_zero_iff before]
  refine ⟨_, placeLines_getLast? colored width _, padding, fun straight => ?_, fun apart => ?_⟩
  · rw [padding, nothing.mp straight, List.append_nil]
  · -- Nothing of what is measured shares columns, since it is the line up to some character.
    have measured : spot.line.take (spot.front.length + surplus spot.front) =
        spot.front ++ spot.rest.take (surplus spot.front) := List.take_length_add_append _
    have printed' : ∀ c ∈ spot.front ++ spot.rest.take (surplus spot.front), IsPrinted c := by
      rw [← measured]
      exact fun c member => printed c (List.mem_of_mem_take member)
    have apart' : (spot.front ++ spot.rest.take (surplus spot.front)).IsChain Apart := by
      rw [← measured]
      exact apart.take _
    have added := padding.trans (Text.width_append_of_isChain printed' apart')
    refine ⟨added, ?_⟩
    rw [added, nothing, Nat.add_eq_left]
    exact Text.width_eq_zero_iff_of_isChain (fun c member => printed' c (List.mem_append_right _ member))
      apart'.right_of_append

end Marks

/-- A sheet with a line that has two wide characters in a comment. -/
def wideSheet : Sheet := ⟨⟨"/* 漢字 */ export {};\n".toList, [], []⟩, "main.d.ts"⟩

/-- The place behind the comment. -/
def wideSpot : Spot (withoutMark wideSheet.file.text) where
  above := []
  front := "/* 漢字 */ ".toList
  rest := "export {};".toList
  below := ['\n']
  whole := by decide +kernel
  starts := nofun
  ends := by
    rintro c ⟨⟩
    rfl
  unbroken := by
    rw [← List.all_iff_forall_prop]
    decide +kernel

/-- The mark is shown below the `p` of `export`, not below the `e`. -/
theorem mark_of_place_wide : (∀ c ∈ wideSpot.line, IsPrinted c) ∧ wideSpot.line.IsChain Apart ∧
    Text.width wideSpot.front = 11 ∧
    (placeLines false 1 (wideSheet.place wideSpot.position)).getLast? = some "  |              ^" := by
  have printed : ∀ c ∈ wideSpot.line, IsPrinted c := by
    rw [← List.all_iff_forall_prop]
    decide +kernel
  have apart : wideSpot.line.IsChain Apart := by decide +kernel
  obtain ⟨blanks, shown, -, -, separate⟩ := mark_of_place wideSpot printed false 1
  refine ⟨printed, apart, by decide +kernel, ?_⟩
  rw [shown, (separate apart).1]
  decide +kernel

end DocLocale.Command
