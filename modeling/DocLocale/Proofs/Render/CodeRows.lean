import DocLocale.Proofs.Render.Indentation
import DocLocale.Proofs.Render.PrintedGaps
import DocLocale.Proofs.Source.Items

/-!
Printed code as rows. A row is the gap in front of a piece of code and the code up to its last mark; the line break behind
it belongs to the gap of the next row. Main statement: several pieces of code are their rows and a line break.
-/

set_option autoImplicit false
set_option relaxedAutoImplicit false

namespace DocLocale

open Source (IsNewline)
open Source.Grammar (blockText)
open Text (IsBlankText)

namespace Render

variable {style : Style}

namespace Code

/-- Code that stands in rows: anything but files. -/
def IsRow : Code → Prop
  | .declaration .. | .member .. | .block .. => True
  | .file .. | .root _ => False

/-- The text of a piece of code between its indentation and the line break behind it. -/
def core (style : Style) (depth : Int) : Code → List Char
  | .declaration tokens _ => (declareWord depth ++ tokenText tokens ++ ";").toList
  | .member tokens _ => (tokenText tokens ++ ",").toList
  | .block header body opening closing _ =>
    let head := declareWord depth ++ tokenText header ++ opening
    let inner := renderAll style (depth + 1) body
    if inner.isEmpty then (head ++ closing).toList
    else (head ++ style.newline ++ inner ++ style.indent depth ++ closing).toList
  | .file .. | .root _ => []

/-- The row of a piece of code. -/
def row (style : Style) (depth : Int) (c : Code) : List Char := gapChars style depth c.above ++ c.core style depth

theorem newline_render {c : Code} (isRow : c.IsRow) (depth : Int) :
    style.newline.toList ++ (c.render style depth).toList = c.row style depth ++ style.newline.toList := by
  cases c with
  | file | root => cases isRow
  | declaration tokens above =>
    simp [render, statement, row, core, Code.above, gapChars, Style.line]
  | member tokens above =>
    simp [render, statement, row, core, Code.above, gapChars, Style.line]
  | block header body opening closing above =>
    simp only [render, Render.block, row, core, Code.above, gapChars]
    split <;> simp [Style.line]

end Code

/-- Pieces of code are their rows and a line break. -/
theorem newline_renderAll (style : Style) {cs : List Code} (rows : ∀ c ∈ cs, c.IsRow) (depth : Int) :
    style.newline.toList ++ (renderAll style depth cs).toList =
      cs.flatMap (Code.row style depth) ++ style.newline.toList := by
  induction cs with
  | nil => simp [renderAll]
  | cons c cs ih =>
    rw [renderAll, String.toList_append, ← List.append_assoc, Code.newline_render (rows c List.mem_cons_self),
      List.append_assoc, ih fun d member => rows d (List.mem_cons_of_mem c member), List.flatMap_cons, List.append_assoc]

private theorem isEmpty_renderAll {c : Code} {cs : List Code} (rows : ∀ d ∈ c :: cs, d.IsRow) (depth : Int)
    (broken : style.newline ≠ "") : (renderAll style depth (c :: cs)).isEmpty = false := by
  by_contra empty
  have none : renderAll style depth (c :: cs) = "" := by simpa using empty
  have same := congrArg List.length (newline_renderAll style rows depth)
  have some : 0 < style.newline.toList.length := by
    rw [List.length_pos_iff]
    simpa using broken
  rw [none, List.flatMap_cons, Code.row, gapChars, String.toList_empty] at same
  simp only [List.length_append, List.length_nil] at same
  omega

/-- What stands in front of the closing brace of a block. -/
def closeChars (style : Style) (depth : Int) (body : List Code) : List Char :=
  if body = [] then [] else breakChars style depth

theorem isBlankText_close (newline : IsNewline style.newline) (depth : Int) (body : List Code) :
    IsBlankText (closeChars style depth body) := by
  rw [closeChars]
  split
  · exact fun c member => absurd member List.not_mem_nil
  · exact isBlankText_break newline depth

/-- A block is its head and the rows between its braces. -/
theorem core_block {body : List Code} (rows : ∀ c ∈ body, c.IsRow) (broken : style.newline ≠ "") (depth : Int)
    (header : List String) (above : Option (List String)) :
    (Code.block header body " \x7b" "\x7d" above).core style depth =
      blockText (declareWord depth ++ tokenText header ++ " \x7b").toList (body.flatMap (Code.row style (depth + 1)))
        (closeChars style depth body) := by
  cases body with
  | nil => simp [Code.core, blockText, closeChars, renderAll]
  | cons c cs =>
    have inner := newline_renderAll style rows (depth + 1)
    have whole : (declareWord depth ++ tokenText header ++ " \x7b").toList ++
        ((style.newline.toList ++ (renderAll style (depth + 1) (c :: cs)).toList) ++ ((style.indent depth).toList ++ ['\x7d'])) =
        (declareWord depth ++ tokenText header ++ " \x7b").toList ++
          (((c :: cs).flatMap (Code.row style (depth + 1)) ++ style.newline.toList) ++ ((style.indent depth).toList ++ ['\x7d'])) := by
      rw [inner]
    simp only [Code.core, isEmpty_renderAll rows _ broken, blockText, closeChars, breakChars, reduceCtorEq, if_false,
      Bool.false_eq_true]
    simpa using whole

end Render

end DocLocale
