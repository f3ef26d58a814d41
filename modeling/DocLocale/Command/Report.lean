import DocLocale.Issue
import DocLocale.Text.Width

/-!
Reports of issues. Each issue is shown with its place and, where it has one, the line it is on and a
mark below the column.
-/

set_option autoImplicit false
set_option relaxedAutoImplicit false

namespace DocLocale.Command

/-- The ways in which text is set off. -/
inductive Ink
  | red | green | yellow | blue
  | bold | boldYellow | boldCyan | dimCyan
  deriving DecidableEq, Repr

/-- The terminal code of an ink. -/
def Ink.code : Ink → String
  | red => "31"
  | green => "32"
  | yellow => "33"
  | blue => "34"
  | bold => "1"
  | boldYellow => "1;33"
  | boldCyan => "1;36"
  | dimCyan => "2;36"

/-- Whether output is coloured. -/
abbrev Colored := Bool

/-- Text in an ink. -/
def paint (colored : Colored) (ink : Ink) (text : String) : String :=
  if colored then "\x1b[" ++ ink.code ++ "m" ++ text ++ "\x1b[0m" else text

/-- Text with blanks in front of it up to a width in characters. -/
def padLeft (width : Nat) (text : String) : String :=
  String.ofList (List.replicate (width - text.length) ' ') ++ text

/-- One of two words by number. -/
def plural (n : Nat) (one many : String) : String := if n = 1 then one else many

/-- The mark of success. -/
def successMark : String := "✓"

/-- The mark of failure. -/
def failureMark : String := "✘"

/-- A line of a successful command. -/
def success (colored : Colored) (message : String) : String :=
  paint colored .green successMark ++ " " ++ paint colored .green message ++ "\n"

/-- The line number of an issue, if it is on one. -/
def issueLine? : Issue → Option Nat
  | .unknownTag p _ | .unsupported p _ => some p.line
  | .misplacedTag _ => none

/-- The width of the widest line number. -/
def gutterWidth (issues : List Issue) : Nat :=
  match (issues.filterMap issueLine?).max? with
  | some n => (toString n).length
  | none => 1

/-- The columns between the bar and the mark below a column: as wide as the characters of the line
before it. -/
def caretPadding (p : Place) : Nat := Text.width (p.source.toList.take (p.column - 1))

/-- The lines that show a place. -/
def placeLines (colored : Colored) (width : Nat) (p : Place) : List String :=
  let bar := paint colored .blue "|"
  let gutter := padLeft width ""
  ["  " ++ paint colored .blue "-->" ++ " " ++ p.file ++ ":" ++ toString p.line ++ ":" ++
      toString p.column,
    gutter ++ " " ++ bar,
    paint colored .blue (padLeft width (toString p.line)) ++ " " ++ bar ++ " " ++ p.source,
    gutter ++ " " ++ bar ++ " " ++ padLeft (caretPadding p) "" ++ paint colored .yellow "^"]

/-- The lines of an issue. -/
def issueLines (colored : Colored) (width : Nat) (i : Issue) : List String :=
  let gutter := padLeft width ""
  let remark (ink : Ink) (label text : String) : String :=
    gutter ++ " " ++ paint colored .blue "=" ++ " " ++ paint colored ink label ++ " " ++ text
  let title := paint colored .boldYellow "warning" ++ ": " ++ i.message ++ "  " ++
    paint colored .dimCyan i.rule.label
  let place :=
    match i with
    | .unknownTag p _ | .unsupported p _ => placeLines colored width p
    | .misplacedTag m => ["  " ++ paint colored .blue "-->" ++ " " ++ m.key]
  [title] ++ place ++ (i.note?.map (remark .bold "note:")).toList ++
    (i.hint?.map (remark .boldCyan "hint:")).toList ++ [""]

/-- The line that counts the issues, all of which are warnings. -/
def summaryLine (colored : Colored) (issues : List Issue) : String :=
  let n := issues.length
  paint colored .red failureMark ++ " " ++ toString n ++ " " ++ plural n "problem" "problems" ++
    " (0 " ++ paint colored .red "errors" ++ ", " ++ toString n ++ " " ++
    paint colored .yellow (plural n "warning" "warnings") ++ ")"

/-- The report of some issues in the order given; nothing if there are none. -/
def report (colored : Colored) (issues : List Issue) : String :=
  if issues.isEmpty then ""
  else
    let width := gutterWidth issues
    String.join
      ((issues.flatMap (issueLines colored width) ++ [summaryLine colored issues]).map (· ++ "\n"))

end DocLocale.Command
