import DocLocale.Text.Width

/-!
Lines and columns. Columns are counted as they are displayed.
-/

set_option autoImplicit false
set_option relaxedAutoImplicit false

namespace DocLocale.Source

/-- A line and a column, both counted from one, and the text of the line. -/
structure Location where
  line : Nat
  column : Nat
  source : String
  deriving DecidableEq, Repr

/-- The columns a character takes on a line: a tab takes four, and a character of four bytes one more than
its width. -/
def columnsOf (c : Char) : Nat :=
  if c = '\t' then 4 else Text.charWidth c + if c.utf8Size = 4 then 1 else 0

/-- Whether a line ends behind a character that `rest` follows: at a line feed, or a carriage return
without one. -/
def endsLine (c : Char) (rest : List Char) : Bool :=
  c = '\n' || (c = '\r' && rest.head? ≠ some '\n')

/-- The location of the byte that `bytes` bytes lie before, counted from a place on the line that starts
with `start`. -/
def locateFrom (line column : Nat) (start : List Char) (bytes : Nat) : List Char → Location
  | [] => ⟨line, column + 1, String.ofList (start.takeWhile (· ≠ '\n'))⟩
  | c :: cs =>
    if bytes = 0 then ⟨line, column + 1, String.ofList (start.takeWhile (· ≠ '\n'))⟩
    else if endsLine c cs then locateFrom (line + 1) 0 cs (bytes - c.utf8Size) cs
    else locateFrom line (column + columnsOf c) start (bytes - c.utf8Size) cs

/-- The location of a byte of a text. -/
def locate (text : List Char) (position : Nat) : Location := locateFrom 1 0 text position text

end DocLocale.Source
