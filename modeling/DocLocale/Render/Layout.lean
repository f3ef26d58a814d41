/-!
Layout of code: lines, comments, statements and blocks. Every line ends with the line break of the
style, so laid out pieces are put together without separators.
-/

set_option autoImplicit false
set_option relaxedAutoImplicit false

namespace DocLocale.Render

/-- Indentation and line breaks. -/
structure Style where
  indentSize : Nat := 4
  newline : String := "\n"
  deriving DecidableEq, Repr

namespace Style

/-- The spaces in front of a line at a depth; there are none at or above the top. -/
def indent (s : Style) (depth : Int) : String :=
  String.ofList (List.replicate (s.indentSize * depth.toNat) ' ')

/-- One line of text. -/
def line (s : Style) (depth : Int) (text : String) : String := s.indent depth ++ text ++ s.newline

end Style

/-- A comment block; nothing when there are no lines. -/
def comment (s : Style) (depth : Int) (lines : List String) : String :=
  if lines.isEmpty then ""
  else
    s.line depth "/**" ++ String.join (lines.map fun l => s.line depth (" * " ++ l)) ++
      s.line depth " */"

/-- The comment above a piece of code, if it has one. -/
def optionalComment (s : Style) (depth : Int) : Option (List String) → String
  | some lines => comment s depth lines
  | none => ""

/-- The tokens that are not empty, with single spaces between them. -/
def tokenText (tokens : List String) : String :=
  " ".intercalate (tokens.filter fun t => !t.isEmpty)

/-- A statement: its comment and one line of tokens between two affixes. -/
def statement (s : Style) (depth : Int) (above : Option (List String)) (before : String)
    (tokens : List String) (after : String) : String :=
  optionalComment s depth above ++ s.line depth (before ++ tokenText tokens ++ after)

/-- A block: its comment, a header line, the body and a closing line. With an empty body it stands on
one line. -/
def block (s : Style) (depth : Int) (above : Option (List String)) (before : String)
    (header : List String) (opening body closing : String) : String :=
  let head := before ++ tokenText header ++ opening
  optionalComment s depth above ++
    (if body.isEmpty then s.line depth (head ++ closing)
    else s.line depth head ++ body ++ s.line depth closing)

/-- A piece of code in no particular language. -/
inductive Fragment
  | comment (lines : List String)
  | statement (tokens : List String) (above : Option (List String)) (before after : String)
  | block (header : List String) (body : List Fragment) (opening closing : String)
    (above : Option (List String)) (before : String)

mutual
/-- The text of a fragment at a depth. -/
def Fragment.render (s : Style) (depth : Int) : Fragment → String
  | .comment lines => Render.comment s depth lines
  | .statement tokens above before after => Render.statement s depth above before tokens after
  | .block header body opening closing above before =>
    Render.block s depth above before header opening (renderFragments s (depth + 1) body) closing

/-- The text of fragments one after the other. -/
def renderFragments (s : Style) (depth : Int) : List Fragment → String
  | [] => ""
  | f :: fs => f.render s depth ++ renderFragments s depth fs
end

end DocLocale.Render
