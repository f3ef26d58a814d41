import DocLocale.Source.Token
import DocLocale.Text.Blank

/-!
A cursor stands on one token of a source. Moving on skips blanks and comments, remembers whether a
line was broken, and keeps the block comments it passed.
-/

set_option autoImplicit false
set_option relaxedAutoImplicit false

namespace DocLocale.Source

/-- A closed block comment: where it starts and ends, and the text between its marks. -/
structure Comment where
  lo : Nat
  hi : Nat
  body : List Char

/-- Blanks between tokens: white space, the byte order mark and the zero width space. -/
def isSpace (c : Char) : Bool := Text.isBlank c || c.toNat = 0xFEFF || c.toNat = 0x200B

/-- What is being skipped: blanks, a line comment, or a block comment that started at `lo`, with its
text so far in reverse. -/
inductive Skipping
  | blanks
  | line
  | block (lo : Nat) (body : List Char)

/-- The place behind blanks and comments. -/
structure Gap where
  position : Nat
  rest : List Char
  lineBreak : Bool
  comments : List Comment

/-- Skips blanks and comments. A block comment that is not closed swallows the rest of the text and is
not kept. -/
def skip (position : Nat) (lineBreak : Bool) (comments : List Comment) :
    Skipping → List Char → Gap
  | _, [] => ⟨position, [], lineBreak, comments⟩
  | .blanks, '/' :: '/' :: cs => skip (position + 2) lineBreak comments .line cs
  | .blanks, '/' :: '*' :: cs => skip (position + 2) lineBreak comments (.block position []) cs
  | .blanks, c :: cs =>
    if isSpace c then skip (position + c.utf8Size) (lineBreak || isLineEnd c) comments .blanks cs
    else ⟨position, c :: cs, lineBreak, comments⟩
  | .line, c :: cs =>
    if isLineEnd c then skip (position + c.utf8Size) true comments .blanks cs
    else skip (position + c.utf8Size) lineBreak comments .line cs
  | .block lo body, '*' :: '/' :: cs =>
    skip (position + 2) lineBreak (⟨lo, position + 2, body.reverse⟩ :: comments) .blanks cs
  | .block lo body, c :: cs =>
    skip (position + c.utf8Size) (lineBreak || isLineEnd c) comments (.block lo (c :: body)) cs

/-- A token in its place. -/
structure Cursor where
  token : Token
  lo : Nat
  hi : Nat
  /-- The text from the token on. -/
  here : List Char
  /-- The text behind the token. -/
  after : List Char
  /-- Whether a line was broken before the token. -/
  lineBreak : Bool
  /-- The end of the token before. -/
  previousEnd : Nat
  /-- Block comments passed so far, latest first. -/
  comments : List Comment

namespace Cursor

/-- The token behind a gap. -/
def ofGap (previousEnd : Nat) (g : Gap) : Cursor :=
  let p := tokenPiece g.rest
  ⟨p.value, g.position, g.position + p.bytes, g.rest, p.rest, g.lineBreak, previousEnd, g.comments⟩

/-- The next token. -/
def next (c : Cursor) : Cursor := ofGap c.hi (skip c.hi false c.comments .blanks c.after)

/-- Takes `n` characters from the token's place as one symbol. -/
def relex (c : Cursor) (text : String) : Cursor :=
  { c with token := .symbol text, hi := c.lo + text.length, after := c.here.drop text.length }

/-- The first token of a text; a line that starts with `#!` is passed over. -/
def start (cs : List Char) : Cursor :=
  match cs with
  | '#' :: '!' :: _ =>
    ofGap 0 (skip 0 false [] .line cs)
  | cs => ofGap 0 (skip 0 false [] .blanks cs)

end Cursor

end DocLocale.Source
