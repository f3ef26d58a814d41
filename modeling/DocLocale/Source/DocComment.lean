import DocLocale.Bisection
import DocLocale.Source.Cursor
import DocLocale.Text.Bytes
import DocLocale.Text.Identifier

/-!
Doc comments. A doc comment is a block comment whose text starts with a star. It belongs to the
declaration that follows it, if nothing but blanks and modifiers stands between the two.
-/

set_option autoImplicit false
set_option relaxedAutoImplicit false

namespace DocLocale.Source

/-- A tag of a comment: its name, and where its at sign stands. -/
structure TagMark where
  name : String
  position : Nat
  deriving DecidableEq, Repr

/-- A doc comment: where it starts and ends, and its tags in order. -/
structure DocComment where
  lo : Nat
  hi : Nat
  tags : List TagMark
  deriving DecidableEq, Repr

/-- Spaces and tabs. -/
def isIndent (c : Char) : Bool := c = ' ' || c = '\t'

/-- A line without its indentation, and the bytes that takes. -/
def skipIndent (line : List Char) : Nat × List Char :=
  ((line.takeWhile isIndent).length, line.dropWhile isIndent)

/-- The name of a tag at the front of a text: a letter or underscore, then word characters and
hyphens. -/
def tagName? : List Char → Option String
  | [] => none
  | c :: cs =>
    if c.isAlpha || c = '_' then
      some (String.ofList (c :: cs.takeWhile fun d => Text.isWordChar d || d = '-'))
    else none

/-- The tag of a line that starts at `position`. Only indentation and one star may stand before its at
sign. -/
def lineTag? (position : Nat) (line : List Char) : Option TagMark :=
  let (before, rest) := skipIndent line
  let (star, rest) :=
    match rest with
    | '*' :: r => (1, r)
    | r => (0, r)
  let (between, rest) := skipIndent rest
  match rest with
  | '@' :: name => (tagName? name).map fun n => ⟨n, position + before + star + between⟩
  | _ => none

/-- The tags of lines, the first of which starts at `position`. -/
def lineTags (position : Nat) : List (List Char) → List TagMark
  | [] => []
  | line :: lines =>
    (lineTag? position line).toList ++ lineTags (position + Text.byteLength line + 1) lines

/-- A block comment as a doc comment, if it is one. -/
def DocComment.ofComment? (c : Comment) : Option DocComment :=
  if c.body.head? = some '*' then
    some ⟨c.lo, c.hi, lineTags (c.lo + 2) (Text.splitAt '\n' c.body)⟩
  else none

/-- Keeps the first of each run of comments that start at the same place, behind one that starts at
`lo`. -/
def DocComment.distinctFrom (lo : Nat) : List DocComment → List DocComment
  | [] => []
  | c :: cs => if c.lo = lo then distinctFrom lo cs else c :: distinctFrom c.lo cs

/-- Keeps the first of each run of comments that start at the same place. -/
def DocComment.distinct : List DocComment → List DocComment
  | [] => []
  | c :: cs => c :: distinctFrom c.lo cs

/-- The doc comments among block comments that may come in any order and more than once, by where they
start. -/
def DocComment.collect (cs : List Comment) : List DocComment :=
  distinct ((cs.filterMap ofComment?).mergeSort fun a b => a.lo ≤ b.lo)

/-- Words that may stand between a comment and the start of its declaration. -/
def gapWords : List String :=
  ["declare", "export", "default", "static", "readonly", "public", "private", "protected", "abstract",
    "async", "const", "let", "var", "override"]

/-- The last of some comments that ends at or before a position. The comments are given in order. -/
def DocComment.lastBefore? (comments : List DocComment) (position : Nat) : Option DocComment :=
  match partitionPoint (fun c => c.hi ≤ position) comments.toArray with
  | 0 => none
  | n + 1 => comments[n]?

/-- The offset of a position in a text that starts at `start`, if it does not lie before the text. -/
def offset? (start position : Nat) : Option Nat :=
  if start ≤ position then some (position - start) else none

/-- The doc comment of the declaration that starts at `lo`: the last one that ends before it, if only
blanks and modifiers stand between. The comments are given in order; positions are counted from one place
for all texts, and this text starts at `start`. -/
def DocComment.attached? (comments : List DocComment) (text : List Char) (start lo : Nat) :
    Option DocComment := do
  let c ← lastBefore? comments lo
  let front ← offset? start c.hi
  let back ← offset? start lo
  let gap ← Text.slice? text front back
  if (Text.words gap).all fun w => gapWords.contains (String.ofList w) then some c else none

end DocLocale.Source
