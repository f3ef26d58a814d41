import DocLocale.Source.DocComment
import DocLocale.Source.Grammar.Modules
import DocLocale.Source.Location

/-!
A declaration file: its items and doc comments. A byte order mark in front of the text is not read, but
it is part of the text that source slices are taken from.
-/

set_option autoImplicit false
set_option relaxedAutoImplicit false

namespace DocLocale.Source

/-- The byte order mark. -/
def byteOrderMark : Char := Char.ofNat 0xFEFF

/-- A text without the byte order mark in front of it. -/
def withoutMark : List Char → List Char
  | [] => []
  | c :: cs => if c = byteOrderMark then cs else c :: cs

/-- A declaration file. -/
structure File where
  /-- The text as it was given. -/
  text : List Char
  items : List Item
  comments : List DocComment

namespace File

/-- How deep constructs can be nested in a text of a given size; every level takes a byte. -/
def depth (size : Nat) : Nat := 16 * (size + 4)

/-- Reads a declaration file; `none` if its text does not follow the grammar. -/
def parse? (text : String) : Option File :=
  let chars := text.toList
  let plain := withoutMark chars
  let size := Text.byteLength plain
  let ctx : Context := { text := chars, size := size }
  match Grammar.file (Grammar.knot (depth size)) ctx (Cursor.start plain) with
  | .ok items c => some ⟨chars, items, DocComment.collect c.comments⟩
  | .fail _ => none

/-- The doc comment of the declaration that starts at `lo`. Positions in a file are counted from its own
start. -/
def comment? (f : File) (lo : Nat) : Option DocComment :=
  DocComment.attached? f.comments f.text 0 lo

/-- The text between two bytes; empty where it cannot be cut. -/
def snippet (f : File) (lo hi : Nat) : String :=
  String.ofList ((Text.slice? f.text lo hi).getD [])

/-- The line and column of a byte. -/
def locate (f : File) (position : Nat) : Location := Source.locate (withoutMark f.text) position

end File

/-- Where texts start that are laid out one behind the other, with a byte between them, from `start`. -/
def layout (start : Nat) : List String → List Nat
  | [] => []
  | t :: ts => start :: layout (start + t.utf8ByteSize + 1) ts

end DocLocale.Source
