import DocLocale.Source.Grammar.Goal

/-!
Template and regular expression literals. Their text is not made of tokens, so it is read character by
character from where the cursor stands.
-/

set_option autoImplicit false
set_option relaxedAutoImplicit false

namespace DocLocale.Source.Grammar

open Parse

/-- How the text part of a template ends. -/
inductive TemplateStop
  | quote
  | hole

/-- Reads the text of a template up to its end or to a hole: how it ends, and the bytes and text behind
that. -/
def templateText (bytes : Nat) : List Char → Option (TemplateStop × Nat × List Char)
  | [] => none
  | '\\' :: c :: rest => templateText (bytes + 1 + c.utf8Size) rest
  | c :: rest =>
    if c.toNat = 0x60 then some (.quote, bytes + 1, rest)
    else if c = '$' && rest.head? = some (Char.ofNat 0x7B) then
      some (.hole, bytes + 2, rest.drop 1)
    else templateText (bytes + c.utf8Size) rest

/-- A cursor on the first token of `rest`, which starts at `position`. -/
def cursorAt (c : Cursor) (position : Nat) (rest : List Char) : Cursor :=
  Cursor.ofGap position (skip position false c.comments .blanks rest)

/-- The part of a template from a place in its text on. -/
def templateFrom {α : Type} (hole : Parse α) : Nat → Nat → List Char → Parse Unit
  | 0, _, _ => fail
  | fuel + 1, start, text => do
    let c ← cursor
    match templateText 0 text with
    | none => fail
    | some (.quote, bytes, rest) => moveTo (cursorAt c (start + bytes) rest)
    | some (.hole, bytes, rest) =>
      moveTo (cursorAt c (start + bytes) rest)
      let _ ← hole
      let c ← cursor
      if c.token == .symbol "\x7d" then templateFrom hole fuel c.hi c.after else fail

/-- A template literal whose opening quote is the current token. -/
def template {α : Type} (hole : Parse α) : Parse Unit := do
  let c ← cursor
  templateFrom hole (← budget) c.hi c.after

/-- The text of a regular expression behind its opening slash. A slash inside brackets does not close
it. -/
def regexText (inClass : Bool) (bytes : Nat) : List Char → Option (Nat × List Char)
  | [] => none
  | '\\' :: c :: rest =>
    if isLineEnd c then none else regexText inClass (bytes + 1 + c.utf8Size) rest
  | c :: rest =>
    if isLineEnd c then none
    else if c = '[' then regexText true (bytes + 1) rest
    else if c = ']' then regexText false (bytes + 1) rest
    else if c = '/' && !inClass then some (bytes + 1, rest)
    else regexText inClass (bytes + c.utf8Size) rest

/-- A regular expression literal whose opening slash is the current token, with its flags. -/
def regex : Parse Unit := do
  let c ← cursor
  match regexText false 1 (c.here.drop 1) with
  | none => fail
  | some (bytes, rest) =>
    let flags := rest.takeWhile Text.isIdentifierPart
    let size := flags.foldl (fun n c => n + c.utf8Size) 0
    moveTo (cursorAt c (c.lo + bytes + size) (rest.drop flags.length))

end DocLocale.Source.Grammar
