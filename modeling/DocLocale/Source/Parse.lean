import DocLocale.Source.Cursor
import DocLocale.Text.Bytes

/-!
Parsers over cursors. A parser that fails keeps the place where it failed, since some constructs go on
from there; `attempt` goes back instead.
-/

set_option autoImplicit false
set_option relaxedAutoImplicit false

namespace DocLocale.Source

/-- What parsers look at besides the cursor. -/
structure Context where
  /-- The text that source slices are taken from. -/
  text : List Char
  /-- The number of bytes of the text. -/
  size : Nat
  /-- Whether `in` is an operator. -/
  allowIn : Bool := true
  /-- Whether `yield` is an operator. -/
  inGenerator : Bool := false
  /-- Whether a type stands behind `extends` in a conditional type. -/
  inExtends : Bool := false
  /-- Whether a colon behind a parenthesis belongs to an enclosing conditional expression. -/
  expectColon : Bool := false

/-- A parser's result. -/
inductive Outcome (α : Type)
  | ok (value : α) (next : Cursor)
  | fail (stopped : Cursor)

/-- A parser. -/
def Parse (α : Type) := Context → Cursor → Outcome α

namespace Parse

/-- Succeeds without moving. -/
protected def pure {α : Type} (a : α) : Parse α := fun _ c => .ok a c

/-- One parser after another. -/
protected def bind {α β : Type} (p : Parse α) (f : α → Parse β) : Parse β := fun ctx c =>
  match p ctx c with
  | .ok a c => f a ctx c
  | .fail c => .fail c

instance : Monad Parse where
  pure := Parse.pure
  bind := Parse.bind

/-- Fails where it stands. -/
def fail {α : Type} : Parse α := fun _ c => .fail c

instance {α : Type} : Inhabited (Parse α) := ⟨fail⟩

/-- The cursor. -/
def cursor : Parse Cursor := fun _ c => .ok c c

/-- The context. -/
def context : Parse Context := fun ctx c => .ok ctx c

/-- Moves the cursor. -/
def moveTo (c : Cursor) : Parse Unit := fun _ _ => .ok () c

/-- Runs a parser in another context. -/
def within {α : Type} (f : Context → Context) (p : Parse α) : Parse α := fun ctx c => p (f ctx) c

/-- Runs a parser and goes back if it fails. -/
def attempt {α : Type} (p : Parse α) : Parse (Option α) := fun ctx c =>
  match p ctx c with
  | .ok a next => .ok (some a) next
  | .fail _ => .ok none c

/-- Runs a parser and goes on from where it stopped, also if it failed. -/
def tolerate {α : Type} (p : Parse α) : Parse (Option α) := fun ctx c =>
  match p ctx c with
  | .ok a next => .ok (some a) next
  | .fail stopped => .ok none stopped

/-- Whether a parser would succeed; the cursor stays. -/
def wouldParse {α : Type} (p : Parse α) : Parse Bool := fun ctx c =>
  match p ctx c with
  | .ok _ _ => .ok true c
  | .fail _ => .ok false c

/-- Moves to the next token. -/
def advance : Parse Unit := fun _ c => .ok () c.next

/-- The token. -/
def token : Parse Token := fun _ c => .ok c.token c

/-- The token after the current one. -/
def peek : Parse Cursor := fun _ c => .ok c.next c

/-- Where the current token starts. -/
def position : Parse Nat := fun _ c => .ok c.lo c

/-- Where the token before the current one ends. -/
def previousEnd : Parse Nat := fun _ c => .ok c.previousEnd c

/-- Whether a line was broken before the current token. -/
def lineBreak : Parse Bool := fun _ c => .ok c.lineBreak c

/-- The source text between two positions; empty where it cannot be cut. -/
def slice (lo hi : Nat) : Parse String := fun ctx c =>
  .ok (String.ofList ((Text.slice? ctx.text lo hi).getD [])) c

/-- Whether the current token is a symbol. -/
def isSymbol (s : String) : Parse Bool := fun _ c => .ok (c.token == .symbol s) c

/-- Whether the current token is one of some symbols. -/
def isOneOf (ss : List String) : Parse Bool := fun _ c =>
  .ok (match c.token with
    | .symbol s => ss.contains s
    | _ => false) c

/-- Whether the current token is a word. -/
def isWord (w : String) : Parse Bool := fun _ c => .ok (c.token == .word w) c

/-- Whether the current token is any word. -/
def isAnyWord : Parse Bool := fun _ c =>
  .ok (match c.token with
    | .word _ => true
    | _ => false) c

/-- Whether the current token may refer to a binding. -/
def isReferenceWord : Parse Bool := fun _ c =>
  .ok (match c.token with
    | .word w => isReference w
    | _ => false) c

/-- Takes a symbol if it is there. -/
def eat (s : String) : Parse Bool := fun _ c =>
  if c.token == .symbol s then .ok true c.next else .ok false c

/-- Takes a word if it is there. -/
def eatWord (w : String) : Parse Bool := fun _ c =>
  if c.token == .word w then .ok true c.next else .ok false c

/-- Takes a symbol that has to be there. -/
def expect (s : String) : Parse Unit := fun _ c =>
  if c.token == .symbol s then .ok () c.next else .fail c

/-- Takes a word that has to be there. -/
def expectWord (w : String) : Parse Unit := fun _ c =>
  if c.token == .word w then .ok () c.next else .fail c

/-- Whether a statement may end here: at a semicolon, a closing brace, the end, or a line break. -/
def atSemicolon : Parse Bool := fun _ c =>
  .ok (c.token == .symbol ";" || c.token == .symbol "\x7d" || c.token == .eof || c.lineBreak) c

/-- Takes the end of a statement if it may end here. -/
def eatSemicolon : Parse Bool := fun _ c =>
  if c.token == .symbol ";" then .ok true c.next
  else .ok (c.token == .symbol "\x7d" || c.token == .eof || c.lineBreak) c

/-- Takes the end of a statement, which has to be possible here. -/
def expectSemicolon : Parse Unit := do
  if ← eatSemicolon then return () else fail

/-- A word of any kind. -/
def anyWord : Parse String := fun _ c =>
  match c.token with
  | .word w => .ok w c.next
  | _ => .fail c

/-- Words that may name a binding although they are keywords elsewhere. -/
def bindingKeywords : List String := ["this", "let", "yield", "await"]

/-- The name of a binding. -/
def bindingName (letAllowed : Bool) : Parse String := fun _ c =>
  match c.token with
  | .word w =>
    if (keywords.contains w && !bindingKeywords.contains w) || literalWords.contains w ||
        (w == "let" && !letAllowed) then .fail c
    else .ok w c.next
  | _ => .fail c

/-- Repeats a step until it gives nothing, at most `fuel` times. -/
def repeatN {α : Type} (step : Parse (Option α)) : Nat → Parse (List α)
  | 0 => pure []
  | fuel + 1 => do
    match ← step with
    | none => return []
    | some a => return a :: (← repeatN step fuel)

/-- How often a step can be repeated that takes at least a byte each time. -/
def budget : Parse Nat := fun ctx c => .ok (ctx.size + 2 - c.lo) c

/-- Repeats a step until it gives nothing. -/
def repeated {α : Type} (step : Parse (Option α)) : Parse (List α) := do repeatN step (← budget)

/-- Elements with commas between them up to a place where `closed` holds; a comma may stand before it. -/
def commaList {α : Type} (closed : Parse Bool) (element : Parse α) : Parse (List α) := do
  let rest : Parse (Option α) := do
    if ← closed then return none
    let a ← element
    if ← eat "," then return some a
    if ← closed then return some a
    fail
  repeated rest

end Parse

end DocLocale.Source
