import DocLocale.Source.Grammar.Declarations

/-!
Statements. Those without declarations have no place in the tree; they are parsed only to find where
they end.
-/

set_option autoImplicit false
set_option relaxedAutoImplicit false

namespace DocLocale.Source.Grammar

open Parse

/-- A statement as the body of another one. -/
def substatement (k : Knot) : Parse Unit := do
  let _ ← k.statement false

/-- A block. -/
def block (k : Knot) : Parse Unit := do
  expect openBrace
  let _ ← blockItems k false

/-- An expression in parentheses. -/
def condition (k : Knot) : Parse Unit := do
  expect "("
  let _ ← freeSequence k
  expect ")"

/-- An `if` statement behind its keyword; the closing parenthesis may be missing. -/
def ifRest (k : Knot) : Parse Unit := do
  expect "("
  let _ ← freeSequence k
  let _ ← eat ")"
  substatement k
  if ← eatWord "else" then substatement k

/-- What a loop over several steps starts with, or the binding of a loop over elements. -/
def loopHead (k : Knot) : Parse Unit :=
  within (fun ctx => { ctx with allowIn := false, expectColon := false }) do
    let here ← cursor
    if here.token == .word "const" || here.token == .word "var" || here.token == .word "let" then
      advance
      let _ ← bindings k (here.token == .word "var")
    else
      let _ ← sequence k

/-- A `for` statement behind its keyword. -/
def forRest (k : Knot) : Parse Unit := do
  let part (close : String) : Parse Unit := do
    if !(← isSymbol close) then
      let _ ← freeSequence k
    expect close
  let _ ← eatWord "await"
  expect "("
  if ← eat ";" then
    part ";"
    part ")"
  else
    loopHead k
    if (← eatWord "of") || (← eatWord "in") then part ")"
    else
      expect ";"
      part ";"
      part ")"
  substatement k

/-- A `switch` statement behind its keyword; it has at most one default. -/
def switchRest (k : Knot) : Parse Unit := do
  let body : Parse (Option Unit) := do
    if (← isSymbol closeBrace) || (← isWord "case") || (← isWord "default") then return none
    substatement k
    return some ()
  let clause : Parse (Option Bool) := do
    if ← eatWord "case" then
      let _ ← freeSequence k
      expect ":"
      let _ ← repeated body
      return some false
    else if ← eatWord "default" then
      expect ":"
      let _ ← repeated body
      return some true
    else return none
  condition k
  expect openBrace
  let defaults ← repeated clause
  expect closeBrace
  if 1 < defaults.countP id then fail

/-- A `try` statement behind its keyword. -/
def tryRest (k : Knot) : Parse Unit := do
  block k
  if ← eatWord "catch" then
    if ← eat "(" then
      let _ ← k.target true
      let _ ← annotation? k
      expect ")"
    block k
  if ← eatWord "finally" then block k

/-- A jump behind its keyword, with the label it may name. -/
def jumpRest : Parse Unit := do
  if ← eatSemicolon then return ()
  let _ ← anyWord
  expectSemicolon

/-- The rest of a statement behind the keyword `w`, if the word starts one. -/
def keywordStatement? (k : Knot) (w : String) : Parse (Option Unit) := do
  let done (p : Parse Unit) : Parse (Option Unit) := do
    advance
    p
    return some ()
  match w with
  | "if" => done (ifRest k)
  | "for" => done (forRest k)
  | "while" | "with" => done do
    condition k
    substatement k
  | "do" => done do
    substatement k
    expectWord "while"
    condition k
    let _ ← eat ";"
  | "switch" => done (switchRest k)
  | "try" => done (tryRest k)
  | "break" | "continue" => done jumpRest
  | "debugger" => done expectSemicolon
  | "return" => done do
    if ← eatSemicolon then return ()
    let _ ← freeSequence k
    expectSemicolon
  | "throw" => done do
    if ← lineBreak then fail
    let _ ← freeSequence k
    expectSemicolon
  | _ => return none

/-- An expression, a label, or a declaration that starts with a word that could be a name. -/
def expressionStatement (k : Knot) (lo : Nat) : Parse Item := do
  let e ← freeSequence k
  match e.form with
  | .name w =>
    if ← eat ":" then
      substatement k
      return .skipped lo "statement"
    match ← wordDeclaration? k lo w with
    | some item => return item
    | none => pure ()
  | _ => pure ()
  expectSemicolon
  return .skipped lo "statement"

/-- Whether a token may follow `let` in a declaration. -/
def startsBinding (c : Cursor) : Bool :=
  match c.token with
  | .word w => !keywords.contains w || ["yield", "await", "let"].contains w
  | .symbol s => s == "[" || s == openBrace
  | _ => false

/-- Whether a token is a name on the same line. -/
def isNameHere (c : Cursor) : Bool :=
  !c.lineBreak &&
    match c.token with
    | .word w => isReference w
    | _ => false

/-- A declaration of resources. -/
def usingRest (k : Knot) (lo : Nat) : Parse Item := do
  let _ ← bindings k false
  expectSemicolon
  return .skipped lo "using declaration"

/-- A statement that is no import or export. -/
def plainStatement (k : Knot) : Parse Item := do
  let here ← cursor
  let ahead := here.next
  let lo := here.lo
  match here.token with
  | .symbol s =>
    if s == ";" then
      advance
      return .empty
    else if s == openBrace then
      block k
      return .skipped lo "statement"
    else expressionStatement k lo
  | .word w =>
    if (← keywordStatement? k w).isSome then return .skipped lo "statement"
    if w == "const" && ahead.token == .word "enum" then
      advance
      advance
      enumRest k lo
    else if w == "const" || w == "var" || (w == "let" && startsBinding ahead) then varDeclaration k lo
    else if w == "function" then functionDeclaration k lo
    else if w == "async" && ahead.token == .word "function" && !ahead.lineBreak then
      advance
      functionDeclaration k lo
    else if w == "class" then classDeclaration k lo
    else if w == "using" && isNameHere ahead then
      advance
      usingRest k lo
    else if w == "await" && ahead.token == .word "using" && !ahead.lineBreak &&
        isNameHere ahead.next then
      advance
      advance
      usingRest k lo
    else if (w == "interface" || w == "type" || w == "enum") && isNameHere ahead then
      match ← keywordDeclaration? k lo w with
      | some item => return item
      | none => fail
    else if w == "export" then fail
    else if w == "import" && ahead.token != .symbol "(" && ahead.token != .symbol "." then fail
    else expressionStatement k lo
  | _ => expressionStatement k lo

end DocLocale.Source.Grammar
