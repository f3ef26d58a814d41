import DocLocale.Source.Grammar.Signatures
import DocLocale.Source.Grammar.Templates

/-!
Literals and functions as expressions. Nothing of an expression is kept but its extent and what it can
be used for.
-/

set_option autoImplicit false
set_option relaxedAutoImplicit false

namespace DocLocale.Source.Grammar

open Parse

/-- The expression from `lo` to the end of the last token. -/
def exprFrom (lo : Nat) (form : ExprForm) : Parse Expr := do return ⟨lo, ← previousEnd, form⟩

/-- Expressions with commas between them. -/
def sequence (k : Knot) : Parse Expr := do
  let more : Parse (Option Unit) := do
    if ← eat "," then
      let _ ← k.assignment
      return some ()
    else return none
  let first ← k.assignment
  match ← repeated more with
  | [] => return first
  | _ => exprFrom first.lo .operation

/-- Expressions with commas between them, with `in` as an operator again. -/
def freeSequence (k : Knot) : Parse Expr :=
  within (fun ctx => { ctx with allowIn := true, expectColon := false }) (sequence k)

/-- Arguments of a call behind the opening parenthesis. -/
def arguments (k : Knot) : Parse Unit := do
  let argument : Parse Unit := do
    let _ ← eat "..."
    let _ ← freeAssignment k
  let _ ← commaList (isSymbol ")") argument
  expect ")"

/-- A list literal. -/
def listLiteral (k : Knot) : Parse Expr := do
  let lo ← position
  let element : Parse (Option Bool) := do
    if ← isSymbol "]" then return none
    if ← eat "," then return some true
    let _ ← eat "..."
    let e ← freeAssignment k
    if !(← isSymbol "]") then expect ","
    return some e.isAssignablePart
  expect "["
  let parts ← repeated element
  expect "]"
  exprFrom lo (.literal (parts.all id))

/-- Words that say what kind of property follows, unless they are its name. -/
def propertyWords : List String := ["get", "set", "async"]

/-- A property of an object literal, and whether it can be assigned to. -/
def objectProperty (k : Knot) : Parse Bool := do
  if ← eat "..." then return (← freeAssignment k).isAssignable
  if ← eat "*" then
    let _ ← propertyName k
    let _ ← functionTail k true
    return false
  let name ← propertyName k
  if ← eat ":" then return (← freeAssignment k).isAssignablePart
  if ← isOneOf ["(", "<"] then
    let _ ← functionTail k false
    return false
  match name.name with
  | .word w =>
    if propertyWords.contains w && !(← isOneOf [",", "=", closeBrace]) then
      let generator ← eat "*"
      let _ ← propertyName k
      let _ ← functionTail k generator
      return false
    else if !isReference w then fail
    else
      if ← eat "=" then
        let _ ← freeAssignment k
      return true
  | _ => fail

/-- An object literal. -/
def objectLiteral (k : Knot) : Parse Expr := do
  let lo ← position
  expect openBrace
  let parts ← commaList (isSymbol closeBrace) (objectProperty k)
  expect closeBrace
  exprFrom lo (.literal (parts.all id))

/-- A function as an expression, which starts at `lo`. -/
def functionExpression (k : Knot) (lo : Nat) : Parse Expr := do
  expectWord "function"
  let generator ← eat "*"
  if ← isAnyWord then
    let _ ← bindingName true
  let _ ← functionTail k generator
  exprFrom lo .other

/-- A class as an expression. -/
def classExpression (k : Knot) : Parse Expr := do
  let lo ← position
  expectWord "class"
  if (← isReferenceWord) then
    let _ ← bindingName true
  let _ ← k.classTail
  exprFrom lo .other

/-- What follows the arrow of a function. -/
def arrowBody (k : Knot) : Parse Unit := do
  if ← eat openBrace then
    let inside (ctx : Context) : Context :=
      { ctx with allowIn := true, inGenerator := false, expectColon := false }
    let _ ← within inside (blockItems k false)
  else
    let _ ← k.assignment

/-- Generics, parameters, result and arrow of a function. -/
def arrowHead (k : Knot) : Parse Unit := do
  let _ ← typeParameters k
  expect "("
  let _ ← parameters k
  if (← isSymbol ":") && !(← context).expectColon then
    let _ ← resultType k ":"
  if ← lineBreak then fail
  expect "=>"

/-- A function with an arrow that starts at `lo`, if one follows. -/
def arrow? (k : Knot) (lo : Nat) : Parse (Option Expr) := do
  if (← attempt (arrowHead k)).isSome then
    arrowBody k
    return some (← exprFrom lo .arrow)
  else return none

/-- A function with an arrow or an expression in parentheses. -/
def parenthesized (k : Knot) : Parse Expr := do
  let lo ← position
  match ← arrow? k lo with
  | some e => return e
  | none =>
    expect "("
    let e ← freeSequence k
    expect ")"
    match e.form with
    | .name _ | .place => exprFrom lo .place
    | _ => exprFrom lo .other

end DocLocale.Source.Grammar
