import DocLocale.Source.Grammar.Goal

/-!
Bindings, parameters, generics and type annotations.
-/

set_option autoImplicit false
set_option relaxedAutoImplicit false

namespace DocLocale.Source.Grammar

open Parse

/-- The opening brace. -/
def openBrace : String := "\x7b"

/-- The closing brace. -/
def closeBrace : String := "\x7d"

/-- An expression with `in` as an operator again. -/
def freeAssignment (k : Knot) : Parse Expr :=
  within (fun ctx => { ctx with allowIn := true, expectColon := false }) k.assignment

/-- A type behind a colon, if one follows. -/
def annotation? (k : Knot) : Parse (Option TypeExpr) := do
  if ← eat ":" then return some (← k.type).type else return none

/-- Whether the token ahead can follow a modifier: on the same line, the start of a member's name, a
bracket, a brace, a star or dots. -/
def followsModifier (c : Cursor) : Bool :=
  !c.lineBreak &&
    match c.token with
    | .word _ | .string _ | .number | .bigint => true
    | .symbol s => ["[", "\x7b", "*", "...", "#"].contains s
    | _ => false

/-- Takes one of some modifiers, if it is followed by something it can modify. Where `blocks` holds,
`static` before a brace is no modifier. -/
def modifier? (allowed : List String) (blocks : Bool) : Parse (Option String) := do
  match ← token with
  | .word w =>
    let ahead ← peek
    if !allowed.contains w then return none
    else if blocks && w == "static" && ahead.token == .symbol openBrace then return none
    else if followsModifier ahead then
      advance
      return some w
    else return none
  | _ => return none

/-- Takes a word that only parameters of constructors can carry, if a name or pattern follows. -/
def eatParameterModifier : Parse Bool := do
  match ← token with
  | .word w =>
    if ["public", "protected", "private", "readonly"].contains w then
      match (← peek).token with
      | .word _ | .symbol "[" | .symbol "\x7b" =>
        advance
        return true
      | _ => return false
    else return false
  | _ => return false

/-- A binding, with the default value it may have inside a pattern. -/
def bindingElement (k : Knot) : Parse Unit := do
  let _ ← k.target true
  if ← eat "=" then
    let _ ← freeAssignment k

/-- The elements of a list pattern behind its bracket. -/
def listPattern (k : Knot) : Parse Target := do
  let element : Parse (Option Unit) := do
    if ← isSymbol "]" then return none
    if (← token) == .eof then return none
    if ← eat "," then return some ()
    if ← eat "..." then
      let _ ← k.target true
    else bindingElement k
    if ← isSymbol "]" then return some ()
    expect ","
    return some ()
  let _ ← repeated element
  expect "]"
  return .pattern (← eat "?")

/-- The name of a property in a literal, a pattern or a class. -/
inductive PropertyName
  | word (name : String)
  | string (value : String)
  | number
  | computed
  | hidden (name : String)
  deriving DecidableEq

/-- A property name and where it stands. -/
structure NameSpan where
  name : PropertyName
  lo : Nat
  hi : Nat

/-- A property name that is no private one. -/
def propertyName (k : Knot) : Parse NameSpan := do
  let lo ← position
  match ← token with
  | .word w => advance; return ⟨.word w, lo, ← previousEnd⟩
  | .string v => advance; return ⟨.string v, lo, ← previousEnd⟩
  | .number | .bigint => advance; return ⟨.number, lo, ← previousEnd⟩
  | .symbol "[" =>
    advance
    let rest : Parse (Option Unit) := do
      if ← eat "," then
        let _ ← freeAssignment k
        return some ()
      else return none
    let _ ← freeAssignment k
    let _ ← repeated rest
    expect "]"
    return ⟨.computed, lo, ← previousEnd⟩
  | _ => fail

/-- A property name, private ones included. -/
def memberName (k : Knot) : Parse NameSpan := do
  if ← isSymbol "#" then
    let lo ← position
    advance
    let w ← anyWord
    return ⟨.hidden w, lo, ← previousEnd⟩
  else propertyName k

/-- The text of a member's name: a word as it is, anything else as written. -/
def NameSpan.text (n : NameSpan) : Parse String :=
  match n.name with
  | .word w => pure w
  | _ => slice n.lo n.hi

/-- The properties of an object pattern behind its brace. -/
def objectPattern (k : Knot) : Parse Target := do
  let property : Parse Unit := do
    if ← eat "..." then
      let _ ← k.target true
    else
      let name ← propertyName k
      if ← eat ":" then bindingElement k
      else
        match name.name with
        | .word w =>
          if (keywords.contains w && !bindingKeywords.contains w) || literalWords.contains w then fail
          if ← eat "=" then
            let _ ← freeAssignment k
        | _ => fail
  let _ ← commaList (isSymbol closeBrace) property
  expect closeBrace
  return .pattern (← eat "?")

/-- A binding name or pattern. -/
def target (k : Knot) (letAllowed : Bool) : Parse Target := do
  match ← token with
  | .symbol s =>
    if s == "[" then advance; listPattern k
    else if s == openBrace then advance; objectPattern k
    else fail
  | _ => return .name (← bindingName letAllowed)

/-- A parameter that is no rest parameter. -/
def plainParameter (k : Knot) : Parse Parameter := do
  let _ ← eatParameterModifier
  let t ← k.target true
  let marked ← eat "?"
  let type := (← annotation? k).getD (.basic .any)
  if ← eat "=" then
    let _ ← freeAssignment k
    return { hasDefault := true }
  else
    match t with
    | .name n => return { name := some n, type := type, isOptional := marked }
    | .pattern optional => return { type := type, isOptional := optional || marked }

/-- A rest parameter behind its dots. -/
def restParameter (k : Knot) : Parse Parameter := do
  let t ← k.target true
  let defaulted ← eat "="
  if defaulted then
    let _ ← freeAssignment k
  let type := (← annotation? k).getD (.basic .any)
  let _ ← eat "?"
  match t with
  | .name n =>
    if defaulted then return { type := type, isRest := true }
    else return { name := some n, type := type, isRest := true }
  | .pattern _ => return { type := type, isRest := true }

/-- Parameters up to the closing parenthesis, which is taken too. -/
def parametersOf (plain rest : Parse Parameter) : Parse (List Parameter) := do
  let element : Parse (Option Parameter) := do
    if ← isSymbol ")" then return none
    let p ← if ← eat "..." then rest else plain
    if ← isSymbol ")" then return some p
    expect ","
    return some p
  let ps ← repeated element
  expect ")"
  return ps

/-- The parameters of a function behind the opening parenthesis. -/
def parameters (k : Knot) : Parse (List Parameter) :=
  parametersOf (plainParameter k) (restParameter k)

/-- The parameters of a signature, which take no default values. -/
def signatureParameters (k : Knot) : Parse (List Parameter) := do
  let ps ← parameters k
  if ps.any (·.hasDefault) then fail else return ps

/-- Words that say who may use a member. -/
def accessWords : List String := ["public", "protected", "private"]

/-- The parameters of a constructor, which may carry modifiers; a pattern may not. -/
def constructorParameters (k : Knot) : Parse (List Parameter) :=
  let plain : Parse Parameter := do
    let access ← modifier? accessWords false
    let override ← modifier? ["override"] false
    let readonly ← modifier? ["readonly"] false
    let p ← plainParameter k
    if (access.isSome || override.isSome || readonly.isSome) && p.name.isNone && !p.hasDefault then
      fail
    else return p
  parametersOf plain (restParameter k)

/-- A generic parameter. -/
def typeParameter (k : Knot) : Parse TypeParameter := do
  let _ ← repeated (modifier?
    ["public", "private", "protected", "readonly", "abstract", "const", "override", "in", "out"] false)
  let name ← anyWord
  let constraint ← if ← eatWord "extends" then pure (some (← k.type).type) else pure none
  if ← eat "=" then
    let _ ← k.type
  return ⟨name, constraint⟩

/-- Generic parameters in angle brackets, if they follow. -/
def typeParameters (k : Knot) : Parse (List TypeParameter) := do
  if ← eat "<" then
    let ps ← commaList (isSymbol ">") (typeParameter k)
    expect ">"
    return ps
  else return []

/-- Type arguments in angle brackets. -/
def typeArguments (k : Knot) : Parse (List TypeExpr) := do
  expect "<"
  let ts ← commaList (isSymbol ">") k.type
  expect ">"
  return ts.map (·.type)

/-- The type of a function's result behind `mark`: a type, or a statement about a parameter, which is
kept as written. -/
def resultType (k : Knot) (mark : String) : Parse TypeSpan := do
  expect mark
  let lo ← position
  let here ← cursor
  let ahead := here.next
  let isRef : Token → Bool
    | .word w => isReference w
    | _ => false
  let asserts := here.token == .word "asserts" && isRef ahead.token
  if asserts then advance
  let here ← cursor
  let ahead := here.next
  let states := isRef here.token && ahead.token == .word "is" && !ahead.lineBreak
  if asserts || states then
    let _ ← anyWord
    if states then
      advance
      let _ ← k.type
    let hi ← previousEnd
    return ⟨.reference (← slice lo hi) [], lo, hi⟩
  else k.type

/-- The statements of a block behind its opening brace, up to the closing brace or the end. -/
def blockItems (k : Knot) (topLevel : Bool) : Parse (List Item) := do
  let item : Parse (Option Item) := do
    if ← isSymbol closeBrace then return none
    if (← token) == .eof then return none
    return some (← k.statement topLevel)
  let items ← repeated item
  let _ ← eat closeBrace
  return items

/-- The body of a function, which may be left out where a statement may end. -/
def functionBody (k : Knot) (generator : Bool) : Parse Unit := do
  if ← isSymbol openBrace then
    advance
    let inside (ctx : Context) : Context :=
      { ctx with allowIn := true, inGenerator := generator, expectColon := false }
    let _ ← within inside (blockItems k false)
  else expectSemicolon

/-- Generics, parameters, result and body of a function or method. -/
def functionTail (k : Knot) (generator : Bool) : Parse Function := do
  let generics ← typeParameters k
  expect "("
  let ps ← parameters k
  let returns ← if ← isSymbol ":" then pure (some (← resultType k ":").type) else pure none
  functionBody k generator
  return ⟨generics, ps, returns⟩

end DocLocale.Source.Grammar
