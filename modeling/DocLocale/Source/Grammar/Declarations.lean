import DocLocale.Source.Grammar.Classes

/-!
Declarations. Each is parsed from its keyword on; the caller says where it starts, since modifiers in
front of the keyword belong to it.
-/

set_option autoImplicit false
set_option relaxedAutoImplicit false

namespace DocLocale.Source.Grammar

open Parse

/-- One binding of a variable declaration. -/
def binding (k : Knot) (letAllowed : Bool) : Parse Binding := do
  let lo ← position
  let t ← k.target letAllowed
  match t with
  | .name _ =>
    let _ ← eat "!"
  | .pattern _ => pure ()
  let type := (← annotation? k).getD (.basic .any)
  if ← eat "=" then
    let _ ← k.assignment
  match t with
  | .name n => return .named n type
  | .pattern _ => return .pattern lo

/-- Bindings with commas between them; a semicolon in place of one ends them. -/
def bindings (k : Knot) (letAllowed : Bool) : Parse (List Binding) := do
  let rec go : Nat → Parse (List Binding)
    | 0 => pure []
    | fuel + 1 => do
      if ← isSymbol ";" then return []
      let b ← binding k letAllowed
      if ← eat "," then return b :: (← go fuel) else return [b]
  go (← budget)

/-- The end of a variable declaration. What stands between the last binding and the end of the statement
is passed over. -/
def varEnd (k : Knot) : Parse Unit := do
  if ← eatSemicolon then return ()
  let skipped : Parse (Option Unit) := do
    if ← eatSemicolon then return none
    advance
    return some ()
  let _ ← tolerate (sequence k)
  let _ ← repeated skipped

/-- A variable declaration. -/
def varDeclaration (k : Knot) (lo : Nat) : Parse Item := do
  let keyword ← anyWord
  let bs ← bindings k (keyword == "var")
  varEnd k
  return .vars lo (keyword == "const") bs

/-- A function declaration. -/
def functionDeclaration (k : Knot) (lo : Nat) : Parse Item := do
  expectWord "function"
  let generator ← eat "*"
  let name ← bindingName true
  return .function lo name (← functionTail k generator)

/-- A class declaration. -/
def classDeclaration (k : Knot) (lo : Nat) : Parse Item := do
  expectWord "class"
  let name ← bindingName false
  let c ← k.classTail
  return .classDecl lo name c.generics c.bases c.interfaces c.members

/-- An interface behind its keyword. A second `extends` is passed over. -/
def interfaceRest (k : Knot) (lo : Nat) : Parse Item := do
  let name ← anyWord
  let generics ← typeParameters k
  let bases ← if ← eatWord "extends" then heritageList k else pure []
  if ← isWord "extends" then
    let skipped : Parse (Option Unit) := do
      if (← isSymbol openBrace) || (← token) == .eof then return none
      advance
      return some ()
    let _ ← repeated skipped
  return .interface lo name generics bases (← typeMembers k)

/-- A type alias behind its keyword. -/
def aliasRest (k : Knot) (lo : Nat) : Parse Item := do
  let name ← anyWord
  let generics ← typeParameters k
  expect "="
  let t ← k.type
  expectSemicolon
  return .typeAlias lo name generics t.type

/-- The name of an enum member; a computed one is left empty. -/
def enumMemberName (k : Knot) : Parse String := do
  let lo ← position
  match ← token with
  | .word w => advance; return w
  | .string _ | .number => advance; slice lo (← previousEnd)
  | .symbol "[" =>
    advance
    let _ ← freeSequence k
    expect "]"
    return ""
  | _ => fail

/-- An enum member: its name and the text of its value, if one is given. -/
def enumMember (k : Knot) : Parse (String × Option String) := do
  let name ← enumMemberName k
  if ← eat "=" then
    let e ← freeAssignment k
    return (name, some (← slice e.lo e.hi))
  else return (name, none)

/-- Enum members with values; one without a value has its position. -/
def enumMembers (index : Nat) : List (String × Option String) → List EnumMember
  | [] => []
  | (name, value) :: ms => ⟨name, value.getD (toString index)⟩ :: enumMembers (index + 1) ms

/-- An enum behind its keyword. -/
def enumRest (k : Knot) (lo : Nat) : Parse Item := do
  let name ← anyWord
  expect openBrace
  let ms ← commaList (isSymbol closeBrace) (enumMember k)
  expect closeBrace
  return .enum lo name (enumMembers 0 ms)

/-- The items between the braces of a namespace. -/
def namespaceBody (k : Knot) : Parse (List Item) := do
  expect openBrace
  blockItems k true

/-- A namespace behind its keyword. Of a dotted name each part holds the next, which starts at its own
name. -/
def namespaceRest (k : Knot) (lo : Nat) : Parse Item := do
  let rec go : Nat → Nat → Parse Item
    | 0, _ => fail
    | fuel + 1, start => do
      let name ← anyWord
      if ← eat "." then return .namespaceDecl start name [← go fuel (← position)]
      else return .namespaceDecl start name (← namespaceBody k)
  go (← budget) lo

/-- The body of a module that is named by a string, which may be left out. -/
def ambientBody (k : Knot) : Parse Unit := do
  if ← isSymbol openBrace then
    let _ ← namespaceBody k
  else expectSemicolon

/-- A namespace, or a module named by a string, behind the keyword `module`. -/
def moduleRest (k : Knot) (lo : Nat) : Parse Item := do
  match ← token with
  | .string _ =>
    advance
    ambientBody k
    return .skipped lo "ambient module declaration"
  | _ => namespaceRest k lo

/-- Additions to the global scope. -/
def globalRest (k : Knot) (lo : Nat) : Parse Item := do
  ambientBody k
  return .skipped lo "global augmentation"

/-- A declaration whose keyword is the current word, if the word is one. -/
def keywordDeclaration? (k : Knot) (lo : Nat) (w : String) : Parse (Option Item) := do
  if w == "abstract" then
    advance
    return some (← classDeclaration k lo)
  else if w == "enum" then
    advance
    return some (← enumRest k lo)
  else if w == "interface" then
    advance
    return some (← interfaceRest k lo)
  else if w == "module" then
    if ← lineBreak then return none
    advance
    return some (← moduleRest k lo)
  else if w == "namespace" then
    advance
    return some (← namespaceRest k lo)
  else if w == "type" then
    advance
    return some (← aliasRest k lo)
  else return none

/-- The declaration behind `declare`, if one follows. -/
def declared? (k : Knot) (lo : Nat) : Parse (Option Item) := do
  match ← token with
  | .word w =>
    if w == "function" then return some (← functionDeclaration k lo)
    else if w == "class" then return some (← classDeclaration k lo)
    else if w == "const" && (← peek).token == .word "enum" then
      advance
      advance
      return some (← enumRest k lo)
    else if w == "const" || w == "var" || w == "let" then return some (← varDeclaration k lo)
    else if w == "global" then
      advance
      return some (← globalRest k lo)
    else keywordDeclaration? k lo w
  | _ => return none

/-- The declaration behind a word that was read as an expression, if the word is its keyword. -/
def wordDeclaration? (k : Knot) (lo : Nat) (w : String) : Parse (Option Item) := do
  let here ← cursor
  let named : Bool :=
    match here.token with
    | .word v => isReference v
    | _ => false
  let isText : Bool :=
    match here.token with
    | .string _ => true
    | _ => false
  if w == "declare" then declared? k lo
  else if w == "global" && here.token == .symbol openBrace then return some (← globalRest k lo)
  else if w == "abstract" && here.token == .word "class" && !here.lineBreak then
    return some (← classDeclaration k lo)
  else if w == "module" && !here.lineBreak && (isText || named) then return some (← moduleRest k lo)
  else if w == "namespace" && named then return some (← namespaceRest k lo)
  else return none

end DocLocale.Source.Grammar
