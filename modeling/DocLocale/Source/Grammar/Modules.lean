import DocLocale.Source.Grammar.Statements

/-!
Imports and exports, and the grammar as a whole.
-/

set_option autoImplicit false
set_option relaxedAutoImplicit false

namespace DocLocale.Source.Grammar

open Parse

/-- Takes a string. -/
def expectString : Parse Unit := do
  match ← token with
  | .string _ => advance
  | _ => fail

/-- What a name in a list of imports or exports is: a word, or a string. -/
def bindingOrString : Parse (Option String) := do
  match ← token with
  | .word w => advance; return some w
  | .string _ => advance; return none
  | _ => fail

/-- Whether another name follows in the same entry. -/
def atNameInList : Parse Bool := do
  match ← token with
  | .word _ | .string _ => return true
  | _ => return false

/-- An entry of a list of imports or exports: the name it has here, if it is a word. -/
def listedName : Parse (Option String) := do
  let first ← bindingOrString
  let renamed (name : Option String) : Parse (Option String) := do
    if ← eatWord "as" then bindingOrString else return name
  if first == some "type" && (← atNameInList) then
    if ← eatWord "as" then
      if ← eatWord "as" then
        if ← atNameInList then bindingOrString else return some "as"
      else if ← atNameInList then bindingOrString
      else return some "as"
    else renamed (← bindingOrString)
  else renamed first

/-- Names in braces. -/
def listedNames : Parse (List (Option String)) := do
  expect openBrace
  let names ← commaList (isSymbol closeBrace) listedName
  expect closeBrace
  return names

/-- The file that names come from, and the end of the statement. -/
def fromClause (k : Knot) : Parse Unit := do
  expectString
  if (← isWord "with") || ((← isWord "assert") && !(← lineBreak)) then
    advance
    let _ ← objectLiteral k
  expectSemicolon

/-- The target of an import alias behind the equals sign. -/
def aliasTarget : Parse Unit := do
  let here ← cursor
  if here.token == .word "require" && here.next.token == .symbol "(" then
    advance
    advance
    expectString
    expect ")"
  else
    let _ ← entityName
  expectSemicolon

/-- Whether `type` behind `import` says that only types are imported. -/
def importsTypes (c : Cursor) : Bool :=
  c.token == .word "type" &&
    match c.next.token with
    | .symbol s => s == "*" || s == openBrace
    | .word "from" => c.next.next.token == .word "from" || c.next.next.token == .symbol "="
    | .word _ => true
    | _ => false

/-- Names in braces of an import; one that is kept may be no keyword. -/
def importedNames : Parse Unit := do
  let names ← listedNames
  if names.all fun n => n.any isReference then return () else fail

/-- An import. -/
def importDeclaration (k : Knot) : Parse Item := do
  let lo ← position
  let names : Parse Unit := do
    if ← eat "*" then
      expectWord "as"
      let _ ← bindingName false
    else importedNames
  let imported : Item := .skipped lo "import declaration"
  expectWord "import"
  match ← token with
  | .string _ =>
    fromClause k
    return imported
  | _ => pure ()
  if importsTypes (← cursor) then advance
  if ← isAnyWord then
    let _ ← bindingName false
    if ← eat "=" then
      aliasTarget
      return .skipped lo "import alias"
    if ← eat "," then names
  else names
  expectWord "from"
  fromClause k
  return imported

/-- A list of exports, or all names of another file. -/
def exportedNames (k : Knot) : Parse Unit := do
  if ← eat "*" then
    if ← eatWord "as" then
      let _ ← bindingOrString
    expectWord "from"
    fromClause k
  else
    let _ ← listedNames
    if ← eatWord "from" then fromClause k
    else
      let _ ← eatSemicolon

/-- What is exported by default, behind its keyword. -/
def defaultExport (k : Knot) : Parse Unit := do
  let here ← cursor
  let ahead := here.next
  let optionalName : Parse Unit := do
    if ← isReferenceWord then advance
  if here.token == .word "abstract" && ahead.token == .word "class" && !ahead.lineBreak then advance
  let here ← cursor
  let ahead := here.next
  if here.token == .word "class" then
    advance
    optionalName
    let _ ← k.classTail
  else if here.token == .word "interface" then
    advance
    let _ ← interfaceRest k here.lo
  else if here.token == .word "function" ||
      (here.token == .word "async" && ahead.token == .word "function" && !ahead.lineBreak) then
    let _ ← eatWord "async"
    advance
    let generator ← eat "*"
    optionalName
    let _ ← functionTail k generator
  else
    let _ ← freeAssignment k
    expectSemicolon

/-- What is exported, behind `export` and `declare`. The export starts at `lo`. -/
def exported (k : Knot) (lo : Nat) : Parse Item := do
  let here ← cursor
  let ahead := here.next
  let statement : Item := .skipped lo "export statement"
  match here.token with
  | .word w =>
    match ← attempt (keywordDeclaration? k here.lo w) with
    | some (some item) => return item.startingAt lo
    | _ => pure ()
    if w == "import" then
      advance
      let name ← cursor
      if name.token == .word "type" && isNameHere name.next then advance
      let _ ← anyWord
      expect "="
      aliasTarget
      return .skipped lo "import alias"
    else if w == "as" then
      advance
      expectWord "namespace"
      let _ ← anyWord
      expectSemicolon
      return statement
    else if w == "default" then
      advance
      defaultExport k
      return statement
    else if w == "class" then classDeclaration k lo
    else if w == "function" then functionDeclaration k lo
    else if w == "async" && ahead.token == .word "function" && !ahead.lineBreak then
      advance
      functionDeclaration k lo
    else if w == "const" && ahead.token == .word "enum" then
      advance
      advance
      enumRest k lo
    else if w == "const" || w == "var" || w == "let" then varDeclaration k lo
    else if w == "type" then
      advance
      exportedNames k
      return statement
    else fail
  | .symbol "=" =>
    advance
    let _ ← freeSequence k
    expectSemicolon
    return statement
  | _ =>
    exportedNames k
    return statement

/-- An export. -/
def exportDeclaration (k : Knot) : Parse Item := do
  let lo ← position
  expectWord "export"
  let inner ← position
  if ← eatWord "declare" then
    match ← declared? k inner with
    | some item => return item.startingAt lo
    | none => pure ()
  exported k lo

/-- A statement, which at the top of a file or namespace may be an import or export. -/
def statement (k : Knot) (topLevel : Bool) : Parse Item := do
  let here ← cursor
  let ahead := here.next
  if topLevel && here.token == .word "export" then exportDeclaration k
  else if topLevel && here.token == .word "import" && ahead.token != .symbol "(" &&
      ahead.token != .symbol "." then importDeclaration k
  else plainStatement k

/-- One level of the grammar: each construct in terms of those it contains. -/
def level (k : Knot) : Knot
  | .type => type k
  | .assignment => assignment k
  | .leftHandSide => leftHandSide k
  | .heritage => heritage k
  | .target letAllowed => target k letAllowed
  | .classTail => classTail k
  | .statement topLevel => statement k topLevel

/-- The grammar to a depth of nesting. -/
def knot : Nat → Knot
  | 0, _ => fail
  | depth + 1, g => level (knot depth) g

/-- The items of a file. -/
def file (k : Knot) : Parse (List Item) := do
  let item : Parse (Option Item) := do
    if (← token) == .eof then return none
    return some (← k.statement true)
  repeated item

end DocLocale.Source.Grammar
