import DocLocale.Source.Grammar.Signatures
import DocLocale.Source.Grammar.Templates

/-!
Types. What the type grammar of declarations has no form for is kept as written.
-/

set_option autoImplicit false
set_option relaxedAutoImplicit false

namespace DocLocale.Source.Grammar

open Parse

/-- A type that is kept as written, from `lo` to the end of the last token. -/
def verbatim (lo : Nat) : Parse TypeSpan := do
  let hi ← previousEnd
  return ⟨.reference (← slice lo hi) [], lo, hi⟩

/-- A literal type as written. -/
def literalType (lo : Nat) : Parse TypeSpan := do
  let hi ← previousEnd
  return ⟨.literal (← slice lo hi), lo, hi⟩

/-- A type of the grammar from `lo` to the end of the last token. -/
def spanning (lo : Nat) (type : TypeExpr) : Parse TypeSpan := do return ⟨type, lo, ← previousEnd⟩

/-- Generic parameters as part of a function type. -/
def genericsOf (ps : List TypeParameter) : List Generic := ps.map fun p => .mk p.name p.constraint

/-- Parameters as slots of a function type; those without a name are numbered from `index`. -/
def slotsOf (index : Nat) : List Parameter → List Slot
  | [] => []
  | p :: ps =>
    let name := p.nameAt index
    .mk (if p.isRest then "..." ++ name else name) p.type p.isOptional :: slotsOf (index + 1) ps

/-- A dotted name: its first word if it stands alone, its source text otherwise. A dot without a word
behind it is passed over. -/
def entityName : Parse String := do
  let lo ← position
  let first ← anyWord
  let hi ← previousEnd
  let step : Parse (Option Nat) := do
    if ← eat "." then
      if ← isSymbol "#" then fail
      if ← isAnyWord then
        advance
        return some (← previousEnd)
      else return none
    else return none
  match (← repeated step).getLast? with
  | none => return first
  | some last => slice lo (max hi last)

/-- Type arguments that stand on the same line, if they follow. -/
def typeArguments? (k : Knot) : Parse (List TypeExpr) := do
  if (← isSymbol "<") && !(← lineBreak) then typeArguments k else return []

/-- The basic type of a keyword. -/
def keywordType? (w : String) : Option Basic :=
  if w = "any" then some .any
  else if w = "unknown" then some .unknown
  else if w = "number" then some .number
  else if w = "object" then some .object
  else if w = "boolean" then some .boolean
  else if w = "string" then some .string
  else if w = "void" then some .void
  else if w = "undefined" then some .undefined
  else if w = "null" then some .null
  else if w = "never" then some .never
  else none

/-- Keyword types that the grammar has no form for. -/
def otherKeywordTypes : List String := ["bigint", "symbol", "intrinsic"]

/-- A named type with its arguments. -/
def referenceType (k : Knot) : Parse TypeSpan := do
  let lo ← position
  let _ ← eatParameterModifier
  let name ← entityName
  let args ← typeArguments? k
  match Basic.ofAlias? name with
  | some b => if args.isEmpty then spanning lo (.basic b) else spanning lo (.reference name args)
  | none => spanning lo (.reference name args)

/-- A type that is the type of a value. -/
def queryType (k : Knot) (lo : Nat) (importType : Parse TypeSpan) : Parse TypeSpan := do
  if ← isWord "import" then
    let _ ← importType
  else
    let _ ← entityName
  let _ ← typeArguments? k
  verbatim lo

/-- A type of another file. -/
def importType (k : Knot) : Parse TypeSpan := do
  let lo ← position
  expectWord "import"
  expect "("
  match ← token with
  | .string _ => advance
  | _ => fail
  if ← eat "," then
    if ← isSymbol openBrace then
      let _ ← freeAssignment k
      let _ ← eat ","
  expect ")"
  if ← eat "." then
    let _ ← entityName
  if ← isSymbol "<" then
    let _ ← typeArguments k
  verbatim lo

/-- Whether an opening brace starts a mapped type. -/
def startsMapped (c : Cursor) : Bool :=
  let c := c.next
  if c.token == .symbol "+" || c.token == .symbol "-" then c.next.token == .word "readonly"
  else
    let c := if c.token == .word "readonly" then c.next else c
    let c' := c.next
    c.token == .symbol "[" &&
      (match c'.token with
        | .word w => isReference w
        | _ => false) &&
      c'.next.token == .word "in"

/-- A mapped type. -/
def mappedType (k : Knot) : Parse TypeSpan := do
  let lo ← position
  expect openBrace
  if ← isOneOf ["+", "-"] then
    advance
    expectWord "readonly"
  else
    let _ ← eatWord "readonly"
  expect "["
  let _ ← anyWord
  expectWord "in"
  let _ ← k.type
  if ← eatWord "as" then
    let _ ← k.type
  expect "]"
  if ← isOneOf ["+", "-"] then
    advance
    expect "?"
  else
    let _ ← eat "?"
  let _ ← annotation? k
  expectSemicolon
  expect closeBrace
  verbatim lo

/-- The end of a member of an object type. -/
def memberEnd : Parse Unit := do
  if ← eat "," then return () else expectSemicolon

/-- Whether an opening bracket starts an index signature. -/
def startsIndex (c : Cursor) : Bool :=
  let name := c.next
  let mark := name.next
  c.token == .symbol "[" &&
    (match name.token with
      | .word w => isReference w
      | _ => false) &&
    (mark.token == .symbol ":" || mark.token == .symbol ",")

/-- An index signature. -/
def indexSignature (k : Knot) : Parse Unit := do
  expect "["
  let _ ← anyWord
  if !(← eat ",") then expect ":"
  let _ ← k.type
  expect "]"
  let _ ← annotation? k
  memberEnd

/-- The name of a member of an object type. A computed name is its expression as written; a string or
number may have members taken of it. -/
def typeMemberName (k : Knot) : Parse String := do
  if ← eat "[" then
    let e ← freeAssignment k
    expect "]"
    match e.form with
    | .name n => return n
    | _ => slice e.lo e.hi
  else
    let lo ← position
    match ← token with
    | .number | .string _ | .bigint =>
      advance
      let member : Parse (Option Unit) := do
        if ← eat "." then
          let _ ← anyWord
          return some ()
        else return none
      let _ ← repeated member
      slice lo (← previousEnd)
    | .symbol "#" =>
      advance
      let _ ← anyWord
      slice lo (← previousEnd)
    | _ => anyWord

/-- A member that reads or writes a value. -/
def accessorSignature (k : Knot) : Parse Unit := do
  let reads ← eatWord "get"
  if !reads then expectWord "set"
  let _ ← typeMemberName k
  expect "("
  if reads then
    expect ")"
    let _ ← annotation? k
  else
    let ps ← signatureParameters k
    if ps.isEmpty then fail
  memberEnd

/-- A member of an object type or interface. -/
def typeMember (k : Knot) : Parse Member := do
  let lo ← position
  let here ← cursor
  let ahead := here.next
  let opens (c : Cursor) : Bool := c.token == .symbol "(" || c.token == .symbol "<"
  let call : Parse Unit := do
    let _ ← typeParameters k
    expect "("
    let _ ← signatureParameters k
    if ← isSymbol ":" then
      let _ ← resultType k ":"
    memberEnd
  if opens here then
    call
    return .skipped lo "call signature"
  else if here.token == .word "new" && opens ahead then
    advance
    call
    return .skipped lo "construct signature"
  else
    let readonly := (← modifier? ["readonly"] false).isSome
    if startsIndex (← cursor) then
      indexSignature k
      return .skipped lo "index signature"
    let accessor ← if readonly then pure none else attempt (accessorSignature k)
    if accessor.isSome then return .skipped lo "accessor"
    let name ← typeMemberName k
    let optional ← eat "?"
    if ← isOneOf ["(", "<"] then
      if readonly then fail
      let generics ← typeParameters k
      expect "("
      let ps ← signatureParameters k
      let returns ← if ← isSymbol ":" then pure (some (← resultType k ":").type) else pure none
      memberEnd
      return .method lo name ⟨generics, ps, returns⟩ optional []
    else
      let type := (← annotation? k).getD (.basic .any)
      memberEnd
      return .property lo name type optional (if readonly then [.readonly] else [])

/-- Members up to the closing brace. -/
def typeMembers (k : Knot) : Parse (List Member) := do
  expect openBrace
  let member : Parse (Option Member) := do
    if ← isSymbol closeBrace then return none
    return some (← typeMember k)
  let ms ← repeated member
  expect closeBrace
  return ms

/-- A member as a slot of an object type, if it is a property or a method. -/
def slotOf? : Member → Option Slot
  | .property _ name type optional _ => some (.mk name type optional)
  | .method _ name f optional _ =>
    some (.mk name
      (.function (genericsOf f.generics) (slotsOf 0 f.parameters) (f.returns.getD (.basic .any)))
      optional)
  | _ => none

/-- The slots of members, if all of them are properties or methods. -/
def slotsOf? : List Member → Option (List Slot)
  | [] => some []
  | m :: ms =>
    match slotOf? m, slotsOf? ms with
    | some s, some ss => some (s :: ss)
    | _, _ => none

/-- An object type. One with other members than properties and methods is kept as written. -/
def objectType (k : Knot) : Parse TypeSpan := do
  let lo ← position
  let ms ← typeMembers k
  match slotsOf? ms with
  | some slots => spanning lo (.object slots)
  | none => verbatim lo

/-- An element of a tuple, and whether it is an optional one without a label. -/
def tupleElement (k : Knot) : Parse (TypeExpr × Bool × Bool) := do
  let lo ← position
  let label : Parse Unit := do
    let _ ← eat "..."
    let _ ← anyWord
    let _ ← eat "?"
    expect ":"
  let _ ← attempt label
  if ← eat "..." then
    let _ ← k.type
    return ((← verbatim lo).type, false, true)
  else
    let t ← k.type
    if ← eat "?" then return ((← verbatim lo).type, true, false)
    else return (t.type, false, false)

/-- Whether no element that has to be there follows an optional one; rest elements may. -/
def tupleInOrder (seen : Bool) : List (TypeExpr × Bool × Bool) → Bool
  | [] => true
  | (_, optional, rest) :: es =>
    if optional then tupleInOrder true es
    else if rest then tupleInOrder seen es
    else !seen && tupleInOrder seen es

/-- A tuple type. -/
def tupleType (k : Knot) : Parse TypeSpan := do
  let lo ← position
  expect "["
  let es ← commaList (isSymbol "]") (tupleElement k)
  expect "]"
  if tupleInOrder false es then spanning lo (.tuple (es.map (·.1))) else fail

/-- A type about `this`, which may say what it is. -/
def thisType (k : Knot) (lo : Nat) : Parse TypeSpan := do
  expectWord "this"
  if (← isWord "is") && !(← lineBreak) then
    advance
    let _ ← k.type
  verbatim lo

/-- Keywords that may nevertheless start a named type. -/
def typeNameKeywords : List String := ["void", "yield", "await", "break"]

/-- A type without operators. -/
def primaryType (k : Knot) : Parse TypeSpan := do
  let lo ← position
  let here ← cursor
  let ahead := here.next
  match here.token with
  | .string _ | .number | .bigint => advance; literalType lo
  | .word w =>
    if w == "true" || w == "false" then advance; literalType lo
    else if w == "import" then importType k
    else if w == "this" then thisType k lo
    else if w == "typeof" then advance; queryType k lo (importType k)
    else if w == "asserts" && ahead.token == .word "this" then
      advance
      expectWord "this"
      if ← eatWord "is" then
        let _ ← k.type
      verbatim lo
    else if keywords.contains w && !typeNameKeywords.contains w then fail
    else
      match keywordType? w with
      | some b =>
        if ahead.token == .symbol "." then referenceType k
        else advance; spanning lo (.basic b)
      | none =>
        if otherKeywordTypes.contains w && ahead.token != .symbol "." then advance; verbatim lo
        else referenceType k
  | .symbol s =>
    if s == "-" then
      advance
      match ← token with
      | .number | .bigint => advance; literalType lo
      | _ => fail
    else if s == openBrace then
      if startsMapped here then mappedType k else objectType k
    else if s == "[" then tupleType k
    else if s == "(" then
      advance
      let t ← k.type
      expect ")"
      spanning lo t.type
    else if s == "\x60" then
      template k.type
      literalType lo
    else fail
  | _ => fail

/-- A type with the array brackets behind it, which stand on the same line. -/
def arrayType (k : Knot) : Parse TypeSpan := do
  let element ← primaryType k
  let rec suffix : Nat → TypeSpan → Parse TypeSpan
    | 0, t => pure t
    | fuel + 1, t => do
      if (← isSymbol "[") && !(← lineBreak) then
        advance
        if ← eat "]" then suffix fuel (← spanning t.lo (.array t.type))
        else
          let _ ← k.type
          expect "]"
          suffix fuel (← verbatim t.lo)
      else return t
  suffix (← budget) element

/-- Words that are operators in front of a type. -/
def typeOperators : List String := ["keyof", "unique", "readonly"]

/-- A type with the operators in front of it. -/
def operatorType (k : Knot) (nonConditional : Parse TypeSpan) : Parse TypeSpan := do
  let lo ← position
  let operator : Parse (Option Unit) := do
    match ← token with
    | .word w => if typeOperators.contains w then advance; return some () else return none
    | _ => return none
  let operators ← repeated operator
  let start ← position
  let inner ←
    if ← isWord "infer" then
      advance
      let _ ← anyWord
      let constraint : Parse Unit := do
        expectWord "extends"
        let _ ← nonConditional
        if (← context).inExtends || !(← isSymbol "?") then return () else fail
      let _ ← attempt constraint
      verbatim start
    else arrayType k
  if operators.isEmpty then return inner else verbatim lo

/-- Types with an operator between them, which may also stand in front of the first: all of them, where
the first starts and where the last ends. -/
def operands (operator : String) (operand : Parse TypeSpan) : Parse (List TypeSpan × Nat) := do
  let lo ← position
  let _ ← eat operator
  let first ← operand
  let more : Parse (Option TypeSpan) := do
    if ← eat operator then return some (← operand) else return none
  return (first :: (← repeated more), lo)

/-- A union of intersections. -/
def unionType (k : Knot) (nonConditional : Parse TypeSpan) : Parse TypeSpan := do
  let intersection : Parse TypeSpan := do
    match ← operands "&" (operatorType k nonConditional) with
    | ([t], _) => return t
    | (_, lo) => verbatim lo
  match ← operands "|" intersection with
  | ([t], _) => return t
  | (ts, lo) => spanning lo (.union (ts.map (·.type)))

/-- Whether a parenthesis starts the parameters of a function type. -/
def startsFunction (k : Knot) : Parse Bool := do
  if ← isSymbol "<" then return true
  if !(← isSymbol "(") then return false
  let start : Parse Unit := do
    advance
    if ← isOneOf [")", "..."] then return ()
    let _ ← eatParameterModifier
    if (← isReferenceWord) || (← isWord "this") then advance
    else if ← isOneOf ["[", openBrace] then
      let _ ← k.target true
    else fail
    if ← isOneOf [":", ",", "?", "="] then return ()
    expect ")"
    expect "=>"
  wouldParse start

/-- A function type, or a constructor type, which is kept as written. -/
def functionType (k : Knot) : Parse TypeSpan := do
  let lo ← position
  let abstracts ← eatWord "abstract"
  let constructs ← if abstracts then do expectWord "new"; pure true else eatWord "new"
  let generics ← typeParameters k
  expect "("
  let ps ← signatureParameters k
  let returns ← resultType k "=>"
  if constructs then verbatim lo
  else spanning lo (.function (genericsOf generics) (slotsOf 0 ps) returns.type)

/-- A type that is no conditional one. Behind `infer` such a type is read again, `depth` levels deep. -/
def nonConditionalType (k : Knot) : Nat → Parse TypeSpan
  | 0 => fail
  | depth + 1 => do
    let here ← cursor
    if ← startsFunction k then functionType k
    else if here.token == .word "new" ||
        (here.token == .word "abstract" && here.next.token == .word "new") then functionType k
    else unionType k (nonConditionalType k depth)

/-- A type. -/
def type (k : Knot) : Parse TypeSpan :=
  within (fun ctx => { ctx with inExtends := false }) do
    let checked ← nonConditionalType k (← budget)
    if !(← isWord "extends") || (← lineBreak) then return checked
    else
      advance
      let _ ← within (fun ctx => { ctx with inExtends := true }) (nonConditionalType k (← budget))
      expect "?"
      let _ ← k.type
      expect ":"
      let _ ← k.type
      verbatim checked.lo

end DocLocale.Source.Grammar
