import DocLocale.Source.Grammar.Literals

/-!
Expressions. Only their extent matters, so operators are read in one row: how strongly they bind does
not change where an expression ends.
-/

set_option autoImplicit false
set_option relaxedAutoImplicit false

namespace DocLocale.Source.Grammar

open Parse

/-- Words that stand for a value by themselves. -/
def valueWords : List String := ["this", "super", "null", "true", "false"]

/-- An expression that starts with the word `w`. -/
def wordExpression (k : Knot) (w : String) : Parse Expr := do
  let lo ← position
  let ahead ← peek
  let arrow (start : Nat) : Parse Expr := do
    advance
    if ← lineBreak then fail
    expect "=>"
    arrowBody k
    exprFrom start .arrow
  if w == "function" then functionExpression k lo
  else if w == "class" then classExpression k
  else if w == "import" then
    advance
    if ← eat "." then
      let _ ← anyWord
      exprFrom lo .other
    else
      expect "("
      arguments k
      exprFrom lo .other
  else if valueWords.contains w then advance; exprFrom lo .other
  else if w == "async" && !ahead.lineBreak && ahead.token == .word "function" then
    advance
    functionExpression k lo
  else if !(isReference w || w == "let") then fail
  else if ahead.token == .symbol "=>" then arrow lo
  else
    advance
    let here ← cursor
    let isRef : Bool :=
      match here.token with
      | .word v => isReference v
      | _ => false
    if w == "async" && !here.lineBreak && isRef && here.next.token == .symbol "=>" then arrow lo
    else if w == "async" && !here.lineBreak && (← isOneOf ["(", "<"]) then
      return (← arrow? k lo).getD ⟨lo, ← previousEnd, .name w⟩
    else exprFrom lo (.name w)

/-- An expression without operators, calls and members. -/
def primary (k : Knot) : Parse Expr := do
  let lo ← position
  match ← token with
  | .string _ | .number | .bigint => advance; exprFrom lo .other
  | .word w => wordExpression k w
  | .symbol s =>
    if s == "(" then parenthesized k
    else if s == "[" then listLiteral k
    else if s == openBrace then objectLiteral k
    else if s == "\x60" then
      template (freeSequence k)
      exprFrom lo .other
    else if s == "/" || s == "/=" then
      regex
      exprFrom lo .other
    else if s == "#" then
      advance
      let _ ← anyWord
      if ← isWord "in" then exprFrom lo .other else fail
    else fail
  | _ => fail

/-- Whether type arguments without a call behind them can end here: nothing follows that would make the
brackets comparisons. -/
def endsInstantiation (c : Cursor) : Bool :=
  c.lineBreak ||
    match c.token with
    | .eof => true
    | .word w => ["as", "satisfies", "in", "instanceof", "extends", "implements"].contains w
    | .symbol s =>
      !(["(", "[", "\x7b", "<", ">", "+", "-", "!", "~", "/", "#", "++", "--"].contains s)
    | _ => false

/-- What may follow an expression that members are taken of. -/
structure Suffixes where
  /-- Whether it may be called. -/
  calls : Bool := true
  /-- Whether type arguments may follow without a call. -/
  instances : Bool := true

/-- The name of a member behind a dot. -/
def dottedName : Parse Unit := do
  let _ ← eat "#"
  let _ ← anyWord

/-- A member behind an optional dot. -/
def optionalSuffix (k : Knot) : Parse Unit := do
  expect "?."
  if ← isSymbol "<" then
    let _ ← typeArguments k
    expect "("
    arguments k
  else if ← eat "[" then
    let _ ← freeSequence k
    expect "]"
  else if ← eat "(" then arguments k
  else if ← isSymbol "\x60" then template (freeSequence k)
  else dottedName

/-- One member, call or mark behind an expression, if one follows. -/
def suffix (k : Knot) (allowed : Suffixes) (e : Expr) : Parse (Option Expr) := do
  let typed : Parse Expr := do
    let _ ← typeArguments k
    if ← isSymbol "(" then
      if !allowed.calls then fail
      advance
      arguments k
      exprFrom e.lo .other
    else if ← isSymbol "\x60" then
      template (freeSequence k)
      exprFrom e.lo .other
    else if allowed.instances && endsInstantiation (← cursor) then exprFrom e.lo .other
    else fail
  match ← token with
  | .symbol "." =>
    advance
    dottedName
    return some (← exprFrom e.lo .place)
  | .symbol "[" =>
    advance
    let _ ← freeSequence k
    expect "]"
    return some (← exprFrom e.lo .place)
  | .symbol "!" =>
    if ← lineBreak then return none
    advance
    return some (← exprFrom e.lo (if e.isAssignable then .place else .other))
  | .symbol "?." =>
    optionalSuffix k
    return some (← exprFrom e.lo .other)
  | .symbol "(" =>
    if allowed.calls then
      advance
      arguments k
      return some (← exprFrom e.lo .other)
    else return none
  | .symbol "\x60" =>
    template (freeSequence k)
    return some (← exprFrom e.lo .other)
  | .symbol "<" => attempt typed
  | _ => return none

/-- An expression with everything that follows it. -/
def suffixed (k : Knot) (allowed : Suffixes) : Nat → Expr → Parse Expr
  | 0, e => pure e
  | fuel + 1, e => do
    if e.form = .arrow then return e
    match ← suffix k allowed e with
    | none => return e
    | some e => suffixed k allowed fuel e

/-- An expression that creates an object, or one without operators; members may follow. -/
def created (k : Knot) (allowed : Suffixes) : Nat → Parse Expr
  | 0 => fail
  | fuel + 1 => do
    let lo ← position
    let base ←
      if ← eatWord "new" then
        if ← eat "." then
          expectWord "target"
          exprFrom lo .other
        else
          let _ ← created k ⟨false, false⟩ fuel
          let typed : Parse Unit := do
            let _ ← typeArguments k
            if ← isSymbol "(" then return () else fail
          let _ ← attempt typed
          if ← eat "(" then arguments k
          exprFrom lo .other
      else primary k
    suffixed k allowed (← budget) base

/-- An expression that members and calls may be taken of; type arguments behind it are left to the
caller. -/
def leftHandSide (k : Knot) : Parse Expr := do created k ⟨true, false⟩ (← budget)

/-- Symbols that are operators in front of an operand. -/
def prefixSymbols : List String := ["+", "-", "~", "!"]

/-- Words that are operators in front of an operand. -/
def prefixWords : List String := ["typeof", "void", "delete"]

/-- Whether a token is an operator in front of an operand. -/
def isPrefixOperator : Token → Bool
  | .symbol s => prefixSymbols.contains s
  | .word w => prefixWords.contains w
  | _ => false

/-- An operand with the operators in front of it. One that cannot be read behind an operator is left out,
and the expression then ends with the operator. -/
def unary (k : Knot) : Nat → Parse Expr
  | 0 => fail
  | fuel + 1 => do
    let here ← cursor
    let lo := here.lo
    if isPrefixOperator here.token then
      advance
      let start ← position
      match ← tolerate (unary k fuel) with
      | some _ => exprFrom lo .signed
      | none => return ⟨lo, start - 1, .signed⟩
    else if here.token == .symbol "++" || here.token == .symbol "--" then
      advance
      let _ ← unary k fuel
      exprFrom lo .operation
    else if here.token == .word "await" then
      advance
      let _ ← unary k fuel
      exprFrom lo .signed
    else if here.token == .symbol "<" then
      advance
      if !(← eatWord "const") then
        let _ ← k.type
      expect ">"
      let _ ← unary k fuel
      exprFrom lo .signed
    else
      let e ← created k ⟨true, true⟩ (← budget)
      if e.form = .arrow then return e
      if (← isOneOf ["++", "--"]) && !(← lineBreak) then
        advance
        exprFrom lo .operation
      else return e

/-- Operators made of angle brackets, longest first. -/
def angleOperators : List String := [">>>=", "<<=", ">>=", ">>>", "<<", ">>", "<=", ">=", "<", ">"]

/-- The token of a place where angle brackets are operators. -/
def operatorToken (c : Cursor) : Cursor :=
  if c.token == .symbol "<" || c.token == .symbol ">" then
    match angleOperators.find? fun s => startsWith s.toList c.here with
    | some s => c.relex s
    | none => c
  else c

/-- Symbols that are operators between operands. -/
def binarySymbols : List String :=
  ["??", "||", "&&", "|", "^", "&", "==", "!=", "===", "!==", "<", ">", "<=", ">=", "<<", ">>", ">>>",
    "+", "-", "*", "/", "%", "**"]

/-- Whether a token is an operator between operands. -/
def isBinaryOperator (allowIn : Bool) : Token → Bool
  | .symbol s => binarySymbols.contains s
  | .word w => w == "instanceof" || (w == "in" && allowIn)
  | _ => false

/-- Operators and operands behind a first operand; `last` is the form of the operand before. -/
def operatorRow (k : Knot) : Nat → Expr → ExprForm → Parse Expr
  | 0, e, _ => pure e
  | fuel + 1, e, last => do
    let here ← cursor
    if (here.token == .word "as" || here.token == .word "satisfies") && !here.lineBreak then
      advance
      if !(← eatWord "const") then
        let _ ← k.type
      operatorRow k fuel (← exprFrom e.lo .operation) .operation
    else
      let operator := operatorToken here
      if !isBinaryOperator (← context).allowIn operator.token then return e
      if operator.token == .symbol "**" && last = .signed then fail
      moveTo operator.next
      let operand ← unary k (← budget)
      operatorRow k fuel ⟨e.lo, operand.hi, .operation⟩ operand.form

/-- An expression that is no assignment. -/
def conditional (k : Knot) : Parse Expr := do
  let first ← unary k (← budget)
  if first.form = .arrow then return first
  let e ← operatorRow k (← budget) first first.form
  if ← eat "?" then
    let _ ← within (fun ctx => { ctx with allowIn := true, expectColon := true }) k.assignment
    expect ":"
    let _ ← k.assignment
    exprFrom e.lo .operation
  else return e

/-- Symbols that assign. -/
def assignmentSymbols : List String :=
  ["=", "+=", "-=", "*=", "/=", "%=", "**=", "&=", "|=", "^=", "&&=", "||=", "??=", "<<=", ">>=", ">>>="]

/-- A pause of a generator. -/
def yieldExpression (k : Knot) : Parse Expr := do
  let lo ← position
  expectWord "yield"
  let ended ← atSemicolon
  if ended || (← isOneOf [")", "]", ":", ","]) then exprFrom lo .operation
  else
    let _ ← eat "*"
    let _ ← k.assignment
    exprFrom lo .operation

/-- An expression with assignments but without commas. -/
def assignment (k : Knot) : Parse Expr := do
  let lo ← position
  if (← isWord "yield") && (← context).inGenerator then return ← yieldExpression k
  if ← isSymbol "<" then
    match ← arrow? k lo with
    | some e => return e
    | none => pure ()
  let e ← conditional k
  let operator := operatorToken (← cursor)
  match operator.token with
  | .symbol s =>
    if e.form = .arrow || !assignmentSymbols.contains s then return e
    if s == "=" && !e.isAssignable then fail
    moveTo operator.next
    let _ ← k.assignment
    exprFrom lo .assignment
  | _ => return e

/-- An entry of a heritage clause: a name with members, and its type arguments. -/
def heritage (k : Knot) : Parse Reference := do
  let lo ← position
  let name ← anyWord
  let e ← suffixed k ⟨false, false⟩ (← budget) ⟨lo, ← previousEnd, .name name⟩
  let text ←
    match e.form with
    | .name n => pure n
    | _ => slice e.lo e.hi
  let args ← if ← isSymbol "<" then typeArguments k else pure []
  return ⟨text, args⟩

end DocLocale.Source.Grammar
