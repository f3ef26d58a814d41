import DocLocale.Source.Grammar.Types
import DocLocale.Source.Grammar.Expressions

/-!
Classes. Members without a place in the tree are kept by where they start, so that they can be reported.
-/

set_option autoImplicit false
set_option relaxedAutoImplicit false

namespace DocLocale.Source.Grammar

open Parse

/-- What stands in front of a member's name. -/
structure Marks where
  isStatic : Bool := false
  isReadonly : Bool := false
  isAbstract : Bool := false
  isOverride : Bool := false
  hasAccess : Bool := false
  isAccessor : Bool := false

/-- The modifiers that a method keeps. -/
def Marks.ofMethod (m : Marks) : List Modifier := if m.isStatic then [.static] else []

/-- The modifiers that a property keeps. -/
def Marks.ofProperty (m : Marks) : List Modifier :=
  m.ofMethod ++ if m.isReadonly then [.readonly] else []

/-- Adds a modifier. -/
def Marks.add (m : Marks) (w : String) : Marks :=
  match w with
  | "static" => { m with isStatic := true }
  | "readonly" => { m with isReadonly := true }
  | "abstract" => { m with isAbstract := true }
  | "override" => { m with isOverride := true }
  | _ => m

/-- Whether the parameters of a method follow. -/
def startsMethod : Parse Bool := isOneOf ["(", "<"]

/-- Whether a property ends or goes on behind its name. With `lines`, a line break ends it too. -/
def startsProperty (lines : Bool) : Parse Bool := do
  if ← isOneOf ["!", ":", "=", ";", closeBrace] then return true
  if lines then atSemicolon else return false

/-- Whether a name is private. -/
def NameSpan.isHidden (n : NameSpan) : Bool :=
  match n.name with
  | .hidden _ => true
  | _ => false

/-- Whether a name is that of the constructor. -/
def NameSpan.isConstructor (n : NameSpan) : Bool :=
  n.name = .word "constructor" || n.name = .string "constructor"

/-- A method behind its name. -/
def methodRest (k : Knot) (lo : Nat) (m : Marks) (name : NameSpan) (optional generator : Bool) :
    Parse Member := do
  let text ← name.text
  let f ← functionTail k generator
  if name.isHidden then return .skipped lo "class member"
  else return .method lo text f optional m.ofMethod

/-- A property behind its name. What follows it without a semicolon starts the next member. -/
def propertyRest (k : Knot) (lo : Nat) (m : Marks) (name : NameSpan) (optional : Bool) :
    Parse Member := do
  if name.isConstructor then fail
  let text ← name.text
  if !optional then
    let _ ← eat "!"
  let type := (← annotation? k).getD (.basic .any)
  if ← eat "=" then
    let _ ← freeAssignment k
  let _ ← eatSemicolon
  if name.isHidden || m.isAccessor then return .skipped lo "class member"
  else return .property lo text type optional m.ofProperty

/-- A constructor behind its name. -/
def constructorRest (k : Knot) (lo : Nat) : Parse Member := do
  expect "("
  let ps ← constructorParameters k
  let _ ← annotation? k
  functionBody k false
  return .constructor lo ps

/-- A block of statements in a class. -/
def staticBlock (k : Knot) (lo : Nat) : Parse Member := do
  expect openBrace
  let inside (ctx : Context) : Context :=
    { ctx with allowIn := true, inGenerator := false, expectColon := false }
  let _ ← within inside (blockItems k false)
  return .skipped lo "class member"

/-- A member behind all its modifiers. -/
def namedMember (k : Knot) (lo : Nat) (m : Marks) : Parse Member := do
  let name ← memberName k
  let optional ← eat "?"
  if ← startsMethod then
    if m.isReadonly then fail
    if name.isConstructor then constructorRest k lo
    else methodRest k lo m name optional false
  else
    let accesses := name.name = .word "get" || name.name = .word "set"
    let starred := (← lineBreak) && (← isSymbol "*")
    if accesses && !(← startsProperty false) && !starred then
      let name ← memberName k
      let _ ← functionTail k false
      return .skipped lo (if name.isHidden then "class member" else "accessor")
    else if ← startsProperty true then propertyRest k lo m name optional
    else if name.name = .word "async" && !(← lineBreak) then
      let generator ← eat "*"
      let name ← memberName k
      if name.isConstructor || m.isReadonly then fail
      let optional := (← eat "?") || optional
      methodRest k lo m name optional generator
    else fail

/-- A member behind its access modifier and the words that can also be names. -/
def modifiedMember (k : Knot) (lo : Nat) (m : Marks) : Parse Member := do
  let words ← repeated (modifier? ["abstract", "readonly", "override", "static"] true)
  let m := words.foldl Marks.add m
  let accessor ← if m.isAccessor then pure true else eatWord "accessor"
  let m := { m with isAccessor := accessor }
  let here ← cursor
  if m.isStatic && here.token == .symbol openBrace then staticBlock k lo
  else if here.token == .word "static" && here.next.token == .symbol openBrace then
    advance
    staticBlock k lo
  else if !m.isAbstract && !m.isOverride && !m.hasAccess && startsIndex here then
    indexSignature k
    return .skipped lo "class member"
  else if ← eat "*" then
    let name ← memberName k
    methodRest k lo m name false true
  else namedMember k lo m

/-- A member whose name is a word that could have been a modifier, if the word is its name. -/
def wordMember? (k : Knot) (lo : Nat) (m : Marks) (w : String) (lines : Bool) :
    Parse (Option Member) := do
  let name : NameSpan := ⟨.word w, lo, ← previousEnd⟩
  let optional ← if (← isSymbol "?") then eat "?" else pure false
  if ← startsMethod then return some (← methodRest k lo m name optional false)
  if optional || (← startsProperty lines) then return some (← propertyRest k lo m name optional)
  return none

/-- A member of a class. -/
def classMember (k : Knot) : Parse Member := do
  let lo ← position
  if ← eat ";" then return .empty
  let declared ← eatWord "declare"
  if declared then
    match ← wordMember? k lo {} "declare" true with
    | some member => return member
    | none => pure ()
  let access ← modifier? accessWords false
  let m : Marks := { hasAccess := access.isSome }
  if !declared then
    if ← eatWord "declare" then
      match ← wordMember? k lo m "declare" true with
      | some member => return member
      | none => pure ()
  let isStatic ← eatWord "static"
  let isAccessor ← eatWord "accessor"
  if isStatic then
    match ← wordMember? k lo m "static" false with
    | some member => return member
    | none => pure ()
  let m := { m with isStatic := isStatic }
  if isAccessor then
    match ← wordMember? k lo m "accessor" false with
    | some member => return member
    | none => pure ()
  modifiedMember k lo { m with isAccessor := isAccessor }

/-- The class that another one extends. -/
def superclass (k : Knot) : Parse Reference := do
  let e ← k.leftHandSide
  let name ←
    match e.form with
    | .name n => pure n
    | _ => slice e.lo e.hi
  let args ← if ← isSymbol "<" then typeArguments k else pure []
  return ⟨name, args⟩

/-- The entries of a heritage clause, of which there may be none. -/
def heritageList (k : Knot) : Parse (List Reference) := do
  let closed : Parse Bool := do
    let here ← cursor
    return here.token == .symbol openBrace || here.token == .word "implements" ||
      here.token == .word "extends"
  commaList closed k.heritage

/-- What follows the name of a class. A clause that is given twice counts once. -/
def classTail (k : Knot) : Parse ClassTail := do
  let generics ← typeParameters k
  let bases ← if ← eatWord "extends" then pure [← superclass k] else pure []
  if ← eatWord "extends" then
    let _ ← superclass k
  let interfaces ← if ← eatWord "implements" then heritageList k else pure []
  if ← eatWord "implements" then
    let _ ← heritageList k
  if ← eatWord "extends" then
    let _ ← superclass k
  expect openBrace
  let member : Parse (Option Member) := do
    if ← isSymbol closeBrace then return none
    if (← token) == .eof then return none
    return some (← classMember k)
  let members ← repeated member
  let _ ← eat closeBrace
  return ⟨generics, bases, interfaces, members⟩

end DocLocale.Source.Grammar
