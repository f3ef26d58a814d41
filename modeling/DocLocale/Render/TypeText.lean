import DocLocale.Decl.Tree

/-!
The text of types, parameters and generics. Parentheses stand only where a function or a union would
otherwise be read differently.
-/

set_option autoImplicit false
set_option relaxedAutoImplicit false

namespace DocLocale.Render

/-- Whether a type needs parentheses as a member of a union. -/
def isFunction : TypeExpr → Bool
  | .function .. => true
  | _ => false

/-- Whether a type needs parentheses as the element of an array. -/
def isCompound : TypeExpr → Bool
  | .function .. | .union _ => true
  | _ => false

/-- A text in parentheses if asked for. -/
def parenthesized (wanted : Bool) (text : String) : String :=
  if wanted then "(" ++ text ++ ")" else text

mutual
/-- The text of a type. -/
def typeText : TypeExpr → String
  | .basic b => b.keyword
  | .literal text => text
  | .function generics params returns =>
    (if generics.isEmpty then "" else "<" ++ ", ".intercalate (genericTexts generics) ++ ">") ++
      "(" ++ ", ".intercalate (slotTexts params) ++ ") => " ++ typeText returns
  | .union members => " | ".intercalate (memberTexts members)
  | .array element => parenthesized (isCompound element) (typeText element) ++ "[]"
  | .tuple elements => "[" ++ ", ".intercalate (typeTexts elements) ++ "]"
  | .reference name args =>
    if args.isEmpty then name else name ++ "<" ++ ", ".intercalate (typeTexts args) ++ ">"
  | .object slots =>
    if slots.isEmpty then "\x7b\x7d" else "\x7b " ++ "; ".intercalate (slotTexts slots) ++ " \x7d"

/-- The texts of types. -/
def typeTexts : List TypeExpr → List String
  | [] => []
  | t :: ts => typeText t :: typeTexts ts

/-- The texts of the members of a union. -/
def memberTexts : List TypeExpr → List String
  | [] => []
  | t :: ts => parenthesized (isFunction t) (typeText t) :: memberTexts ts

/-- The texts of generic parameters. -/
def genericTexts : List Generic → List String
  | [] => []
  | .mk name none :: gs => name :: genericTexts gs
  | .mk name (some c) :: gs => (name ++ " extends " ++ typeText c) :: genericTexts gs

/-- The texts of slots. -/
def slotTexts : List Slot → List String
  | [] => []
  | .mk name type optional :: ss =>
    (name ++ (if optional then "?" else "") ++ ": " ++ typeText type) :: slotTexts ss
end

/-- The text of a type that may be absent, which means `any`. -/
def optionalTypeText : Option TypeExpr → String
  | some t => typeText t
  | none => "any"

/-- The generic parameters of a declaration in angle brackets; nothing when there are none. -/
def typeParameterText (t : Tree) (ids : List NodeId) : String :=
  if ids.isEmpty then ""
  else
    "<" ++ ", ".intercalate (ids.map fun id =>
      match t.node? id with
      | some ⟨name, _, .typeParameter (some c), _⟩ => name ++ " extends " ++ typeText c
      | some n => n.name
      | none => "") ++ ">"

/-- The parameters of a declaration. -/
def parameterText (t : Tree) (ids : List NodeId) : String :=
  ", ".intercalate (ids.map fun id =>
    match t.node? id with
    | some ⟨name, _, .param type isOptional isRest, _⟩ =>
      (if isRest then "..." else "") ++ name ++ (if isOptional then "?" else "") ++ ": " ++
        typeText type
    | some n => n.name ++ ": any"
    | none => "")

end DocLocale.Render
