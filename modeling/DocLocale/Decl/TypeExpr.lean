/-!
The type grammar of declarations. A type is a plain tree; forms outside the grammar are kept as
references whose name is their source text.
-/

set_option autoImplicit false
set_option relaxedAutoImplicit false

namespace DocLocale

/-- Built-in keyword types. `integer` and `float` are refinements of `number` that only the aliases
`dint` and `dfloat` introduce. -/
inductive Basic
  | boolean | number | integer | float | string | void | any | unknown | never | null | undefined
  | object
  deriving DecidableEq, Repr

namespace Basic

/-- Position in the list of basic types. -/
def index : Basic → Nat
  | boolean => 0
  | number => 1
  | integer => 2
  | float => 3
  | string => 4
  | void => 5
  | any => 6
  | unknown => 7
  | never => 8
  | null => 9
  | undefined => 10
  | object => 11

/-- The name of a basic type. -/
def label : Basic → String
  | boolean => "Boolean"
  | number => "Number"
  | integer => "Integer"
  | float => "Float"
  | string => "String"
  | void => "Void"
  | any => "Any"
  | unknown => "Unknown"
  | never => "Never"
  | null => "Null"
  | undefined => "Undefined"
  | object => "Object"

/-- The keyword that stands for a basic type in declarations. -/
def keyword : Basic → String
  | boolean => "boolean"
  | number | integer | float => "number"
  | string => "string"
  | void => "void"
  | any => "any"
  | unknown => "unknown"
  | never => "never"
  | null => "null"
  | undefined => "undefined"
  | object => "object"

/-- Resolves an alias that declarations use in place of a keyword. -/
def ofAlias? (name : String) : Option Basic :=
  if name = "dbool" then some boolean
  else if name = "dint" then some integer
  else if name = "dfloat" then some float
  else if name = "dstring" then some string
  else if name = "dvoid" then some void
  else if name = "dany" then some any
  else none

/-- All basic types, in order. -/
def all : List Basic :=
  [boolean, number, integer, float, string, void, any, unknown, never, null, undefined, object]

end Basic

mutual
/-- A type expression. -/
inductive TypeExpr
  | basic (b : Basic)
  /-- A literal type as written, quotes included. -/
  | literal (text : String)
  | function (generics : List Generic) (params : List Slot) (returns : TypeExpr)
  | union (members : List TypeExpr)
  | array (element : TypeExpr)
  | tuple (elements : List TypeExpr)
  /-- A named type with its arguments, or the source text of a form outside the grammar. -/
  | reference (name : String) (args : List TypeExpr)
  | object (slots : List Slot)

/-- A generic parameter of a function type. -/
inductive Generic
  | mk (name : String) (constraint : Option TypeExpr)

/-- A named and typed slot: a parameter of a function type or a member of an object type. -/
inductive Slot
  | mk (name : String) (type : TypeExpr) (optional : Bool)
end

namespace TypeExpr

instance : Inhabited TypeExpr := ⟨.basic .any⟩

/-- Position of a type's form in the list of forms. -/
def index : TypeExpr → Nat
  | basic _ => 0
  | literal _ => 1
  | function .. => 2
  | union _ => 3
  | array _ => 4
  | tuple _ => 5
  | reference .. => 6
  | object _ => 7

/-- The name of a type's form. -/
def label : TypeExpr → String
  | basic _ => "Basic"
  | literal _ => "Literal"
  | function .. => "Function"
  | union _ => "Union"
  | array _ => "Array"
  | tuple _ => "Tuple"
  | reference .. => "TypeReference"
  | object _ => "TypeLiteral"

end TypeExpr

/-- A named type in a heritage clause. -/
structure Reference where
  name : String
  args : List TypeExpr := []

/-- A heritage entry as a type. -/
def Reference.toType (r : Reference) : TypeExpr := .reference r.name r.args

end DocLocale
