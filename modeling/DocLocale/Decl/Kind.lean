/-!
Kinds of declaration nodes.
-/

set_option autoImplicit false
set_option relaxedAutoImplicit false

namespace DocLocale

/-- The kinds of nodes in a declaration tree. -/
inductive Kind
  | var | param | function | classDecl | property | method | constructor | enum | namespaceDecl | interface
  | typeAlias | sourceFile | root | typeParameter
  deriving DecidableEq, Repr

namespace Kind

/-- Position in the list of kinds. -/
def index : Kind → Nat
  | var => 0
  | param => 1
  | function => 2
  | classDecl => 3
  | property => 4
  | method => 5
  | constructor => 6
  | enum => 7
  | namespaceDecl => 8
  | interface => 9
  | typeAlias => 10
  | sourceFile => 11
  | root => 12
  | typeParameter => 13

/-- The name of a kind. -/
def label : Kind → String
  | var => "Var"
  | param => "Param"
  | function => "Function"
  | classDecl => "Class"
  | property => "Property"
  | method => "Method"
  | constructor => "Constructor"
  | enum => "Enum"
  | namespaceDecl => "Namespace"
  | interface => "Interface"
  | typeAlias => "TypeAlias"
  | sourceFile => "SourceFile"
  | root => "Root"
  | typeParameter => "TypeParameter"

/-- Kinds that own parameters. -/
def isFunctionLike : Kind → Bool
  | function | method | constructor => true
  | _ => false

/-- All kinds, in order. -/
def all : List Kind :=
  [var, param, function, classDecl, property, method, constructor, enum, namespaceDecl, interface,
    typeAlias, sourceFile, root, typeParameter]

end Kind

end DocLocale
