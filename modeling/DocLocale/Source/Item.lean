import DocLocale.Decl.Node

/-!
What a declaration source holds: its items with the positions their doc comments and issues are found
by, and types already in the type grammar.
-/

set_option autoImplicit false
set_option relaxedAutoImplicit false

namespace DocLocale.Source

/-- A parameter; one without a name takes a value apart and is named by its position. -/
structure Parameter where
  name : Option String := none
  type : TypeExpr := .basic .any
  isOptional : Bool := false
  isRest : Bool := false
  /-- Whether a default value was given. -/
  hasDefault : Bool := false

/-- The name of the parameter at a position. -/
def Parameter.nameAt (p : Parameter) (index : Nat) : String :=
  p.name.getD ("__" ++ toString index)

/-- A generic parameter. -/
structure TypeParameter where
  name : String
  constraint : Option TypeExpr := none

/-- Generics, parameters and result of a function. -/
structure Function where
  generics : List TypeParameter := []
  parameters : List Parameter := []
  returns : Option TypeExpr := none

/-- A member of a class or interface. -/
inductive Member
  | property (lo : Nat) (name : String) (type : TypeExpr) (isOptional : Bool)
    (modifiers : List Modifier)
  | method (lo : Nat) (name : String) (function : Function) (isOptional : Bool)
    (modifiers : List Modifier)
  | constructor (lo : Nat) (parameters : List Parameter)
  /-- A member that has no place in the tree, and what it is called in issues. -/
  | skipped (lo : Nat) (construct : String)
  /-- A semicolon alone. -/
  | empty

/-- One binding of a variable declaration. -/
inductive Binding
  | named (name : String) (type : TypeExpr)
  /-- A pattern that takes a value apart. -/
  | pattern (lo : Nat)

/-- An item of a source. `lo` is where its doc comment is looked for. -/
inductive Item
  | vars (lo : Nat) (isConst : Bool) (bindings : List Binding)
  | function (lo : Nat) (name : String) (function : Function)
  | classDecl (lo : Nat) (name : String) (generics : List TypeParameter) (bases interfaces : List Reference)
    (members : List Member)
  | interface (lo : Nat) (name : String) (generics : List TypeParameter) (bases : List Reference)
    (members : List Member)
  | typeAlias (lo : Nat) (name : String) (generics : List TypeParameter) (type : TypeExpr)
  | enum (lo : Nat) (name : String) (members : List EnumMember)
  | namespaceDecl (lo : Nat) (name : String) (items : List Item)
  /-- An item that has no place in the tree, and what it is called in issues. -/
  | skipped (lo : Nat) (construct : String)
  /-- A semicolon alone. -/
  | empty

/-- Moves the start of a declaration to where its first modifier stands. -/
def Item.startingAt (lo : Nat) : Item → Item
  | .vars _ c bs => .vars lo c bs
  | .function _ n f => .function lo n f
  | .classDecl _ n g b i m => .classDecl lo n g b i m
  | .interface _ n g b m => .interface lo n g b m
  | .typeAlias _ n g t => .typeAlias lo n g t
  | .enum _ n m => .enum lo n m
  | .namespaceDecl _ n i => .namespaceDecl lo n i
  | .skipped p c => .skipped p c
  | .empty => .empty

end DocLocale.Source
