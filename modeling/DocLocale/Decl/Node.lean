import DocLocale.Decl.TypeExpr
import DocLocale.Doc.Flags

/-!
Declaration nodes. A node refers to the nodes it owns by their number in the tree that holds them.
-/

set_option autoImplicit false
set_option relaxedAutoImplicit false

namespace DocLocale

/-- The number of a node inside its tree. -/
abbrev NodeId := Nat

/-- Member modifiers that declarations keep. -/
inductive Modifier
  | static | readonly
  deriving DecidableEq, Repr

/-- The keyword of a modifier. -/
def Modifier.keyword : Modifier → String
  | static => "static"
  | readonly => "readonly"

/-- Parameters, result and generics of a function-like node. -/
structure Signature where
  parameters : List NodeId := []
  returns : Option TypeExpr := none
  typeParameters : List NodeId := []

/-- Members and heritage of a class or an interface. -/
structure Shape where
  properties : List NodeId := []
  methods : List NodeId := []
  bases : List Reference := []
  typeParameters : List NodeId := []

/-- An enum member: its name and the text of its value. -/
structure EnumMember where
  name : String
  value : String
  deriving DecidableEq, Repr

/-- What a node holds besides its name and flags, by kind. -/
inductive Body
  | var (type : TypeExpr) (isConst : Bool)
  | param (type : TypeExpr) (isOptional isRest : Bool)
  | function (signature : Signature)
  | classDecl (shape : Shape) (interfaces : List Reference)
  | property (type : TypeExpr) (isOptional : Bool) (modifiers : List Modifier)
  | method (signature : Signature) (modifiers : List Modifier)
  | constructor (signature : Signature)
  | enum (members : List EnumMember)
  | namespaceDecl (children : List NodeId)
  | interface (shape : Shape)
  | typeAlias (typeParameters : List NodeId) (type : TypeExpr)
  | sourceFile (children : List NodeId)
  | root (children : List NodeId)
  | typeParameter (constraint : Option TypeExpr)

namespace Body

/-- The kind of a node with this body. -/
def kind : Body → Kind
  | var .. => .var
  | param .. => .param
  | function _ => .function
  | classDecl .. => .classDecl
  | property .. => .property
  | method .. => .method
  | constructor _ => .constructor
  | enum _ => .enum
  | namespaceDecl _ => .namespaceDecl
  | interface _ => .interface
  | typeAlias .. => .typeAlias
  | sourceFile _ => .sourceFile
  | root _ => .root
  | typeParameter _ => .typeParameter

/-- The signature of a function-like body. -/
def signature? : Body → Option Signature
  | function s | constructor s | method s _ => some s
  | _ => none

/-- The owned nodes in the order of traversal: children of a container; properties, methods and
generics of a class; parameters and generics of a function. -/
def children : Body → List NodeId
  | namespaceDecl ids | sourceFile ids | root ids => ids
  | classDecl s _ | interface s => s.properties ++ s.methods ++ s.typeParameters
  | function s | constructor s | method s _ => s.parameters ++ s.typeParameters
  | typeAlias ids _ => ids
  | var .. | param .. | property .. | enum _ | typeParameter _ => []

end Body

/-- A declaration node. Its parent is filled in when the tree is finished. -/
structure Node where
  name : String
  flags : Option Doc.Flags
  body : Body
  parent : Option NodeId := none

/-- The kind of a node. -/
def Node.kind (n : Node) : Kind := n.body.kind

end DocLocale
