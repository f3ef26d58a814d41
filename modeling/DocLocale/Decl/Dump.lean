import DocLocale.Decl.Tree
import DocLocale.Json.Writer

/-!
A declaration tree as JSON for inspection. Children are nested in place, parents are left out, and
kinds are spelled with their number and name.
-/

set_option autoImplicit false
set_option relaxedAutoImplicit false

namespace DocLocale

mutual
/-- A type as JSON. -/
def TypeExpr.toJson : TypeExpr → Json
  | .basic b => .object [("kind", .string "Type[0] Basic"),
      ("value", .string ("TypeValue[" ++ toString b.index ++ "] " ++ b.label))]
  | .literal text => .object [("kind", .string "Type[1] Literal"), ("value", .string text)]
  | .function generics params returns =>
    .object ([("kind", .string "Type[2] Function")] ++
      (if generics.isEmpty then [] else [("typeParameters", .array (genericsToJson generics))]) ++
      [("parameters", .array (slotsToJson params)), ("returnType", returns.toJson)])
  | .union members =>
    .object [("kind", .string "Type[3] Union"), ("value", .array (typesToJson members))]
  | .array element => .object [("kind", .string "Type[4] Array"), ("value", element.toJson)]
  | .tuple elements =>
    .object [("kind", .string "Type[5] Tuple"), ("elements", .array (typesToJson elements))]
  | .reference name args =>
    .object ([("kind", .string "Type[6] TypeReference"), ("name", .string name)] ++
      (if args.isEmpty then [] else [("members", .array (typesToJson args))]))
  | .object slots =>
    .object [("kind", .string "Type[7] TypeLiteral"), ("members", .array (slotsToJson slots))]

/-- Types as JSON. -/
def typesToJson : List TypeExpr → List Json
  | [] => []
  | t :: ts => t.toJson :: typesToJson ts

/-- Generic parameters as JSON. -/
def genericsToJson : List Generic → List Json
  | [] => []
  | .mk name none :: gs => .object [("name", .string name)] :: genericsToJson gs
  | .mk name (some c) :: gs =>
    .object [("name", .string name), ("constraint", c.toJson)] :: genericsToJson gs

/-- Slots as JSON. -/
def slotsToJson : List Slot → List Json
  | [] => []
  | .mk name type optional :: ss =>
    .object [("name", .string name), ("type", type.toJson), ("isOptional", .bool optional)] ::
      slotsToJson ss
end

/-- Heritage entries as JSON. -/
def referencesToJson (rs : List Reference) : Json := .array (rs.map fun r => r.toType.toJson)

/-- Doc flags as JSON. -/
def Doc.Flags.toJson (f : Doc.Flags) : Json :=
  .object [("enabled", .bool f.enabled), ("flags", .array (f.names.map .string))]

/-- Modifiers as JSON. -/
def modifiersToJson (ms : List Modifier) : Json := .array (ms.map fun m => .string m.keyword)

/-- The fields of a signature. -/
def Signature.fields (s : Signature) (nodes : List NodeId → Json) : List (String × Json) :=
  [("parameters", nodes s.parameters)] ++
    (match s.returns with
      | some t => [("returnType", t.toJson)]
      | none => []) ++
    (if s.typeParameters.isEmpty then [] else [("typeParameters", nodes s.typeParameters)])

/-- The fields of a class or interface. -/
def Shape.fields (s : Shape) (nodes : List NodeId → Json) : List (String × Json) :=
  [("properties", nodes s.properties), ("methods", nodes s.methods),
    ("extends", referencesToJson s.bases), ("typeParameters", nodes s.typeParameters)]

/-- The fields of a node's body, given the JSON of the nodes it owns. -/
def Body.fields (nodes : List NodeId → Json) : Body → List (String × Json)
  | .var type isConst => [("type", type.toJson), ("isConst", .bool isConst)]
  | .param type isOptional isRest =>
    [("type", type.toJson), ("isOptional", .bool isOptional), ("isRest", .bool isRest)]
  | .function s | .constructor s => s.fields nodes
  | .method s modifiers => s.fields nodes ++ [("modifiers", modifiersToJson modifiers)]
  | .property type isOptional modifiers =>
    [("type", type.toJson), ("isOptional", .bool isOptional),
      ("modifiers", modifiersToJson modifiers)]
  | .classDecl shape interfaces => shape.fields nodes ++ [("implements", referencesToJson interfaces)]
  | .interface shape => shape.fields nodes
  | .enum members => [("members", .array (members.map fun m =>
      .object [("name", .string m.name), ("value", .string m.value)]))]
  | .typeAlias typeParameters type =>
    [("typeParameters", nodes typeParameters), ("type", type.toJson)]
  | .typeParameter none => []
  | .typeParameter (some c) => [("constraint", c.toJson)]
  | .namespaceDecl ids | .sourceFile ids | .root ids => [("children", nodes ids)]

/-- A node and the nodes below it, down to `fuel` levels. -/
def Tree.nodeToJson (t : Tree) : Nat → NodeId → Json
  | 0, _ => .null
  | fuel + 1, id =>
    match t.node? id with
    | none => .null
    | some n =>
      .object ([("kind", .string ("Node[" ++ toString n.kind.index ++ "] " ++ n.kind.label)),
        ("name", .string n.name)] ++
        (match n.flags with
          | some f => [("docFlags", f.toJson)]
          | none => []) ++
        n.body.fields fun ids => .array (ids.map (t.nodeToJson fuel)))

/-- The whole tree. -/
def Tree.toJson (t : Tree) : Json := t.nodeToJson t.size t.root

/-- The text of the whole tree, on one line when `indent` is zero. -/
def Tree.dump (t : Tree) (indent : Nat) : String := t.toJson.render indent

end DocLocale
