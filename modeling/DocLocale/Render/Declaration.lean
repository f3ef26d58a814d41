import DocLocale.Render.Layout
import DocLocale.Render.TypeText
import DocLocale.Translation.Translator

/-!
Declaration files. A tree is turned into declaration code with a translated comment above every
documented node, and the code is laid out as text.
-/

set_option autoImplicit false
set_option relaxedAutoImplicit false

namespace DocLocale.Render

/-- Code of a declaration file. -/
inductive Code
  /-- A declaration or class member, which ends with a semicolon. -/
  | declaration (tokens : List String) (above : Option (List String))
  /-- An enum member, which ends with a comma. -/
  | member (tokens : List String) (above : Option (List String))
  | block (header : List String) (body : List Code) (opening closing : String)
    (above : Option (List String))
  | file (name : String) (body : List Code)
  | root (files : List Code)

/-- The word that makes a declaration ambient stands at the top level only. -/
def declareWord (depth : Int) : String := if depth ≤ 0 then "declare " else ""

mutual
/-- The text of code at a depth. Files start again at the top. -/
def Code.render (s : Style) (depth : Int) : Code → String
  | .declaration tokens above => statement s depth above (declareWord depth) tokens ";"
  | .member tokens above => statement s depth above "" tokens ","
  | .block header body opening closing above =>
    Render.block s depth above (declareWord depth) header opening (renderAll s (depth + 1) body)
      closing
  | .file name body =>
    if body.isEmpty then ""
    else
      s.newline ++ "// file: " ++ name ++ s.newline ++ s.newline ++ renderAll s 0 body
  | .root files => renderAll s 0 files

/-- The text of several pieces of code. -/
def renderAll (s : Style) (depth : Int) : List Code → String
  | [] => ""
  | c :: cs => c.render s depth ++ renderAll s depth cs
end

/-- A node that has no declaration of its own. -/
structure Unrenderable where
  name : String
  kind : Kind
  deriving DecidableEq, Repr

/-- The wording for a node that cannot be rendered. -/
def Unrenderable.message (e : Unrenderable) : String :=
  e.kind.label ++ " '" ++ e.name ++ "' cannot be rendered as a standalone declaration"

/-- What rendering looks at besides the node. -/
structure Source where
  tree : Tree
  translator : Translator
  languages : List String

/-- Code, or the node that could not be rendered, with the misplaced tags met on the way. -/
abbrev Generated (α : Type) := Except Unrenderable α × List Doc.Misplaced

/-- Generates nodes in order up to the first that cannot be rendered. -/
def generateAll (generate : NodeId → Generated Code) : List NodeId → Generated (List Code)
  | [] => (.ok [], [])
  | id :: ids =>
    match generate id with
    | (.error e, misplaced) => (.error e, misplaced)
    | (.ok code, misplaced) =>
      let (rest, more) := generateAll generate ids
      (rest.map (code :: ·), misplaced ++ more)

/-- The keywords of modifiers, each once and in a fixed order. -/
def modifierText (modifiers : List Modifier) : String :=
  (if modifiers.contains .static then "static " else "") ++
    (if modifiers.contains .readonly then "readonly " else "")

/-- A heritage clause; nothing when it names no type. -/
def heritage (keyword : String) (references : List Reference) : String :=
  if references.isEmpty then ""
  else keyword ++ " " ++ ", ".intercalate (references.map fun r => typeText r.toType)

/-- A name with its generic parameters. -/
def genericName (t : Tree) (name : String) (typeParameters : List NodeId) : String :=
  name ++ typeParameterText t typeParameters

/-- The part of a signature before its result. -/
def signatureHead (t : Tree) (name : String) (s : Signature) : String :=
  genericName t name s.typeParameters ++ "(" ++ parameterText t s.parameters ++ "):"

/-- The comment lines of a node, if it has any, and its misplaced tags. -/
def commentOf (src : Source) (id : NodeId) : Option (List String) × List Doc.Misplaced :=
  let e := Doc.expand src.tree id src.languages
  let lines := e.records.flatMap src.translator.recordLines
  (if lines.isEmpty then none else some lines, e.misplaced)

/-- Puts a comment above a declaration or a block. -/
def Code.withComment (above : Option (List String)) : Code → Code
  | .declaration tokens _ => .declaration tokens above
  | .block header body opening closing _ => .block header body opening closing above
  | code => code

/-- The code of a class or interface with the given header. -/
def shapeBlock (generate : NodeId → Generated Code) (header : List String) (shape : Shape) :
    Generated Code :=
  let (body, misplaced) := generateAll generate (shape.properties ++ shape.methods)
  (body.map fun b => .block header b " \x7b" "\x7d" none, misplaced)

/-- The code of a node without its comment, given how the nodes below it are generated. -/
def bareCode (t : Tree) (generate : NodeId → Generated Code) (n : Node) : Generated Code :=
  match n.body with
  | .var type isConst =>
    (.ok (.declaration [(if isConst then "const " else "let ") ++ n.name ++ ":", typeText type] none),
      [])
  | .function s =>
    (.ok (.declaration ["function " ++ signatureHead t n.name s, optionalTypeText s.returns] none), [])
  | .property type isOptional modifiers =>
    (.ok (.declaration
      [modifierText modifiers ++ n.name ++ (if isOptional then "?" else "") ++ ":", typeText type]
      none), [])
  | .method s modifiers =>
    (.ok (.declaration
      [modifierText modifiers ++ signatureHead t n.name s, optionalTypeText s.returns] none), [])
  | .constructor s =>
    (.ok (.declaration ["constructor(" ++ parameterText t s.parameters ++ ")"] none), [])
  | .classDecl shape interfaces =>
    shapeBlock generate
      ["class", genericName t n.name shape.typeParameters, heritage "extends" shape.bases,
        heritage "implements" interfaces] shape
  | .interface shape =>
    shapeBlock generate
      ["interface", genericName t n.name shape.typeParameters, heritage "extends" shape.bases] shape
  | .enum members =>
    (.ok (.block ["enum", n.name]
      (members.map fun m => .member [m.name, "=", m.value] none) " \x7b" "\x7d" none), [])
  | .typeAlias typeParameters type =>
    (.ok (.declaration ["type", genericName t n.name typeParameters, "=", typeText type] none), [])
  | .namespaceDecl ids =>
    let (body, misplaced) := generateAll generate ids
    (body.map fun b => .block ["namespace", n.name] b " \x7b" "\x7d" none, misplaced)
  | .sourceFile ids =>
    let (body, misplaced) := generateAll generate ids
    (body.map (.file n.name), misplaced)
  | .root ids =>
    let (body, misplaced) := generateAll generate ids
    (body.map .root, misplaced)
  | .param .. | .typeParameter _ => (.error ⟨n.name, n.kind⟩, [])

/-- The code of a node and the nodes below it, down to `fuel` levels. Misplaced tags of a node come
after those of the nodes below it. -/
def generateFrom (src : Source) : Nat → NodeId → Generated Code
  | 0, id => (.error ⟨src.tree.name id, .root⟩, [])
  | fuel + 1, id =>
    match src.tree.node? id with
    | none => (.error ⟨"", .root⟩, [])
    | some n =>
      match bareCode src.tree (generateFrom src fuel) n with
      | (.error e, misplaced) => (.error e, misplaced)
      | (.ok code, misplaced) =>
        let (above, own) := commentOf src id
        (.ok (code.withComment above), misplaced ++ own)

/-- The code of a node. -/
def generate (src : Source) (id : NodeId) : Generated Code :=
  generateFrom src (src.tree.size + 1) id

/-- The declaration text of the whole tree. -/
def renderText (src : Source) (style : Style) : Generated String :=
  let (code, misplaced) := generate src src.tree.root
  (code.map (·.render style 0), misplaced)

end DocLocale.Render
