import DocLocale.Decl.Tree
import DocLocale.Issue
import DocLocale.Source.File

/-!
Declaration nodes of a file. Nodes are numbered in the order they are added: an owner comes after the
nodes it owns. What has no node is reported and left out.
-/

set_option autoImplicit false
set_option relaxedAutoImplicit false

namespace DocLocale.Project

open Source

/-- The nodes and issues collected so far. -/
structure Draft where
  nodes : Array Node := #[]
  issues : Array Issue := #[]

/-- A file that is being outlined, and the path it is shown under. -/
structure Sheet where
  file : File
  path : String

/-- Adds a node. -/
def add (n : Node) : StateM Draft NodeId := fun d =>
  (d.nodes.size, { d with nodes := d.nodes.push n })

/-- Adds an issue. -/
def report (i : Issue) : StateM Draft Unit := fun d =>
  ((), { d with issues := d.issues.push i })

namespace Sheet

variable (s : Sheet)

/-- The place of a byte. -/
def place (position : Nat) : Place :=
  let l := s.file.locate position
  ⟨s.path, l.line, l.column, l.source⟩

/-- Reports a construct that has no node. -/
def unsupported (lo : Nat) (construct : String) : StateM Draft Unit :=
  report (.unsupported (s.place lo) construct)

/-- The flags of the declaration that starts at `lo`; its unknown tags are reported. -/
def flags (kind : Kind) (lo : Nat) : StateM Draft Doc.Flags := do
  let tags := ((s.file.comment? lo).map (·.tags)).getD []
  let outcome := Doc.buildFlags kind (tags.map (·.name))
  for index in outcome.unknown do
    match tags[index]? with
    | some tag => report (.unknownTag (s.place tag.position) tag.name)
    | none => pure ()
  return outcome.flags

end Sheet

/-- Adds generic parameters. -/
def addGenerics (ps : List TypeParameter) : StateM Draft (List NodeId) :=
  ps.mapM fun p => add ⟨p.name, none, .typeParameter p.constraint, none⟩

/-- Adds parameters; those without a name are named by their positions, counted from `index`. -/
def addParameters (index : Nat) : List Parameter → StateM Draft (List NodeId)
  | [] => return []
  | p :: ps => do
    let id ← add ⟨p.nameAt index, none, .param p.type p.isOptional p.isRest, none⟩
    return id :: (← addParameters (index + 1) ps)

/-- Adds the parameters and generics of a function. -/
def addSignature (f : Function) : StateM Draft Signature := do
  let parameters ← addParameters 0 f.parameters
  let generics ← addGenerics f.generics
  return ⟨parameters, f.returns, generics⟩

/-- The numbers of the members of a class or interface. -/
structure MemberIds where
  properties : List NodeId := []
  methods : List NodeId := []

namespace Sheet

variable (s : Sheet)

/-- Adds a member to those before it. -/
def addMember (ids : MemberIds) : Member → StateM Draft MemberIds
  | .property lo name type optional modifiers => do
    let flags ← s.flags .property lo
    let id ← add ⟨name, some flags, .property type optional modifiers, none⟩
    return { ids with properties := ids.properties ++ [id] }
  | .method lo name f _ modifiers => do
    let flags ← s.flags .method lo
    let signature ← addSignature f
    let id ← add ⟨name, some flags, .method signature modifiers, none⟩
    return { ids with methods := ids.methods ++ [id] }
  | .constructor lo ps => do
    let flags ← s.flags .constructor lo
    let parameters ← addParameters 0 ps
    let id ← add ⟨"constructor", some flags, .constructor ⟨parameters, none, []⟩, none⟩
    return { ids with methods := ids.methods ++ [id] }
  | .skipped lo construct => do
    s.unsupported lo construct
    return ids
  | .empty => return ids

/-- Adds members. -/
def addMembers (ms : List Member) : StateM Draft MemberIds := ms.foldlM s.addMember {}

/-- Adds the bindings of a variable declaration, which share its documentation. -/
def addBindings (flags : Doc.Flags) (isConst : Bool) : List Binding → StateM Draft (List NodeId)
  | [] => return []
  | .named name type :: bs => do
    let id ← add ⟨name, some flags, .var type isConst, none⟩
    return id :: (← addBindings flags isConst bs)
  | .pattern lo :: bs => do
    s.unsupported lo "destructuring declaration"
    addBindings flags isConst bs

mutual

/-- Adds the nodes of an item and gives the numbers of those that its owner holds. -/
def addItem : Item → StateM Draft (List NodeId)
  | .vars lo isConst bs => do
    let flags ← s.flags .var lo
    s.addBindings flags isConst bs
  | .function lo name f => do
    let flags ← s.flags .function lo
    let signature ← addSignature f
    return [← add ⟨name, some flags, .function signature, none⟩]
  | .classDecl lo name generics bases interfaces ms => do
    let flags ← s.flags .classDecl lo
    let generics ← addGenerics generics
    let ids ← s.addMembers ms
    let shape : Shape := ⟨ids.properties, ids.methods, bases, generics⟩
    return [← add ⟨name, some flags, .classDecl shape interfaces, none⟩]
  | .interface lo name generics bases ms => do
    let flags ← s.flags .interface lo
    let generics ← addGenerics generics
    let ids ← s.addMembers ms
    return [← add ⟨name, some flags, .interface ⟨ids.properties, ids.methods, bases, generics⟩, none⟩]
  | .typeAlias lo name generics type => do
    let flags ← s.flags .typeAlias lo
    let generics ← addGenerics generics
    return [← add ⟨name, some flags, .typeAlias generics type, none⟩]
  | .enum lo name ms => do
    let flags ← s.flags .enum lo
    return [← add ⟨name, some flags, .enum ms, none⟩]
  | .namespaceDecl lo name items => do
    let flags ← s.flags .namespaceDecl lo
    let children ← addItems items
    return [← add ⟨name, some flags, .namespaceDecl children, none⟩]
  | .skipped lo construct => do
    s.unsupported lo construct
    return []
  | .empty => return []

/-- Adds the nodes of items in order. -/
def addItems : List Item → StateM Draft (List NodeId)
  | [] => return []
  | item :: items => do
    let ids ← addItem item
    return ids ++ (← addItems items)

end

/-- Adds the nodes of a file under a node of its own. -/
def addFile (name : String) : StateM Draft NodeId := do
  let children ← s.addItems s.file.items
  add ⟨name, none, .sourceFile children, none⟩

end Sheet

end DocLocale.Project
