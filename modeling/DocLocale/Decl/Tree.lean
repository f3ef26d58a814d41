import DocLocale.Decl.Node

/-!
Declaration trees. Nodes are collected in any order and refer to each other by number; finishing a
tree checks that every node hangs on exactly one owner below the root, and records the owners.
-/

set_option autoImplicit false
set_option relaxedAutoImplicit false

namespace DocLocale

/-- Numbered nodes and the number of the root. -/
structure Tree where
  nodes : Array Node
  root : NodeId

/-- Why a collection of nodes is not a tree. -/
inductive TreeError
  | notRoot (kind : Kind)
  | unknownId (id : NodeId)
  | sharedNode (name : String)
  | detached (name : String)
  deriving DecidableEq, Repr

/-- The wording of a tree error. -/
def TreeError.message : TreeError → String
  | notRoot kind => "tree root must be a Root node, found " ++ kind.label
  | unknownId id => "node id " ++ toString id ++ " does not exist in this tree"
  | sharedNode name => "node '" ++ name ++ "' is owned by more than one declaration"
  | detached name => "node '" ++ name ++ "' is not reachable from the root"

namespace Tree

/-- The node of a given number. -/
def node? (t : Tree) (id : NodeId) : Option Node := t.nodes[id]?

/-- The number of nodes. -/
def size (t : Tree) : Nat := t.nodes.size

/-- The owner of a node. -/
def parent? (t : Tree) (id : NodeId) : Option NodeId := (t.node? id).bind Node.parent

/-- The nodes a node owns. -/
def children (t : Tree) (id : NodeId) : List NodeId :=
  match t.node? id with
  | some n => n.body.children
  | none => []

/-- The name of a node. -/
def name (t : Tree) (id : NodeId) : String :=
  match t.node? id with
  | some n => n.name
  | none => ""

/-- Links from owned nodes to their owners found so far, latest first, and the nodes whose own
children are still to be linked. -/
structure Wiring where
  links : List (NodeId × NodeId)
  pending : List NodeId

/-- Links the given children to their owner. A child that has a link already, or is the root, is owned
twice. -/
def claim (t : Tree) (owner : NodeId) : List NodeId → Wiring → Except TreeError Wiring
  | [], w => .ok w
  | c :: cs, w =>
    match t.node? c with
    | none => .error (.unknownId c)
    | some n =>
      if c = t.root || (w.links.any fun l => l.1 == c) then .error (.sharedNode n.name)
      else t.claim owner cs ⟨(c, owner) :: w.links, c :: w.pending⟩

/-- Links the children of the pending nodes, latest first, and of the nodes these bring in. -/
def wire (t : Tree) : Nat → Wiring → Except TreeError Wiring
  | 0, w => .ok w
  | fuel + 1, w =>
    match w.pending with
    | [] => .ok w
    | id :: pending =>
      match t.claim id (t.children id) ⟨w.links, pending⟩ with
      | .ok w => t.wire fuel w
      | .error e => .error e

/-- The owner that the links record for a node. -/
def ownerIn (links : List (NodeId × NodeId)) (id : NodeId) : Option NodeId :=
  (links.find? fun l => l.1 == id).map (·.2)

/-- Sets the parent of every node from the child lists, starting at the root. -/
def assignParents (t : Tree) : Except TreeError Tree :=
  match t.node? t.root with
  | none => .error (.unknownId t.root)
  | some n =>
    if n.kind ≠ .root then .error (.notRoot n.kind)
    else
      match t.wire (t.size + 1) ⟨[], [t.root]⟩ with
      | .error e => .error e
      | .ok w =>
        match (List.range t.size).find?
            (fun id => id ≠ t.root && (ownerIn w.links id).isNone) with
        | some id => .error (.detached (t.name id))
        | none => .ok { t with nodes := t.nodes.mapIdx fun id n =>
            { n with parent := ownerIn w.links id } }

/-- Sets the parents of a tree in place. The tree takes the owners over once every check has passed. -/
def rewire : EStateM TreeError Tree Unit := do
  let t ← get
  match t.assignParents with
  | .ok wired => set wired
  | .error e => throw e

/-- Makes a tree of the collected nodes. -/
def finish (nodes : Array Node) (root : NodeId) : Except TreeError Tree :=
  assignParents ⟨nodes, root⟩

/-- Visits the nodes on a stack, the children of each before its later siblings. -/
def walkFrom (t : Tree) : Nat → List NodeId → List NodeId
  | 0, _ => []
  | _ + 1, [] => []
  | fuel + 1, id :: stack => id :: t.walkFrom fuel (t.children id ++ stack)

/-- All nodes from the root down, each owner before its children and siblings in order. -/
def walk (t : Tree) : List NodeId := t.walkFrom t.size [t.root]

/-- A node and its owners up to the root. -/
def ancestry (t : Tree) : Nat → NodeId → List NodeId
  | 0, _ => []
  | fuel + 1, id =>
    match t.parent? id with
    | some p => id :: t.ancestry fuel p
    | none => [id]

end Tree

end DocLocale
