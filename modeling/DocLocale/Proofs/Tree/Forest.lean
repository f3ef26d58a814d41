import DocLocale.Proofs.Tree.Wiring

/-!
Nodes that are collected from the bottom up. Each owner keeps places of certain kinds for the nodes it
owns. Between two additions the nodes form a forest: every node is owned once by a later one, or waits for
an owner. Main statements: a node that takes in waiting nodes keeps this, and a forest in which only a root
waits is a spanning tree.
-/

set_option autoImplicit false
set_option relaxedAutoImplicit false

namespace DocLocale

/-- The places that a tree has for nodes. -/
inductive Role
  | parameter | generic | property | method | declaration | file | top
  deriving DecidableEq, Repr

namespace Role

/-- The kinds of node that a place takes. -/
def kinds : Role → List Kind
  | parameter => [.param]
  | generic => [.typeParameter]
  | property => [.property]
  | method => [.method, .constructor]
  | declaration => [.var, .function, .classDecl, .enum, .namespaceDecl, .interface, .typeAlias]
  | file => [.sourceFile]
  | top => [.root]

/-- Whether the nodes of a place are documented. -/
def isDocumented : Role → Bool
  | property | method | declaration => true
  | parameter | generic | file | top => false

/-- A node of the right kind, documented if its place asks for it and not otherwise. -/
def Admits (r : Role) (n : Node) : Prop := n.kind ∈ r.kinds ∧ n.flags.isSome = r.isDocumented

instance (r : Role) (n : Node) : Decidable (r.Admits n) := inferInstanceAs (Decidable (_ ∧ _))

end Role

/-- The places of a body and the nodes in them, in the order of its children. -/
def Body.places : Body → List (NodeId × Role)
  | .namespaceDecl ids | .sourceFile ids => ids.map (·, .declaration)
  | .root ids => ids.map (·, .file)
  | .classDecl s _ | .interface s =>
    s.properties.map (·, .property) ++ s.methods.map (·, .method) ++ s.typeParameters.map (·, .generic)
  | .function s | .constructor s | .method s _ =>
    s.parameters.map (·, .parameter) ++ s.typeParameters.map (·, .generic)
  | .typeAlias ids _ => ids.map (·, .generic)
  | .var .. | .param .. | .property .. | .enum _ | .typeParameter _ => []

theorem Body.map_fst_places (b : Body) : b.places.map Prod.fst = b.children := by
  cases b <;> simp [places, children, Function.comp_def]

/-- A tree in which every node stands in a place that takes it. -/
structure Tree.WellKinded (t : Tree) : Prop where
  top : ∃ n, t.node? t.root = some n ∧ Role.top.Admits n
  places : ∀ id n, t.node? id = some n → ∀ c r, (c, r) ∈ n.body.places →
    ∃ m, t.node? c = some m ∧ r.Admits m

/-- A node that fits a place. -/
def Fits (nodes : Array Node) (place : NodeId × Role) : Prop :=
  ∃ m, nodes[place.1]? = some m ∧ place.2.Admits m

theorem Fits.push {nodes : Array Node} {place : NodeId × Role} (fits : Fits nodes place) (n : Node) :
    Fits (nodes.push n) place := by
  obtain ⟨m, found, admitted⟩ := fits
  obtain ⟨bound, -⟩ := Array.getElem?_eq_some_iff.mp found
  refine ⟨m, ?_, admitted⟩
  rw [Array.getElem?_push, if_neg (Nat.ne_of_lt bound), found]

open scoped List in
/-- Nodes of which those in `waiting` have no owner yet, each with the place it is meant for. -/
structure Forest (nodes : Array Node) (waiting : List (NodeId × Role)) : Prop where
  /-- Every node waits or is owned, and only once. -/
  split : waiting.map Prod.fst ++ Tree.entries ⟨nodes, 0⟩ ~ List.range nodes.size
  later : ∀ (id : NodeId) (n : Node), nodes[id]? = some n → ∀ c ∈ n.body.children, c < id
  owned : ∀ (id : NodeId) (n : Node), nodes[id]? = some n → ∀ place ∈ n.body.places, Fits nodes place
  unowned : ∀ place ∈ waiting, Fits nodes place

namespace Forest

open scoped List

theorem empty : Forest #[] [] where
  split := by simp [Tree.entries, Tree.size]
  later := by simp
  owned := by simp
  unowned := by simp

variable {nodes : Array Node} {waiting : List (NodeId × Role)}

theorem perm (forest : Forest nodes waiting) {other : List (NodeId × Role)} (same : other ~ waiting) :
    Forest nodes other where
  split := ((same.map _).append_right _).trans forest.split
  later := forest.later
  owned := forest.owned
  unowned place member := forest.unowned place (same.mem_iff.mp member)

private theorem children_push (n : Node) {id : NodeId} (old : id < nodes.size) :
    Tree.children ⟨nodes.push n, 0⟩ id = Tree.children ⟨nodes, 0⟩ id := by
  simp only [Tree.children, Tree.node?, Array.getElem?_push, if_neg (Nat.ne_of_lt old)]

private theorem entries_push (nodes : Array Node) (n : Node) :
    Tree.entries ⟨nodes.push n, 0⟩ = Tree.entries ⟨nodes, 0⟩ ++ n.body.children := by
  have last : Tree.children ⟨nodes.push n, 0⟩ nodes.size = n.body.children := by
    simp [Tree.children, Tree.node?]
  have before : (List.range nodes.size).flatMap (Tree.children ⟨nodes.push n, 0⟩) =
      (List.range nodes.size).flatMap (Tree.children ⟨nodes, 0⟩) :=
    List.flatMap_congr fun id member => children_push n (List.mem_range.mp member)
  simp only [Tree.entries, Tree.size, Array.size_push, List.range_succ, List.flatMap_append, before,
    List.flatMap_singleton, last]

/-- A new node takes the nodes out of `waiting` that it owns, and waits itself. -/
theorem push {n : Node} {rest : List (NodeId × Role)} (forest : Forest nodes (n.body.places ++ rest))
    {r : Role} (admitted : r.Admits n) : Forest (nodes.push n) ((nodes.size, r) :: rest) := by
  have fits : ∀ place ∈ n.body.places ++ rest, Fits (nodes.push n) place := fun place member =>
    (forest.unowned place member).push n
  have older : ∀ c ∈ n.body.children, c < nodes.size := by
    intro c member
    rw [← Body.map_fst_places] at member
    have all := List.mem_append_left (Tree.entries ⟨nodes, 0⟩)
      ((List.map_append ..).symm ▸ List.mem_append_left (rest.map Prod.fst) member)
    exact List.mem_range.mp (forest.split.mem_iff.mp all)
  refine ⟨?_, ?_, ?_, ?_⟩
  · have moved : rest.map Prod.fst ++ (Tree.entries ⟨nodes, 0⟩ ++ n.body.children) ~
        (n.body.places ++ rest).map Prod.fst ++ Tree.entries ⟨nodes, 0⟩ := by
      rw [List.map_append, Body.map_fst_places, List.perm_iff_count]
      intro a
      simp only [List.count_append]
      omega
    rw [entries_push, Array.size_push, List.range_succ, List.map_cons, List.cons_append]
    exact ((moved.trans forest.split).cons _).trans (List.perm_append_singleton _ _).symm
  · intro id m found c member
    rw [Array.getElem?_push] at found
    split at found
    · cases found
      rename_i new
      exact new ▸ older c member
    · exact forest.later id m found c member
  · intro id m found place member
    rw [Array.getElem?_push] at found
    split at found
    · cases found
      exact fits place (List.mem_append_left _ member)
    · exact (forest.owned id m found place member).push n
  · intro place member
    rcases List.mem_cons.mp member with rfl | member
    · exact ⟨n, by simp, admitted⟩
    · exact fits place (List.mem_append_right _ member)

/-- A forest in which only a root waits is a spanning tree. -/
theorem spanning {root : NodeId} (forest : Forest nodes [(root, .top)]) :
    Tree.Spanning ⟨nodes, root⟩ := by
  have split : root :: Tree.entries ⟨nodes, root⟩ ~ List.range nodes.size := forest.split
  have nodup := split.nodup_iff.mpr List.nodup_range
  have all : ∀ id, id < nodes.size ↔ id = root ∨ id ∈ Tree.entries ⟨nodes, root⟩ := by
    intro id
    rw [← List.mem_range, ← split.mem_iff, List.mem_cons]
  obtain ⟨unowned, once⟩ := List.nodup_cons.mp nodup
  refine ⟨?_, ?_, unowned, ?_, ?_⟩
  · obtain ⟨n, found, admitted⟩ := forest.unowned _ (List.mem_singleton_self _)
    exact ⟨n, found, List.mem_singleton.mp admitted.1⟩
  · intro c member
    exact (all c).mpr (.inr member)
  · intro c bound proper
    exact List.count_eq_one_of_mem once (((all c).mp bound).resolve_left proper)
  · -- Owners come later, so going from owner to owner ends at the last node, which is the root.
    suffices above : ∀ k c, c < nodes.size → nodes.size ≤ c + k → Tree.Reached ⟨nodes, root⟩ c from
      fun c bound => above nodes.size c bound (Nat.le_add_left _ _)
    intro k
    induction k with
    | zero =>
      intro c bound enough
      omega
    | succ k ih =>
      intro c bound enough
      rcases (all c).mp bound with rfl | member
      · exact .root
      · obtain ⟨p, child⟩ := Tree.mem_entries.mp member
        have owner : p < nodes.size := Tree.lt_size_of_mem_children child
        have later : c < p := by
          simp only [Tree.children, Tree.node?, Array.getElem?_eq_getElem owner] at child
          exact forest.later p _ (Array.getElem?_eq_getElem owner) c child
        exact (ih p owner (by omega)).child child

/-- A place is taken in the finished tree as it was in the forest. -/
private theorem node?_of_fits {root : NodeId} {t : Tree} (finished : Tree.finish nodes root = .ok t)
    {id : NodeId} {r : Role} (fits : Fits nodes (id, r)) : ∃ m, t.node? id = some m ∧ r.Admits m := by
  obtain ⟨m, added, admitted⟩ := fits
  refine ⟨{ m with parent := t.parent? id }, ?_, admitted⟩
  rw [Tree.node?_of_finish finished, added, Option.map_some]

/-- A tree that is finished from a forest has every node in a place that takes it. -/
theorem wellKinded {root : NodeId} (forest : Forest nodes [(root, .top)]) {t : Tree}
    (finished : Tree.finish nodes root = .ok t) : t.WellKinded where
  top := by
    rw [Tree.root_of_finish finished]
    exact node?_of_fits finished (forest.unowned _ (List.mem_singleton_self _))
  places id n found c r member := by
    rw [Tree.node?_of_finish finished] at found
    obtain ⟨m, added, rfl⟩ := Option.map_eq_some_iff.mp found
    exact node?_of_fits finished (forest.owned id m added (c, r) member)

end Forest

end DocLocale
