import DocLocale.Proofs.Tree.Lineage
import Mathlib.Data.List.Forall2
import Mathlib.Data.Set.Function
import Mathlib.Tactic.Choose

/-!
Trees that differ in the numbers of their nodes alone. Main statement: two trees are one tree up to
numbering as soon as their roots are related, related nodes hold the same up to numbers, and the children of
related nodes are related one by one. Each node is paired with the node at the same place in the other tree,
and as a node stands in one place only, the pairing is a function both ways.
-/

set_option autoImplicit false
set_option relaxedAutoImplicit false

namespace DocLocale

section Renumber

variable (f : NodeId → NodeId)

/-- The signature with its nodes numbered anew. -/
def Signature.renumber (s : Signature) : Signature :=
  { s with parameters := s.parameters.map f, typeParameters := s.typeParameters.map f }

/-- The shape with its nodes numbered anew. -/
def Shape.renumber (s : Shape) : Shape :=
  { s with
    properties := s.properties.map f
    methods := s.methods.map f
    typeParameters := s.typeParameters.map f }

/-- The body with its nodes numbered anew and the rest as it is. -/
def Body.renumber : Body → Body
  | .function s => .function (s.renumber f)
  | .classDecl s interfaces => .classDecl (s.renumber f) interfaces
  | .method s modifiers => .method (s.renumber f) modifiers
  | .constructor s => .constructor (s.renumber f)
  | .namespaceDecl ids => .namespaceDecl (ids.map f)
  | .interface s => .interface (s.renumber f)
  | .typeAlias ids type => .typeAlias (ids.map f) type
  | .sourceFile ids => .sourceFile (ids.map f)
  | .root ids => .root (ids.map f)
  | .var type isConst => .var type isConst
  | .param type isOptional isRest => .param type isOptional isRest
  | .property type isOptional modifiers => .property type isOptional modifiers
  | .enum members => .enum members
  | .typeParameter constraint => .typeParameter constraint

theorem Body.renumber_id (b : Body) : b.renumber id = b := by
  cases b <;> simp [Body.renumber, Signature.renumber, Shape.renumber]

theorem Body.kind_renumber (b : Body) : (b.renumber f).kind = b.kind := by
  cases b <;> rfl

/-- The node with its owner and the nodes it owns numbered anew. -/
def Node.renumber (n : Node) : Node :=
  { n with body := n.body.renumber f, parent := n.parent.map f }

end Renumber

/-- The nodes hold the same but for numbers: whatever numbering takes the child list of the one to that of
the other takes its whole body there. -/
structure Node.SameUpToNumbers (n m : Node) : Prop where
  name : n.name = m.name
  flags : n.flags = m.flags
  body : ∀ f, n.body.children.map f = m.body.children → n.body.renumber f = m.body

namespace Tree

variable {t u : Tree}

/-- Numbering the nodes of the first tree by `f` gives the second. -/
structure Renumbers (t u : Tree) (f : NodeId → NodeId) : Prop where
  bijective : Set.BijOn f {id | id < t.size} {id | id < u.size}
  root : f t.root = u.root
  nodes : ∀ id n, t.node? id = some n → u.node? (f id) = some (n.renumber f)

/-- The relation follows both trees down from their roots, and related nodes hold the same. -/
structure Matching (t u : Tree) (related : NodeId → NodeId → Prop) : Prop where
  roots : related t.root u.root
  same : ∀ {p q : NodeId} {n m : Node}, related p q → t.node? p = some n → u.node? q = some m →
    n.SameUpToNumbers m
  children : ∀ {p q : NodeId}, related p q → p < t.size → q < u.size →
    List.Forall₂ related (t.children p) (u.children q)

/-- The nodes stand at the same place in their trees. -/
inductive Paired (t u : Tree) : NodeId → NodeId → Prop
  | root : Paired t u t.root u.root
  | child {p q c d : NodeId} (k : Nat) : Paired t u p q → (t.children p)[k]? = some c →
    (u.children q)[k]? = some d → Paired t u c d

namespace Paired

theorem swap {p q : NodeId} (paired : t.Paired u p q) : u.Paired t q p := by
  induction paired with
  | root => exact .root
  | child k _ left right ih => exact .child k ih right left

theorem lt_size (spanning : t.Spanning) {p q : NodeId} (paired : t.Paired u p q) : p < t.size := by
  cases paired with
  | root => exact spanning.root_lt
  | child k _ left _ => exact spanning.child_lt (List.mem_of_getElem? left)

/-- A node has one partner: it is owned by one node, in one position. -/
theorem unique (spanning : t.Spanning) {p q r : NodeId} (first : t.Paired u p q)
    (second : t.Paired u p r) : q = r := by
  -- Both pairings end with the same step, since owner and position are those of the node itself.
  induction first generalizing r with
  | root =>
    generalize top : t.root = id at second
    cases second with
    | root => rfl
    | child k _ left _ => exact absurd top.symm (spanning.child_ne_root (List.mem_of_getElem? left))
  | child k above left right ih =>
    cases second with
    | root => exact absurd rfl (spanning.child_ne_root (List.mem_of_getElem? left))
    | child j also here there =>
      obtain rfl := spanning.owner_unique (List.mem_of_getElem? left) (List.mem_of_getElem? here)
      obtain rfl := ih also
      obtain ⟨bound, -⟩ := List.getElem?_eq_some_iff.mp left
      obtain rfl : k = j := (List.getElem?_inj bound (spanning.children_nodup _)).mp (left.trans here.symm)
      exact Option.some.inj (right.symm.trans there)

/-- Where paired nodes own equally many nodes, every node has a partner. -/
theorem exists_partner (count : ∀ p q, t.Paired u p q → (t.children p).length = (u.children q).length)
    {p : NodeId} (reached : t.Reached p) : ∃ q, t.Paired u p q := by
  induction reached with
  | root => exact ⟨_, .root⟩
  | @child p c _ member ih =>
    obtain ⟨q, above⟩ := ih
    obtain ⟨k, left⟩ := List.mem_iff_getElem?.mp member
    obtain ⟨bound, -⟩ := List.getElem?_eq_some_iff.mp left
    rw [count p q above] at bound
    exact ⟨_, .child k above left (List.getElem?_eq_getElem bound)⟩

end Paired

namespace Matching

variable {related : NodeId → NodeId → Prop}

section Partners

variable (matching : t.Matching u related) (left : t.Wired) (right : u.Wired)
include matching left right

theorem of_paired {p q : NodeId} (paired : t.Paired u p q) : related p q := by
  induction paired with
  | root => exact matching.roots
  | @child p q c d k above here there ih =>
    have owned := matching.children ih (above.lt_size left.spanning) (above.swap.lt_size right.spanning)
    obtain ⟨bound, rfl⟩ := List.getElem?_eq_some_iff.mp here
    obtain ⟨also, rfl⟩ := List.getElem?_eq_some_iff.mp there
    exact owned.get bound also

theorem children_of_paired {p q : NodeId} (paired : t.Paired u p q) :
    List.Forall₂ related (t.children p) (u.children q) :=
  matching.children (matching.of_paired left right paired) (paired.lt_size left.spanning)
    (paired.swap.lt_size right.spanning)

theorem exists_partner {p : NodeId} (bound : p < t.size) : ∃ q, t.Paired u p q :=
  Paired.exists_partner (fun _ _ paired => (matching.children_of_paired left right paired).length_eq)
    (left.spanning.connected p bound)

theorem exists_partner_back {q : NodeId} (bound : q < u.size) : ∃ p, t.Paired u p q := by
  obtain ⟨p, paired⟩ := Paired.exists_partner
    (fun _ _ paired => (matching.children_of_paired left right paired.swap).length_eq.symm)
    (right.spanning.connected q bound)
  exact ⟨p, paired.swap⟩

variable {f : NodeId → NodeId} (partner : ∀ p < t.size, t.Paired u p (f p))
include partner

theorem bijOn : Set.BijOn f {id | id < t.size} {id | id < u.size} := by
  refine ⟨fun p bound => (partner p bound).swap.lt_size right.spanning, ?_, ?_⟩
  · intro p bound p' bound' same
    have other := partner p' bound'
    rw [← same] at other
    exact (partner p bound).swap.unique right.spanning other.swap
  · intro q bound
    obtain ⟨p, paired⟩ := matching.exists_partner_back left right bound
    have below := paired.lt_size left.spanning
    exact ⟨p, below, (partner p below).unique left.spanning paired⟩

theorem map_children {p : NodeId} (bound : p < t.size) : (t.children p).map f = u.children (f p) := by
  have paired := partner p bound
  have owned := matching.children_of_paired left right paired
  refine List.ext_getElem (by simpa using owned.length_eq) fun k here there => ?_
  rw [List.getElem_map]
  rw [List.length_map] at here
  have inside : (t.children p)[k] ∈ t.children p := List.getElem_mem here
  exact (partner _ (left.spanning.child_lt inside)).unique left.spanning
    (.child k paired (List.getElem?_eq_getElem here) (List.getElem?_eq_getElem there))

theorem map_parent {id : NodeId} (bound : id < t.size) : (t.parent? id).map f = u.parent? (f id) := by
  by_cases top : id = t.root
  · subst top
    rw [(partner _ bound).unique left.spanning .root, left.parent?_root, right.parent?_root]
    rfl
  · obtain ⟨p, member⟩ := left.spanning.exists_owner bound top
    have below : f id ∈ u.children (f p) := by
      rw [← matching.map_children left right partner (lt_size_of_mem_children member)]
      exact List.mem_map_of_mem member
    rw [(left.owners id p).mpr member, (right.owners (f id) (f p)).mpr below]
    rfl

theorem node?_partner {id : NodeId} {n : Node} (found : t.node? id = some n) :
    u.node? (f id) = some (n.renumber f) := by
  have bound := lt_size_of_node? found
  have paired := partner id bound
  obtain ⟨m, other⟩ := exists_node? (paired.swap.lt_size right.spanning)
  have same := matching.same (matching.of_paired left right paired) found other
  have children := matching.map_children left right partner bound
  have parent := matching.map_parent left right partner bound
  simp only [Tree.children, Tree.parent?, found, other, Option.bind_some] at children parent
  rw [other, Node.renumber, same.body f children, same.name, same.flags, parent]

end Partners

/-- Trees with a matching are one tree up to numbering. -/
theorem exists_renumbers (matching : t.Matching u related) (left : t.Wired) (right : u.Wired) :
    ∃ f, t.Renumbers u f := by
  have partner : ∀ p, p < t.size → ∃ q, t.Paired u p q := fun p => matching.exists_partner left right
  choose! f partner using partner
  refine ⟨f, matching.bijOn left right partner, ?_, ?_⟩
  · exact (partner _ left.spanning.root_lt).unique left.spanning .root
  · intro id n found
    exact matching.node?_partner left right partner found

end Matching

end Tree

end DocLocale
