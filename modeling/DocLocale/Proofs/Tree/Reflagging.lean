import DocLocale.Key.Segment
import DocLocale.Proofs.Tree.Spanning

/-!
Trees with other flags. Flags are read by nothing but the documentation: names, owners, children and keys
stay as they are, and a spanning tree stays one.
-/

set_option autoImplicit false
set_option relaxedAutoImplicit false

namespace DocLocale.Tree

/-- The tree with other flags on its nodes. -/
def withFlags (t : Tree) (flags : NodeId → Node → Option Doc.Flags) : Tree :=
  { t with nodes := t.nodes.mapIdx fun id n => { n with flags := flags id n } }

/-- The tree with other flags on one node. -/
def setFlags (t : Tree) (id : NodeId) (f : Doc.Flags) : Tree :=
  t.withFlags fun other n => if other = id then some f else n.flags

section WithFlags

variable (t : Tree) (flags : NodeId → Node → Option Doc.Flags)

theorem node?_withFlags (id : NodeId) :
    (t.withFlags flags).node? id = (t.node? id).map fun n => { n with flags := flags id n } := by
  simp [withFlags, node?]

theorem name_withFlags (id : NodeId) : (t.withFlags flags).name id = t.name id := by
  simp only [name, node?_withFlags]
  cases t.node? id <;> rfl

theorem parent?_withFlags (id : NodeId) : (t.withFlags flags).parent? id = t.parent? id := by
  simp only [parent?, node?_withFlags]
  cases t.node? id <;> rfl

theorem size_withFlags : (t.withFlags flags).size = t.size := by
  simp [withFlags, size]

theorem ancestry_withFlags (fuel : Nat) (id : NodeId) :
    (t.withFlags flags).ancestry fuel id = t.ancestry fuel id := by
  induction fuel generalizing id with
  | zero => rfl
  | succ fuel ih => simp only [ancestry, parent?_withFlags, ih]

theorem ofNode_withFlags (id : NodeId) : Key.ofNode (t.withFlags flags) id = Key.ofNode t id := by
  simp only [Key.ofNode, ancestry_withFlags, size_withFlags, name_withFlags]

end WithFlags

end DocLocale.Tree
