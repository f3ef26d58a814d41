import DocLocale.Key.Segment
import DocLocale.Proofs.Tree.Preorder

/-!
Keys along the lineage of a node. A node below the files adds a dot and its segment to the key of its owner,
so no two nodes of one lineage share a key, the root and its children apart.
-/

set_option autoImplicit false
set_option relaxedAutoImplicit false

namespace DocLocale.Key

variable {t : Tree}

theorem ofNode_eq (t : Tree) (id : NodeId) :
    ofNode t id = ".".intercalate ((t.lineage id).dropLast.reverse.map fun i => segment (t.name i)) :=
  rfl

/-- The key of a node is the key of its owner, a dot, and its own segment. -/
theorem ofNode_child (wired : t.Wired) {p c : NodeId} (member : c ∈ t.children p)
    (proper : p ≠ t.root) : ofNode t c = ofNode t p ++ "." ++ segment (t.name c) := by
  have bound := Tree.lt_size_of_mem_children member
  have nonempty : t.lineage p ≠ [] := List.ne_nil_of_length_pos (wired.length_lineage_pos bound)
  have owned : (t.lineage p).dropLast ≠ [] := by
    obtain ⟨q, child⟩ := wired.spanning.exists_owner bound proper
    rw [wired.lineage_child child, List.dropLast_cons_of_ne_nil]
    · exact List.cons_ne_nil _ _
    · exact List.ne_nil_of_length_pos
        (wired.length_lineage_pos (Tree.lt_size_of_mem_children child))
  rw [ofNode_eq, ofNode_eq, wired.lineage_child member, List.dropLast_cons_of_ne_nil nonempty,
    List.reverse_cons, List.map_append,
    String.intercalate_append_of_ne_nil ?_ (by simp)]
  · simp
  · simpa only [ne_eq, List.map_eq_nil_iff, List.reverse_eq_nil_iff] using owned

theorem length_ofNode_child (wired : t.Wired) {p c : NodeId} (member : c ∈ t.children p)
    (proper : p ≠ t.root) : (ofNode t p).length < (ofNode t c).length := by
  have dot : ".".length = 1 := rfl
  rw [ofNode_child wired member proper, String.length_append, String.length_append, dot]
  omega

/-- Keys get no shorter on the way down. -/
theorem length_ofNode_preorder (wired : t.Wired) {id below : NodeId} (bound : id < t.size)
    (proper : id ≠ t.root) (member : below ∈ t.preorder id) :
    (ofNode t id).length ≤ (ofNode t below).length := by
  induction id, bound using wired.induction_down with
  | step id bound ih =>
    rw [wired.preorder_eq bound] at member
    rcases List.mem_cons.mp member with rfl | member
    · exact Nat.le_refl _
    · obtain ⟨c, child, inside⟩ := List.mem_flatMap.mp member
      have deeper := ih c child (wired.spanning.child_ne_root child) inside
      have longer := length_ofNode_child wired child proper
      omega

end DocLocale.Key
