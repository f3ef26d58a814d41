import DocLocale.Proofs.Tree.Lineage
import DocLocale.Proofs.Tree.Walk

/-!
The nodes below a node, the node first. Main statement: the stack of a walk holds what is still to come of
this order, so a walk lists the tree from the root down.
-/

set_option autoImplicit false
set_option relaxedAutoImplicit false

namespace DocLocale.Tree

open scoped List

variable {t : Tree}

/-- A node and the nodes below it down to `fuel` levels, each owner before its children. -/
def preorderFrom (t : Tree) : Nat → NodeId → List NodeId
  | 0, _ => []
  | fuel + 1, id => id :: (t.children id).flatMap (t.preorderFrom fuel)

/-- A node and the nodes below it, each owner before its children. -/
def preorder (t : Tree) (id : NodeId) : List NodeId := t.preorderFrom t.size id

namespace Wired

theorem preorder_eq (wired : t.Wired) {id : NodeId} (bound : id < t.size) :
    t.preorder id = id :: (t.children id).flatMap t.preorder := by
  have positive := wired.length_lineage_pos bound
  have level : ∀ fuel more id, (∀ c ∈ t.children id, t.preorderFrom fuel c = t.preorderFrom more c) →
      t.preorderFrom (fuel + 1) id = t.preorderFrom (more + 1) id := by
    intro fuel more id same
    rw [preorderFrom, preorderFrom, List.flatMap_congr same]
  have unfolded : t.preorder id = t.preorderFrom (t.size + 1) id :=
    wired.levels_eq level bound (by omega) (by omega)
  rw [unfolded]
  rfl

private theorem walkFrom_eq_take (wired : t.Wired) (fuel : Nat) {stack : List NodeId}
    (known : ∀ id ∈ stack, id < t.size) :
    t.walkFrom fuel stack = (stack.flatMap t.preorder).take fuel := by
  induction fuel generalizing stack with
  | zero => simp [walkFrom]
  | succ fuel ih =>
    cases stack with
    | nil => simp [walkFrom]
    | cons id stack =>
      have next : ∀ c ∈ t.children id ++ stack, c < t.size := by
        intro c member
        rcases List.mem_append.mp member with child | waiting
        · exact wired.spanning.child_lt child
        · exact known c (List.mem_cons_of_mem _ waiting)
      rw [walkFrom, ih next, List.flatMap_cons, wired.preorder_eq (known id List.mem_cons_self),
        List.flatMap_append, List.cons_append, List.take_succ_cons]

/-- A walk lists the nodes from the root down. -/
theorem walk_eq_preorder (wired : t.Wired) : t.walk = t.preorder t.root := by
  have known : ∀ id ∈ [t.root], id < t.size := by
    simpa using wired.spanning.root_lt
  have taken : ∀ fuel, t.walkFrom fuel [t.root] = (t.preorder t.root).take fuel := by
    intro fuel
    simpa using wired.walkFrom_eq_take fuel known
  -- With fuel for all of it, the order is as long as a walk, so a walk stops nowhere before its end.
  have all : t.preorder t.root ~ List.range t.size := by
    have long := walkFrom_perm_range wired.spanning (Nat.le_max_left t.size (t.preorder t.root).length)
    rwa [taken, List.take_of_length_le (Nat.le_max_right _ _)] at long
  rw [walk, taken, List.take_of_length_le]
  simpa using Nat.le_of_eq all.length_eq

end Wired

end DocLocale.Tree
