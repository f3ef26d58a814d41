import DocLocale.Decl.Tree
import Mathlib.Data.List.Nodup
import Mathlib.Data.List.Pairwise

/-!
When collected nodes make a tree. Finishing accepts exactly the spanning trees of the root: every node
other than the root stands in one child list, once, and is reached from the root. The links found on the
way are the entries of the child lists of the nodes passed so far; this carries both directions.
-/

set_option autoImplicit false
set_option relaxedAutoImplicit false

namespace DocLocale.Tree

/-- A node that child lists lead to from the root. -/
inductive Reached (t : Tree) : NodeId → Prop
  | root : Reached t t.root
  | child {p c : NodeId} : Reached t p → c ∈ t.children p → Reached t c

/-- The entries of all child lists together. -/
def entries (t : Tree) : List NodeId := (List.range t.size).flatMap t.children

/-- The nodes hang below the root, each in exactly one place. -/
structure Spanning (t : Tree) : Prop where
  rooted : ∃ n, t.node? t.root = some n ∧ n.kind = .root
  known : ∀ c ∈ t.entries, c < t.size
  unowned : t.root ∉ t.entries
  once : ∀ c < t.size, c ≠ t.root → t.entries.count c = 1
  connected : ∀ c < t.size, t.Reached c

/-- A spanning tree whose recorded parents are the owners. -/
structure Wired (t : Tree) : Prop where
  spanning : t.Spanning
  owners : ∀ c p, t.parent? c = some p ↔ c ∈ t.children p

theorem lt_size_of_node? {t : Tree} {id : NodeId} {n : Node} (found : t.node? id = some n) :
    id < t.size := by
  obtain ⟨bound, -⟩ := Array.getElem?_eq_some_iff.mp found
  exact bound

theorem exists_node? {t : Tree} {id : NodeId} (bound : id < t.size) : ∃ n, t.node? id = some n :=
  ⟨t.nodes[id], Array.getElem?_eq_getElem bound⟩

theorem lt_size_of_mem_children {t : Tree} {p c : NodeId} (member : c ∈ t.children p) :
    p < t.size := by
  unfold children at member
  split at member
  · rename_i n found
    exact lt_size_of_node? found
  · cases member

theorem mem_entries {t : Tree} {c : NodeId} : c ∈ t.entries ↔ ∃ p, c ∈ t.children p := by
  simp only [entries, List.mem_flatMap, List.mem_range]
  constructor
  · rintro ⟨p, -, member⟩
    exact ⟨p, member⟩
  · rintro ⟨p, member⟩
    exact ⟨p, lt_size_of_mem_children member, member⟩

namespace Spanning

variable {t : Tree}

theorem root_lt (spanning : t.Spanning) : t.root < t.size := by
  obtain ⟨n, found, -⟩ := spanning.rooted
  exact lt_size_of_node? found

theorem child_lt (spanning : t.Spanning) {p c : NodeId} (member : c ∈ t.children p) :
    c < t.size :=
  spanning.known c (mem_entries.mpr ⟨p, member⟩)

theorem child_ne_root (spanning : t.Spanning) {p c : NodeId} (member : c ∈ t.children p) :
    c ≠ t.root := by
  rintro rfl
  exact spanning.unowned (mem_entries.mpr ⟨p, member⟩)

theorem entries_nodup (spanning : t.Spanning) : t.entries.Nodup := by
  rw [List.nodup_iff_count_le_one]
  intro c
  by_cases member : c ∈ t.entries
  · have proper : c ≠ t.root := fun same => spanning.unowned (same ▸ member)
    exact Nat.le_of_eq (spanning.once c (spanning.known c member) proper)
  · simp [List.count_eq_zero_of_not_mem member]

theorem children_nodup (spanning : t.Spanning) (p : NodeId) : (t.children p).Nodup := by
  by_cases bound : p < t.size
  · exact (List.nodup_flatMap.mp spanning.entries_nodup).1 p (List.mem_range.mpr bound)
  · have empty : t.children p = [] :=
      List.eq_nil_iff_forall_not_mem.mpr fun c member => bound (lt_size_of_mem_children member)
    simp [empty]

theorem owner_unique (spanning : t.Spanning) {p q c : NodeId} (left : c ∈ t.children p)
    (right : c ∈ t.children q) : p = q := by
  by_contra differ
  have apart := (List.nodup_flatMap.mp spanning.entries_nodup).2
  have : Std.Symm (Function.onFun List.Disjoint t.children) := ⟨fun _ _ h _ a b => h b a⟩
  have disjoint := apart.forall (List.mem_range.mpr (lt_size_of_mem_children left))
    (List.mem_range.mpr (lt_size_of_mem_children right)) differ
  exact disjoint left right

theorem exists_owner (spanning : t.Spanning) {c : NodeId} (bound : c < t.size) (proper : c ≠ t.root) :
    ∃ p, c ∈ t.children p := by
  have once := spanning.once c bound proper
  exact mem_entries.mp (List.count_pos_iff.mp (by omega))

/-- Being a spanning tree depends on the root, the number of nodes and the child lists alone. -/
theorem transfer (spanning : t.Spanning) {u : Tree} (root : u.root = t.root) (size : u.size = t.size)
    (children : u.children = t.children)
    (rooted : ∃ n, u.node? u.root = some n ∧ n.kind = .root) : u.Spanning := by
  have entries : u.entries = t.entries := by simp only [Tree.entries, size, children]
  have reached : ∀ c, t.Reached c → u.Reached c := by
    intro c path
    induction path with
    | root => exact root ▸ Reached.root
    | child _ member ih => exact .child ih (children ▸ member)
  refine ⟨rooted, ?_, ?_, ?_, ?_⟩
  · simpa only [entries, size] using spanning.known
  · simpa only [entries, root] using spanning.unowned
  · simpa only [entries, size, root] using spanning.once
  · intro c bound
    exact reached c (spanning.connected c (size ▸ bound))

end Spanning

end DocLocale.Tree
