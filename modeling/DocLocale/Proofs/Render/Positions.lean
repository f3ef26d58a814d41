import DocLocale.Proofs.Render.Printing

/-!
Nodes in declaration position: those that the root leads to through nodes printed below others. Any kind of node
may stand there. Main statement: on a walk they come in the order in which printing meets them, each owner before
the nodes that it prints.
-/

set_option autoImplicit false
set_option relaxedAutoImplicit false

namespace DocLocale.Tree

variable {t : Tree}

/-- A node that is printed from the root down, and not in the line of an owner. -/
inductive Declared (t : Tree) : NodeId → Prop
  | root : Declared t t.root
  | printed {p c : NodeId} : Declared t p → c ∈ t.printed p → Declared t c

/-- A parameter or a generic. -/
def isInline (t : Tree) (id : NodeId) : Bool := (t.node? id).any fun n => !n.kind.isPrinted

/-- A parameter or a generic in declaration position. -/
def Stray (t : Tree) (id : NodeId) : Prop :=
  t.Declared id ∧ ∃ n, t.node? id = some n ∧ (n.kind = .param ∨ n.kind = .typeParameter)

theorem stray_iff {id : NodeId} : t.Stray id ↔ t.Declared id ∧ t.isInline id = true := by
  have inline : ∀ k : Kind, k = .param ∨ k = .typeParameter ↔ (!k.isPrinted) = true := by
    intro k
    cases k <;> decide
  simp only [Stray, isInline, inline]
  cases t.node? id <;> simp

/-- The nodes printed from a node down to `fuel` levels, each before those below it. -/
def declarationsFrom (t : Tree) : Nat → NodeId → List NodeId
  | 0, _ => []
  | fuel + 1, id => id :: (t.printed id).flatMap (t.declarationsFrom fuel)

/-- The nodes printed from a node down, each before those below it. -/
def declarations (t : Tree) (id : NodeId) : List NodeId := t.declarationsFrom t.size id

theorem children_eq_printed {id : NodeId} {n : Node} (found : t.node? id = some n) :
    t.children id = t.printed id ++ n.body.inline := by
  simp only [children, printed, found, Body.children_eq]

theorem printed_subset_children {id c : NodeId} (member : c ∈ t.printed id) : c ∈ t.children id := by
  cases found : t.node? id with
  | none => simp [printed, found] at member
  | some n =>
    rw [children_eq_printed found]
    exact List.mem_append_left _ member

namespace Wired

theorem declarations_eq (wired : t.Wired) {id : NodeId} (bound : id < t.size) :
    t.declarations id = id :: (t.printed id).flatMap t.declarations := by
  have positive := wired.length_lineage_pos bound
  have level : ∀ fuel more id,
      (∀ c ∈ t.children id, t.declarationsFrom fuel c = t.declarationsFrom more c) →
      t.declarationsFrom (fuel + 1) id = t.declarationsFrom (more + 1) id := by
    intro fuel more id same
    rw [declarationsFrom, declarationsFrom,
      List.flatMap_congr fun c member => same c (printed_subset_children member)]
  have unfolded : t.declarations id = t.declarationsFrom (t.size + 1) id :=
    wired.levels_eq level bound (by omega) (by omega)
  rw [unfolded]
  rfl

/-- A child in declaration position is printed by its owner. -/
theorem declared_child_iff (wired : t.Wired) {id c : NodeId} (member : c ∈ t.children id) :
    t.Declared c ↔ t.Declared id ∧ c ∈ t.printed id := by
  constructor
  · intro declared
    cases declared with
    | root => exact absurd rfl (wired.spanning.child_ne_root member)
    | printed above printed =>
      obtain rfl := wired.spanning.owner_unique member (printed_subset_children printed)
      exact ⟨above, printed⟩
  · rintro ⟨above, printed⟩
    exact .printed above printed

open scoped Classical in
/-- Of the nodes from a node down, those in declaration position come in the order of printing. -/
private theorem filter_preorder (wired : t.Wired) {id : NodeId} (bound : id < t.size) :
    (t.preorder id).filter (t.Declared ·) = if t.Declared id then t.declarations id else [] := by
  refine wired.induction_down (motive := fun id _ =>
    (t.preorder id).filter (t.Declared ·) = if t.Declared id then t.declarations id else []) ?_ id bound
  intro id bound ih
  obtain ⟨n, found⟩ := exists_node? bound
  have children := children_eq_printed found
  have disjoint : (t.printed id ++ n.body.inline).Nodup := children ▸ wired.spanning.children_nodup id
  by_cases here : t.Declared id
  · have printed : ∀ c ∈ t.printed id, (t.preorder c).filter (t.Declared ·) = t.declarations c := by
      intro c member
      rw [ih c (printed_subset_children member), if_pos (.printed here member)]
    have inline : ∀ c ∈ n.body.inline, (t.preorder c).filter (t.Declared ·) = [] := by
      intro c member
      have child : c ∈ t.children id := children ▸ List.mem_append_right _ member
      rw [ih c child, if_neg]
      intro declared
      have also := ((wired.declared_child_iff child).mp declared).2
      exact (List.nodup_append.mp disjoint).2.2 c also c member rfl
    rw [wired.preorder_eq bound, List.filter_cons_of_pos (by simpa using here), List.filter_flatMap, children,
      List.flatMap_append, List.flatMap_congr printed, List.flatMap_eq_nil_iff.mpr inline, List.append_nil,
      if_pos here, wired.declarations_eq bound]
  · have below : ∀ c ∈ t.children id, (t.preorder c).filter (t.Declared ·) = [] := by
      intro c child
      rw [ih c child, if_neg]
      intro declared
      exact here ((wired.declared_child_iff child).mp declared).1
    rw [wired.preorder_eq bound, List.filter_cons_of_neg (by simpa using here), List.filter_flatMap,
      List.flatMap_eq_nil_iff.mpr below, if_neg here]

open scoped Classical in
/-- A walk comes by the nodes in declaration position in the order of printing. -/
theorem filter_walk (wired : t.Wired) : t.walk.filter (t.Declared ·) = t.declarations t.root := by
  rw [wired.walk_eq_preorder, wired.filter_preorder wired.spanning.root_lt, if_pos .root]

theorem declarations_sublist_walk (wired : t.Wired) : (t.declarations t.root).Sublist t.walk := by
  classical
  rw [← wired.filter_walk]
  exact List.filter_sublist

theorem mem_declarations (wired : t.Wired) {id : NodeId} : id ∈ t.declarations t.root ↔ t.Declared id := by
  classical
  rw [← wired.filter_walk, List.mem_filter, mem_walk wired.spanning, decide_eq_true_iff, and_iff_right_iff_imp]
  intro declared
  cases declared with
  | root => exact wired.spanning.root_lt
  | printed _ printed => exact wired.spanning.child_lt (printed_subset_children printed)

/-- The first parameter or generic that printing meets is the first in declaration position on a walk. -/
theorem first_stray (wired : t.Wired) {id : NodeId} (first : (t.declarations t.root).find? t.isInline = some id) :
    ∃ before after, t.walk = before ++ id :: after ∧ t.Stray id ∧ ∀ b ∈ before, ¬ t.Stray b := by
  classical
  rw [← wired.filter_walk, List.find?_filter, List.find?_eq_some_iff_append] at first
  obtain ⟨stray, before, after, walk, none⟩ := first
  refine ⟨before, after, walk, stray_iff.mpr (by simpa using stray), ?_⟩
  intro b member stray
  have clear := none b member
  simp [stray_iff.mp stray] at clear

/-- If printing meets no parameter or generic, every node that it meets has a declaration of its own. -/
theorem isPrinted_of_declared (wired : t.Wired) (none : (t.declarations t.root).find? t.isInline = none)
    {id : NodeId} (declared : t.Declared id) : ∃ n, t.node? id = some n ∧ n.kind.isPrinted = true := by
  have met := wired.mem_declarations.mpr declared
  obtain ⟨n, found⟩ := exists_node? ((mem_walk wired.spanning).mp (wired.declarations_sublist_walk.subset met))
  have proper := List.find?_eq_none.mp none id met
  exact ⟨n, found, by simpa [isInline, found] using proper⟩

theorem not_stray (wired : t.Wired) (none : (t.declarations t.root).find? t.isInline = none) (id : NodeId) :
    ¬ t.Stray id := by
  intro stray
  obtain ⟨declared, inline⟩ := stray_iff.mp stray
  obtain ⟨n, found, kind⟩ := wired.isPrinted_of_declared none declared
  simp [isInline, found, kind] at inline

end Wired

end DocLocale.Tree
