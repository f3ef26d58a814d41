import DocLocale.Proofs.Doc.Expansion
import DocLocale.Proofs.Key.Descent
import DocLocale.Proofs.Key.Generated
import DocLocale.Proofs.Render.Printing

/-!
Two orders of misplaced tags. A walk meets those of an owner before those of the nodes below it, printing
meets them after. Main statement: under one key both orders give the same list, since a documented node and
a node below it never have the same key.
-/

set_option autoImplicit false
set_option relaxedAutoImplicit false

namespace DocLocale

namespace Doc

theorem Occurrence.key_of_error {t : Tree} {languages : List String} {o : Occurrence} {m : Misplaced}
    (wrong : o.records t languages = .error m) : m.key = o.key := by
  unfold Occurrence.records at wrong
  split at wrong
  case h_4 =>
    split at wrong
    · cases wrong
      rfl
    · cases wrong
  case h_5 =>
    split at wrong
    · cases wrong
    · cases wrong
      rfl
  all_goals cases wrong

theorem mem_misplaced_collect {results : List (Except Misplaced (List Record))} {m : Misplaced} :
    m ∈ (collect results).misplaced ↔ .error m ∈ results := by
  induction results with
  | nil => simp [collect]
  | cons result results ih =>
    cases result with
    | ok rs => simp [collect, ih]
    | error wrong => simp [collect, ih]

end Doc

theorem Body.children_of_not_printed {b : Body} (plain : b.kind.isPrinted = false) : b.children = [] := by
  cases b with
  | param | typeParameter => rfl
  | namespaceDecl | sourceFile | root | classDecl | interface | var | function | property | method
  | constructor | enum | typeAlias => cases plain

namespace Tree

variable {t : Tree} {languages : List String}

/-- A misplaced tag belongs to a documented node and carries its key. -/
theorem mem_misplaced {id : NodeId} {m : Doc.Misplaced} (member : m ∈ t.misplaced languages id) :
    m.key = Key.ofNode t id ∧ ∃ n, t.node? id = some n ∧ n.flags.isSome = true := by
  unfold misplaced Doc.expand at member
  split at member
  · cases member
  · rename_i n found
    split at member
    · cases member
    · rename_i flags flagged
      obtain ⟨o, present, wrong⟩ := List.mem_map.mp (Doc.mem_misplaced_collect.mp member)
      refine ⟨?_, n, found, by rw [flagged]; rfl⟩
      rw [Doc.Occurrence.key_of_error wrong, (Doc.among_of_mem_occurrences present).key]

theorem misplaced_of_undocumented {id : NodeId} {n : Node} (found : t.node? id = some n)
    (undocumented : n.flags.isSome = false) : t.misplaced languages id = [] := by
  refine List.eq_nil_iff_forall_not_mem.mpr fun m member => ?_
  obtain ⟨-, n', found', documented⟩ := mem_misplaced member
  obtain rfl := Option.some.inj (found.symm.trans found')
  rw [undocumented] at documented
  cases documented

/-- The misplaced tags of a node under a key: all of them, or none. -/
def misplacedUnder (t : Tree) (languages : List String) (key : String) (id : NodeId) :
    List Doc.Misplaced :=
  (t.misplaced languages id).filter (·.key = key)

/-- Only the nodes of a key have misplaced tags under it, and the root has none. -/
private theorem WellKinded.misplacedUnder_ne_nil (wellKinded : t.WellKinded) {key : String} {id : NodeId}
    (some : t.misplacedUnder languages key id ≠ []) : Key.ofNode t id = key ∧ id ≠ t.root := by
  obtain ⟨m, member⟩ := List.exists_mem_of_ne_nil _ some
  obtain ⟨inside, same⟩ := List.mem_filter.mp member
  obtain ⟨here, n, found, documented⟩ := mem_misplaced inside
  refine ⟨here.symm.trans (of_decide_eq_true same), ?_⟩
  rintro rfl
  obtain ⟨top, present, -, undocumented⟩ := wellKinded.top
  obtain rfl := Option.some.inj (found.symm.trans present)
  rw [documented] at undocumented
  cases undocumented

/-- A node in the line of its owner has no misplaced tags, and nothing is below it. -/
private theorem WellKinded.misplacedUnder_inline (wellKinded : t.WellKinded) (wired : t.Wired)
    {id c : NodeId} {n : Node} (found : t.node? id = some n) (member : c ∈ n.body.inline) (key : String) :
    (t.preorder c).flatMap (t.misplacedUnder languages key) = [] := by
  obtain ⟨r, place, undocumented, kinds⟩ := Body.exists_place_of_inline member
  obtain ⟨m, present, kind, flags⟩ := wellKinded.places id n found c r place
  have childless : t.children c = [] := by
    simp only [children, present, Body.children_of_not_printed (kinds m.kind kind)]
  have bare : t.misplaced languages c = [] :=
    misplaced_of_undocumented present (flags.trans undocumented)
  rw [wired.preorder_eq (lt_size_of_node? present), childless]
  simp [misplacedUnder, bare]

/-- Nodes below a node with misplaced tags have none under its key. -/
private theorem WellKinded.misplacedUnder_below (wellKinded : t.WellKinded) (wired : t.Wired)
    {key : String} {id c : NodeId} (some : t.misplacedUnder languages key id ≠ [])
    (child : c ∈ t.children id) : (t.preorder c).flatMap (t.misplacedUnder languages key) = [] := by
  obtain ⟨same, proper⟩ := wellKinded.misplacedUnder_ne_nil some
  refine List.flatMap_eq_nil_iff.mpr fun below member => ?_
  by_contra also
  obtain ⟨equal, -⟩ := wellKinded.misplacedUnder_ne_nil also
  have longer := Key.length_ofNode_child wired child proper
  have further := Key.length_ofNode_preorder wired (wired.spanning.child_lt child)
    (wired.spanning.child_ne_root child) member
  rw [equal, ← same] at further
  omega

/-- Printing and walking from a node meet the same misplaced tags under a key, in the same order. -/
private theorem WellKinded.misplacedUnder_printedFrom (wellKinded : t.WellKinded) (wired : t.Wired)
    (key : String) (fuel : Nat) {id : NodeId} (bound : id < t.size)
    (enough : t.size < fuel + (t.lineage id).length) :
    (t.printedFrom fuel id).flatMap (t.misplacedUnder languages key) =
      (t.preorder id).flatMap (t.misplacedUnder languages key) := by
  induction fuel generalizing id with
  | zero =>
    have := wired.length_lineage_le bound
    omega
  | succ fuel ih =>
    obtain ⟨n, found⟩ := exists_node? bound
    have children : t.children id = n.body.printed ++ n.body.inline := by
      simp only [Tree.children, found, Body.children_eq]
    have child : ∀ c ∈ n.body.printed, c ∈ t.children id := fun c member =>
      children ▸ List.mem_append_left _ member
    have printed : (n.body.printed.flatMap (t.printedFrom fuel)).flatMap
        (t.misplacedUnder languages key) =
        (n.body.printed.flatMap t.preorder).flatMap (t.misplacedUnder languages key) := by
      rw [List.flatMap_assoc, List.flatMap_assoc]
      apply List.flatMap_congr
      intro c member
      refine ih (wired.spanning.child_lt (child c member)) ?_
      rw [wired.lineage_child (child c member), List.length_cons]
      omega
    have inline : (n.body.inline.flatMap t.preorder).flatMap (t.misplacedUnder languages key) = [] := by
      rw [List.flatMap_assoc]
      exact List.flatMap_eq_nil_iff.mpr fun c member =>
        wellKinded.misplacedUnder_inline wired found member key
    simp only [printedFrom, wired.preorder_eq bound, children, Tree.printed, found, List.flatMap_append,
      List.flatMap_cons, List.flatMap_nil, List.append_nil, printed, inline]
    -- What is left is the node behind its printed nodes or before them; one of the two has no tags.
    by_cases here : t.misplacedUnder languages key id = []
    · simp [here]
    · have below : (n.body.printed.flatMap t.preorder).flatMap (t.misplacedUnder languages key) = [] := by
        rw [List.flatMap_assoc]
        exact List.flatMap_eq_nil_iff.mpr fun c member =>
          wellKinded.misplacedUnder_below wired here (child c member)
      simp [below]

/-- Under every key the misplaced tags are the same in the order of printing and in that of a walk. -/
theorem WellKinded.filter_misplaced (wellKinded : t.WellKinded) (wired : t.Wired) (key : String) :
    ((t.printedFrom (t.size + 1) t.root).flatMap (t.misplaced languages)).filter (·.key = key) =
      (t.keyMap languages).misplaced.filter (·.key = key) := by
  rw [misplaced_keyMap, wired.walk_eq_preorder, List.filter_flatMap, List.filter_flatMap]
  exact wellKinded.misplacedUnder_printedFrom wired key _ wired.spanning.root_lt (by omega)

end Tree

end DocLocale
