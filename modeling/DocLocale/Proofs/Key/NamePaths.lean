import DocLocale.Proofs.Doc.RecordKey
import DocLocale.Proofs.Key.Descent
import DocLocale.Proofs.Key.Segments
import Mathlib.Data.List.Forall2

/-!
Keys within one file. The key of a node is found by climbing recorded parents, which ends at the root; below a
file it is the key of the file followed by the segments of the names on the way down. Main statement: two nodes
below one file share a key exactly if their names on the way down are alike one by one, the case of first letters
apart.
-/

set_option autoImplicit false
set_option relaxedAutoImplicit false

namespace DocLocale.Key

variable {t : Tree}

/-- Recorded parents lead from a node along the listed nodes to one that has none. -/
inductive Climb (t : Tree) : NodeId → List NodeId → Prop
  | top {id : NodeId} : t.parent? id = none → Climb t id [id]
  | step {id p : NodeId} {path : List NodeId} :
    t.parent? id = some p → Climb t p path → Climb t id (id :: path)

/-- Climbing from a node passes its lineage and arrives at the root. -/
theorem climb_lineage (wired : t.Wired) {id : NodeId} (bound : id < t.size) :
    Climb t id (t.lineage id) ∧ (t.lineage id).getLast? = some t.root := by
  have reached := wired.spanning.connected id bound
  induction reached with
  | root =>
    rw [wired.lineage_root]
    exact ⟨.top wired.parent?_root, rfl⟩
  | @child p c _ member ih =>
    obtain ⟨climb, last⟩ := ih (Tree.lt_size_of_mem_children member)
    rw [wired.lineage_child member]
    refine ⟨.step ((wired.owners c p).mpr member) climb, ?_⟩
    rw [List.getLast?_cons, last]
    rfl

/-- The names on the way down from a node to one strictly below it, listed from the end of the way. -/
inductive NamesBelow (t : Tree) (top : NodeId) : NodeId → List String → Prop
  | child {c : NodeId} : c ∈ t.children top → NamesBelow t top c [t.name c]
  | deeper {p c : NodeId} {names : List String} :
    NamesBelow t top p names → c ∈ t.children p → NamesBelow t top c (t.name c :: names)

/-- Names whose segments can be told apart in a key: they have neither hyphens nor dots. -/
def Separable (name : String) : Prop := '-' ∉ name.toList ∧ '.' ∉ name.toList

theorem Separable.notMem_dot_segment {name : String} (separable : Separable name) :
    '.' ∉ (segment name).toList := fun member =>
  separable.2 (mem_of_mem_segment member (by decide) (by decide))

/-- Two nodes below the children of the root share a key exactly if their owners do and their names are alike. -/
theorem ofNode_eq_iff_of_separable (wired : t.Wired) {p q a b : NodeId} (left : a ∈ t.children p)
    (right : b ∈ t.children q) (proper : p ≠ t.root) (proper' : q ≠ t.root)
    (separable : Separable (t.name a)) (separable' : Separable (t.name b)) :
    ofNode t a = ofNode t b ↔ ofNode t p = ofNode t q ∧ lowered (t.name a) = lowered (t.name b) := by
  rw [ofNode_child wired left proper, ofNode_child wired right proper',
    ← segment_eq_iff separable.1 separable'.1]
  constructor
  · exact append_dot_inj separable.notMem_dot_segment separable'.notMem_dot_segment
  · rintro ⟨owners, segments⟩
    rw [owners, segments]

namespace NamesBelow

variable {top : NodeId}

theorem ne_root (wired : t.Wired) {id : NodeId} {names : List String} (below : NamesBelow t top id names) :
    id ≠ t.root := by
  cases below with
  | child member => exact wired.spanning.child_ne_root member
  | deeper _ member => exact wired.spanning.child_ne_root member

theorem ne_nil {id : NodeId} {names : List String} (below : NamesBelow t top id names) : names ≠ [] := by
  cases below <;> exact List.cons_ne_nil _ _

section Keys

variable (wired : t.Wired) (proper : top ≠ t.root)

include wired proper

theorem exists_owner {id : NodeId} {names : List String} (below : NamesBelow t top id names) :
    ∃ p, id ∈ t.children p ∧ p ≠ t.root := by
  cases below with
  | child member => exact ⟨top, member, proper⟩
  | deeper above member => exact ⟨_, member, above.ne_root wired⟩

theorem ofNode_top_ne {id : NodeId} {names : List String} (below : NamesBelow t top id names) :
    ofNode t top ≠ ofNode t id := by
  have longer : (ofNode t top).length < (ofNode t id).length := by
    induction below with
    | child member => exact length_ofNode_child wired member proper
    | deeper above member ih =>
      exact Nat.lt_trans ih (length_ofNode_child wired member (above.ne_root wired))
  exact fun same => Nat.ne_of_lt longer (congrArg String.length same)

/-- Keys below one node agree exactly if the names on the way down are alike one by one. -/
theorem ofNode_eq_iff_alike {a b : NodeId} {as bs : List String} (left : NamesBelow t top a as)
    (right : NamesBelow t top b bs) (separable : ∀ name ∈ as, Separable name)
    (separable' : ∀ name ∈ bs, Separable name) :
    ofNode t a = ofNode t b ↔ List.Forall₂ (fun m n => lowered m = lowered n) as bs := by
  -- One step up on both sides; a way that ends sooner than the other ends at a shorter key.
  induction left generalizing b bs with
  | child member =>
    have last := separable _ List.mem_cons_self
    cases right with
    | child member' =>
      have last' := separable' _ List.mem_cons_self
      rw [ofNode_eq_iff_of_separable wired member member' proper proper last last']
      simp
    | deeper above' member' =>
      have last' := separable' _ List.mem_cons_self
      rw [ofNode_eq_iff_of_separable wired member member' proper (above'.ne_root wired) last last']
      simp [above'.ofNode_top_ne wired proper, above'.ne_nil]
  | deeper above member ih =>
    have last := separable _ List.mem_cons_self
    cases right with
    | child member' =>
      have last' := separable' _ List.mem_cons_self
      rw [ofNode_eq_iff_of_separable wired member member' (above.ne_root wired) proper last last']
      simp [(above.ofNode_top_ne wired proper).symm, above.ne_nil]
    | deeper above' member' =>
      have last' := separable' _ List.mem_cons_self
      have owners := ih above' (fun name inside => separable name (List.mem_cons_of_mem _ inside))
        (fun name inside => separable' name (List.mem_cons_of_mem _ inside))
      rw [ofNode_eq_iff_of_separable wired member member' (above.ne_root wired) (above'.ne_root wired)
        last last', owners, List.forall₂_cons, and_comm]

end Keys

end NamesBelow

/-- Below a file of a finished tree, the key of a node is reached by climbing recorded parents to the root, goes
on from the key of the parent by a dot and the segment of the node, and is shared with exactly the nodes
whose names on the way down from the file are alike one by one, the case of first letters apart. -/
theorem ofNode_shared_iff_names_alike {nodes : Array Node} {root : NodeId} {t : Tree}
    (finished : Tree.finish nodes root = .ok t) {file : NodeId} (top : file ∈ t.children t.root)
    {a b : NodeId} {as bs : List String} (left : NamesBelow t file a as) (right : NamesBelow t file b bs)
    (separable : ∀ name ∈ as, Separable name) (separable' : ∀ name ∈ bs, Separable name) :
    (∃ path, Climb t a path ∧ path.getLast? = some t.root ∧ path.length ≤ t.size ∧
        ofNode t a = ".".intercalate (path.dropLast.reverse.map fun i => segment (t.name i))) ∧
      (∃ p, t.parent? a = some p ∧ ofNode t a = ofNode t p ++ "." ++ segment (t.name a)) ∧
      (ofNode t a = ofNode t b ↔ List.Forall₂ (fun m n => lowered m = lowered n) as bs) := by
  have wired := Tree.wired_of_finish finished
  have proper := wired.spanning.child_ne_root top
  obtain ⟨p, member, inner⟩ := left.exists_owner wired proper
  have bound := wired.spanning.child_lt member
  obtain ⟨climb, last⟩ := climb_lineage wired bound
  refine ⟨⟨t.lineage a, climb, last, wired.length_lineage_le bound, ofNode_eq t a⟩, ⟨p, ?_, ?_⟩, ?_⟩
  · exact (wired.owners a p).mpr member
  · exact ofNode_child wired member inner
  · exact left.ofNode_eq_iff_alike wired proper right separable separable'

/-- A file with a class and two namespaces whose names differ in capitals, each with one member. -/
private def views : Tree :=
  ⟨#[⟨"Show", none, .method {} [], some 1⟩, ⟨"HTMLView", none, .classDecl ⟨[], [0], [], []⟩ [], some 6⟩,
    ⟨"show", none, .var (.basic .any) true, some 3⟩, ⟨"hTMLView", none, .namespaceDecl [2], some 6⟩,
    ⟨"show", none, .var (.basic .any) true, some 5⟩, ⟨"htmlView", none, .namespaceDecl [4], some 6⟩,
    ⟨"lib.d", none, .sourceFile [1, 3, 5], some 7⟩, ⟨"", none, .root [6], none⟩], 7⟩

theorem ofNode_shared_iff_names_alike_views :
    Tree.finish views.nodes 7 = .ok views ∧ 6 ∈ views.children views.root ∧
      NamesBelow views 6 0 ["Show", "HTMLView"] ∧ NamesBelow views 6 2 ["show", "hTMLView"] ∧
      NamesBelow views 6 4 ["show", "htmlView"] ∧
      (∀ names ∈ [["Show", "HTMLView"], ["show", "hTMLView"], ["show", "htmlView"]],
        ∀ name ∈ names, Separable name) ∧
      ofNode views 0 = ofNode views 2 ∧ ofNode views 0 ≠ ofNode views 4 := by
  have finished : Tree.finish views.nodes 7 = .ok views := rfl
  have top : 6 ∈ views.children views.root := by decide
  have method : NamesBelow views 6 0 ["Show", "HTMLView"] :=
    .deeper (p := 1) (.child (by decide)) (by decide)
  have alike : NamesBelow views 6 2 ["show", "hTMLView"] :=
    .deeper (p := 3) (.child (by decide)) (by decide)
  have other : NamesBelow views 6 4 ["show", "htmlView"] :=
    .deeper (p := 5) (.child (by decide)) (by decide)
  have separable : ∀ names ∈ [["Show", "HTMLView"], ["show", "hTMLView"], ["show", "htmlView"]],
      ∀ name ∈ names, Separable name := by
    unfold Separable
    decide
  have shared := (ofNode_shared_iff_names_alike finished top method alike
    (separable _ (by decide)) (separable _ (by decide))).2.2
  have apart := (ofNode_shared_iff_names_alike finished top method other
    (separable _ (by decide)) (separable _ (by decide))).2.2
  refine ⟨finished, top, method, alike, other, separable, shared.mpr ?_, fun same => ?_⟩
  · decide
  · exact absurd (apart.mp same) (by decide)

end DocLocale.Key
