import DocLocale.Proofs.Tree.Forest
import DocLocale.Proofs.Tree.Preorder
import DocLocale.Render.Declaration

/-!
Which nodes are printed as declarations of their own. Parameters and generics stand in the line of their
owner; everything else is printed after the nodes below it. Main statement: a tree in which every node is in
its place is printed without error, and its misplaced tags are collected in this order.
-/

set_option autoImplicit false
set_option relaxedAutoImplicit false

namespace DocLocale

/-- Kinds that have a declaration of their own. -/
def Kind.isPrinted : Kind → Bool
  | .param | .typeParameter => false
  | _ => true

namespace Body

/-- The owned nodes that are printed as declarations of their own. -/
def printed : Body → List NodeId
  | namespaceDecl ids | sourceFile ids | root ids => ids
  | classDecl s _ | interface s => s.properties ++ s.methods
  | _ => []

/-- The owned nodes that stand in the line of their owner. -/
def inline : Body → List NodeId
  | classDecl s _ | interface s => s.typeParameters
  | function s | constructor s | method s _ => s.parameters ++ s.typeParameters
  | typeAlias ids _ => ids
  | _ => []

theorem children_eq (b : Body) : b.children = b.printed ++ b.inline := by
  cases b <;> simp [children, printed, inline]

theorem exists_place_of_printed {b : Body} {c : NodeId} (member : c ∈ b.printed) :
    ∃ r : Role, (c, r) ∈ b.places ∧ ∀ k ∈ r.kinds, k.isPrinted = true := by
  cases b with
  | namespaceDecl ids | sourceFile ids => exact ⟨.declaration, List.mem_map_of_mem member, by decide⟩
  | root ids => exact ⟨.file, List.mem_map_of_mem member, by decide⟩
  | classDecl s _ | interface s =>
    rcases List.mem_append.mp member with property | method
    · exact ⟨.property, by simpa [places] using property, by decide⟩
    · exact ⟨.method, by simpa [places] using method, by decide⟩
  | var | param | function | property | method | constructor | enum | typeAlias | typeParameter =>
    cases member

theorem exists_place_of_inline {b : Body} {c : NodeId} (member : c ∈ b.inline) :
    ∃ r : Role, (c, r) ∈ b.places ∧ r.isDocumented = false ∧ ∀ k ∈ r.kinds, k.isPrinted = false := by
  cases b with
  | classDecl s _ | interface s =>
    exact ⟨.generic, List.mem_append_right _ (List.mem_map_of_mem member), rfl, by decide⟩
  | function s | constructor s | method s _ =>
    rcases List.mem_append.mp member with parameter | generic
    · exact ⟨.parameter, List.mem_append_left _ (List.mem_map_of_mem parameter), rfl, by decide⟩
    · exact ⟨.generic, List.mem_append_right _ (List.mem_map_of_mem generic), rfl, by decide⟩
  | typeAlias ids _ => exact ⟨.generic, List.mem_map_of_mem member, rfl, by decide⟩
  | namespaceDecl | sourceFile | root | var | param | property | enum | typeParameter => cases member

end Body

/-- The nodes that a node prints below it. -/
def Tree.printed (t : Tree) (id : NodeId) : List NodeId :=
  match t.node? id with
  | some n => n.body.printed
  | none => []

/-- The nodes printed from a node down to `fuel` levels, each behind those below it. -/
def Tree.printedFrom (t : Tree) : Nat → NodeId → List NodeId
  | 0, _ => []
  | fuel + 1, id => (t.printed id).flatMap (t.printedFrom fuel) ++ [id]

/-- The misplaced tags of a node. -/
def Tree.misplaced (t : Tree) (languages : List String) (id : NodeId) : List Doc.Misplaced :=
  (Doc.expand t id languages).misplaced

theorem Tree.WellKinded.isPrinted_of_printed {t : Tree} (wellKinded : t.WellKinded) {id c : NodeId}
    {n : Node} (found : t.node? id = some n) (member : c ∈ n.body.printed) :
    ∃ m, t.node? c = some m ∧ m.kind.isPrinted = true := by
  obtain ⟨r, place, kinds⟩ := Body.exists_place_of_printed member
  obtain ⟨m, present, admitted⟩ := wellKinded.places id n found c r place
  exact ⟨m, present, kinds m.kind admitted.1⟩

namespace Render

variable {generate : NodeId → Generated Code}

private theorem generateAll_ok {ids : List NodeId}
    (all : ∀ id ∈ ids, ∃ code, (generate id).1 = .ok code) :
    ∃ codes, generateAll generate ids = (.ok codes, ids.flatMap fun id => (generate id).2) := by
  induction ids with
  | nil => exact ⟨[], rfl⟩
  | cons id ids ih =>
    obtain ⟨code, first⟩ := all id List.mem_cons_self
    obtain ⟨codes, rest⟩ := ih fun other member => all other (List.mem_cons_of_mem _ member)
    refine ⟨code :: codes, ?_⟩
    rw [generateAll, show generate id = (.ok code, (generate id).2) from Prod.ext first rfl, rest]
    rfl

/-- A node of a printed kind has code as soon as the nodes printed below it have. -/
private theorem bareCode_ok (t : Tree) {n : Node} (kind : n.kind.isPrinted = true)
    (all : ∀ id ∈ n.body.printed, ∃ code, (generate id).1 = .ok code) :
    ∃ code, bareCode t generate n = (.ok code, n.body.printed.flatMap fun id => (generate id).2) := by
  obtain ⟨name, flags, body, parent⟩ := n
  obtain ⟨codes, below⟩ := generateAll_ok all
  cases body with
  | param | typeParameter => cases kind
  | namespaceDecl ids | sourceFile ids | root ids =>
    simp only [Body.printed] at below
    simp only [bareCode, Body.printed, below]
    exact ⟨_, rfl⟩
  | classDecl shape _ | interface shape =>
    simp only [Body.printed] at below
    simp only [bareCode, shapeBlock, Body.printed, below]
    exact ⟨_, rfl⟩
  | var | function | property | method | constructor | enum | typeAlias => exact ⟨_, rfl⟩

/-- Code is generated for every printed node of a tree in which all nodes are in their places. -/
private theorem generateFrom_ok {src : Source} (wired : src.tree.Wired)
    (wellKinded : src.tree.WellKinded) (fuel : Nat) {id : NodeId} {n : Node}
    (found : src.tree.node? id = some n) (kind : n.kind.isPrinted = true)
    (enough : src.tree.size < fuel + (src.tree.lineage id).length) :
    ∃ code, generateFrom src fuel id =
      (.ok code, (src.tree.printedFrom fuel id).flatMap (src.tree.misplaced src.languages)) := by
  induction fuel generalizing id n with
  | zero =>
    have := wired.length_lineage_le (Tree.lt_size_of_node? found)
    omega
  | succ fuel ih =>
    have each : ∀ c ∈ n.body.printed, ∃ code, generateFrom src fuel c =
        (.ok code, (src.tree.printedFrom fuel c).flatMap (src.tree.misplaced src.languages)) := by
      intro c member
      obtain ⟨m, present, printed⟩ := wellKinded.isPrinted_of_printed found member
      have child : c ∈ src.tree.children id := by
        simp only [Tree.children, found, Body.children_eq]
        exact List.mem_append_left _ member
      apply ih present printed
      rw [wired.lineage_child child, List.length_cons]
      omega
    have coded : ∀ c ∈ n.body.printed, ∃ code, (generateFrom src fuel c).1 = .ok code := by
      intro c member
      obtain ⟨code, generated⟩ := each c member
      exact ⟨code, by rw [generated]⟩
    obtain ⟨code, bare⟩ := bareCode_ok src.tree kind coded
    have below : (n.body.printed.flatMap fun c => (generateFrom src fuel c).2) =
        (n.body.printed.flatMap (src.tree.printedFrom fuel)).flatMap
          (src.tree.misplaced src.languages) := by
      rw [List.flatMap_assoc]
      apply List.flatMap_congr
      intro c member
      obtain ⟨code, generated⟩ := each c member
      rw [generated]
    refine ⟨code.withComment (commentOf src id).1, ?_⟩
    simp only [generateFrom, found, bare, below, Tree.printedFrom, Tree.printed, List.flatMap_append,
      List.flatMap_singleton]
    rfl

/-- A tree in which every node is in its place is printed, and its misplaced tags come in the order of
printing. -/
theorem renderText_ok {src : Source} (wired : src.tree.Wired) (wellKinded : src.tree.WellKinded)
    (style : Style) :
    ∃ text, renderText src style = (.ok text,
      (src.tree.printedFrom (src.tree.size + 1) src.tree.root).flatMap
        (src.tree.misplaced src.languages)) := by
  obtain ⟨n, found, kind, -⟩ := wellKinded.top
  have printed : n.kind.isPrinted = true := by
    rw [List.mem_singleton.mp kind]
    rfl
  obtain ⟨code, generated⟩ := generateFrom_ok wired wellKinded (src.tree.size + 1) found printed
    (by omega)
  refine ⟨code.render style 0, ?_⟩
  rw [renderText, generate, generated]
  rfl

end Render

end DocLocale
