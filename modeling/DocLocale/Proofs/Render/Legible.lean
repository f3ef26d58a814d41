import DocLocale.Proofs.Render.DeclarationChars
import DocLocale.Proofs.Source.Files

/-!
Declarations whose printed parts are read where they stand, and what is read from them. Main statements: a row with a
legible member, and a row with a legible declaration of one line, is read as what its node shows.
-/

set_option autoImplicit false
set_option relaxedAutoImplicit false

namespace DocLocale

open Source (File IsNewline GapReads RowReads GivesRows DocComment Item Member tagsOf flagsAt parameterNames memberViews IsWordName
  isBindable isReference Knot)
open Source.Grammar
open Text (byteLength IsBlankText)

/-- The parameters of a node are in the tree. -/
theorem Tree.WellKinded.known_parameters {t : Tree} (wellKinded : t.WellKinded) {id : NodeId} {n : Node}
    (found : t.node? id = some n) {s : Signature} (signed : n.body.signature? = some s) : ∀ p ∈ s.parameters, (t.node? p).isSome := by
  intro p member
  have place : (p, Role.parameter) ∈ n.body.places := by
    obtain ⟨name, flags, body, parent⟩ := n
    cases body <;> try cases signed
    all_goals exact List.mem_append_left _ (List.mem_map_of_mem member)
  obtain ⟨m, present, -⟩ := wellKinded.places id n found p .parameter place
  rw [present]
  rfl

namespace Render

/-! ### Legible nodes -/

/-- A statement about levels of the grammar holds wherever the grammar goes as deep as for a file with a given text. -/
def Deep (text : List Char) (reads : Knot → Prop) : Prop :=
  ∀ depth, File.depth (byteLength text) ≤ depth → reads (knot depth)

theorem Deep.within {text whole : List Char} {reads : Knot → Prop} (deep : Deep text reads) {depth : Nat}
    (inside : byteLength text ≤ byteLength whole) (enough : File.depth (byteLength whole) ≤ depth) :
    reads (knot depth) := by
  refine deep depth ?_
  unfold File.depth at *
  omega

/-- The generics of a node and the types that it extends and implements, as text. -/
def genericsOf (t : Tree) (s : Shape) : List GenericText := s.typeParameters.map (genericOf t)

/-- References as text. -/
def referencesOf (rs : List Reference) : List (List Char) := rs.map fun r => (typeText r.toType).toList

/-- Every part of what is printed for a node is read where it stands: names as names, and types up to what follows
them. -/
def Legible (t : Tree) (n : Node) : Prop :=
  match n.body with
  | .var type isConst =>
    IsValueName n.name ∧ (varKeyword isConst).Allows n.name ∧
      Deep (typeText type).toList fun k => CrossesType k (typeText type).toList
  | .function s => IsWordName n.name ∧ isBindable n.name = true ∧ Deep (signatureOf t s).chars fun k => (signatureOf t s).Reads k
  | .typeAlias ids type =>
    IsWordName n.name ∧ isReference n.name = true ∧
      Deep (aliasChars n.name (ids.map (genericOf t)) (typeText type).toList) fun k =>
        (∀ g ∈ ids.map (genericOf t), g.Reads k) ∧ CrossesType k (typeText type).toList
  | .interface s =>
    IsWordName n.name ∧ isReference n.name = true ∧
      (Deep (interfaceHead n.name (genericsOf t s) (referencesOf s.bases)) fun k =>
        (∀ g ∈ genericsOf t s, g.Reads k) ∧ ∀ r ∈ referencesOf s.bases, CrossesHeritage k r) ∧
      ∀ id ∈ s.properties ++ s.methods, ∀ m, t.node? id = some m → (memberOf t m).isStatic = false ∧
        Deep (memberOf t m).chars fun k => (memberOf t m).form.ReadsInInterface k (memberOf t m).isReadonly
  | .classDecl s interfaces =>
    IsWordName n.name ∧ isBindable n.name = true ∧ n.name ≠ "let" ∧ s.bases.length ≤ 1 ∧
      (Deep (classHead n.name (genericsOf t s) (referencesOf s.bases) (referencesOf interfaces)) fun k =>
        (∀ g ∈ genericsOf t s, g.Reads k) ∧ (∀ b ∈ referencesOf s.bases, CrossesBase k b) ∧
          ∀ r ∈ referencesOf interfaces, CrossesHeritage k r) ∧
      ∀ id ∈ s.properties ++ s.methods, ∀ m, t.node? id = some m →
        Deep (memberOf t m).chars fun k => (memberOf t m).form.ReadsInClass k (memberOf t m).isReadonly
  | .enum members =>
    IsWordName n.name ∧ isReference n.name = true ∧ ∀ m ∈ members, m.name ≠ "" ∧ m.value ≠ "" ∧
      Deep (enumMemberChars m) fun k => CrossesEnumMember k m
  | .namespaceDecl _ => IsWordName n.name ∧ isReference n.name = true ∧ n.name ∉ operatorWords
  | .sourceFile _ => ∀ c ∈ n.name.toList, Source.isLineEnd c = false
  | _ => True

/-! ### Shown nodes -/

/-- What is read is what a node shows. -/
def ShowsItem (u : Tree) (id : NodeId) (comment? : Nat → Option DocComment) (item : Item) : Prop :=
  ∃ v, item.views comment? = [v] ∧ v.Shows u id

/-- A member of a class or interface is what a node shows, and is kept among the properties if the node is one. -/
def ShowsMember (u : Tree) (id : NodeId) (comment? : Nat → Option DocComment) (m : Member) : Prop :=
  ∃ n v, u.node? id = some n ∧ v.Shows u id ∧ m.properties comment? = (if n.kind = .property then [v] else []) ∧
    m.methods comment? = if n.kind = .property then [] else [v]

theorem shows_itemViews {u : Tree} {ids : List NodeId} {comment? : Nat → Option DocComment} {items : List Item}
    (given : GivesRows (ShowsItem u) ids comment? items) :
    List.Forall₂ (View.Shows u) (Source.itemViews comment? items) ids := by
  induction given with
  | nil =>
    rw [Source.itemViews]
    exact .nil
  | cons first rest ih =>
    obtain ⟨v, views, shown⟩ := first
    rw [Source.itemViews, views]
    exact .cons shown ih

section
variable {u : Tree} {comment? : Nat → Option DocComment} {ms : List Member} {ids : List NodeId}

private theorem shows_properties (given : GivesRows (ShowsMember u) ids comment? ms)
    (kinds : ∀ id ∈ ids, ∀ n, u.node? id = some n → n.kind = .property) :
    List.Forall₂ (View.Shows u) (ms.flatMap (Source.Member.properties comment?)) ids ∧
      ms.flatMap (Source.Member.methods comment?) = [] := by
  induction given with
  | nil => exact ⟨.nil, rfl⟩
  | cons first rest ih =>
    obtain ⟨n, v, found, shown, properties, methods⟩ := first
    obtain ⟨later, none⟩ := ih fun id member => kinds id (List.mem_cons_of_mem _ member)
    have kind := kinds _ List.mem_cons_self n found
    rw [if_pos kind] at properties methods
    rw [List.flatMap_cons, List.flatMap_cons, properties, methods, none]
    exact ⟨.cons shown later, rfl⟩

private theorem shows_methods (given : GivesRows (ShowsMember u) ids comment? ms)
    (kinds : ∀ id ∈ ids, ∀ n, u.node? id = some n → n.kind ≠ .property) :
    ms.flatMap (Source.Member.properties comment?) = [] ∧
      List.Forall₂ (View.Shows u) (ms.flatMap (Source.Member.methods comment?)) ids := by
  induction given with
  | nil => exact ⟨rfl, .nil⟩
  | cons first rest ih =>
    obtain ⟨n, v, found, shown, properties, methods⟩ := first
    obtain ⟨none, later⟩ := ih fun id member => kinds id (List.mem_cons_of_mem _ member)
    have kind := kinds _ List.mem_cons_self n found
    rw [if_neg kind] at properties methods
    rw [List.flatMap_cons, List.flatMap_cons, properties, methods, none]
    exact ⟨rfl, .cons shown later⟩

end

/-- Members that are read with the properties first are kept in the order of their nodes. -/
theorem shows_memberViews {u : Tree} {s : Shape} {comment? : Nat → Option DocComment} {ms : List Member}
    (given : GivesRows (ShowsMember u) (s.properties ++ s.methods) comment? ms)
    (properties : ∀ id ∈ s.properties, ∀ n, u.node? id = some n → n.kind = .property)
    (methods : ∀ id ∈ s.methods, ∀ n, u.node? id = some n → n.kind ≠ .property) :
    List.Forall₂ (View.Shows u) (memberViews comment? ms) (s.properties ++ s.methods) := by
  obtain ⟨ps, rest, first, second, rfl⟩ : ∃ ps rest, GivesRows (ShowsMember u) s.properties comment? ps ∧
      GivesRows (ShowsMember u) s.methods comment? rest ∧ ms = ps ++ rest := by
    refine ⟨ms.take s.properties.length, ms.drop s.properties.length, ?_, ?_, (List.take_append_drop _ _).symm⟩
    · simpa [GivesRows] using List.forall₂_take s.properties.length given
    · simpa [GivesRows] using List.forall₂_drop s.properties.length given
  obtain ⟨shown, none⟩ := shows_properties first properties
  obtain ⟨none', shown'⟩ := shows_methods second methods
  rw [memberViews, List.flatMap_append, List.flatMap_append, none, none', List.append_nil, List.nil_append]
  exact List.rel_append shown shown'

variable {t : Tree} {id : NodeId} {n : Node} {f : Doc.Flags}

/-- A node is shown with the documentation that its comment shows. -/
theorem shows_reread (found : t.node? id = some n) (flagged : n.flags = some f) {parameters : List String} {below : List View}
    (named : t.reread.Names parameters n.body.parameters)
    (shown : List.Forall₂ (View.Shows t.reread) below n.body.printed) :
    (View.mk n.name n.kind (some (f.reread n.kind)) parameters below).Shows t.reread id := by
  have reread : t.reread.node? id = some { n with flags := some (f.reread n.kind) } := by
    rw [Tree.node?_reread, found, Option.map_some, flagged, Option.map_some]
  exact .intro reread rfl rfl rfl named shown

/-- Parameters that are read from their texts have the names of their nodes. -/
theorem names_reread {ids : List NodeId} (known : ∀ id ∈ ids, (t.node? id).isSome) {ps : List Source.Parameter}
    (given : List.Forall₂ ParameterText.Given ps (ids.map (parameterOf t))) (index : Nat) :
    t.reread.Names (parameterNames index ps) ids := by
  induction ids generalizing ps index with
  | nil =>
    cases given
    exact .nil
  | cons id ids ih =>
    obtain _ | @⟨p, _, ps, _, first, rest⟩ := given
    obtain ⟨n, found⟩ := Option.isSome_iff_exists.mp (known id List.mem_cons_self)
    have name : (parameterOf t id).name = n.name := by
      obtain ⟨name, flags, body, parent⟩ := n
      rw [parameterOf, found]
      cases body <;> rfl
    refine .cons ⟨{ n with flags := n.flags.map (Doc.Flags.reread n.kind) }, ?_, ?_⟩
      (ih (fun id member => known id (List.mem_cons_of_mem _ member)) rest (index + 1))
    · rw [Tree.node?_reread, found, Option.map_some]
    · rw [Source.Parameter.nameAt, first.1, Option.getD_some, name]

end Render

end DocLocale
