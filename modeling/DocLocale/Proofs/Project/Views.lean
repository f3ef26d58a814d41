import DocLocale.Proofs.Project.Assembling
import DocLocale.Proofs.Render.Printing
import DocLocale.Proofs.Source.Gaps
import DocLocale.Proofs.Source.TagLine

/-!
What the keys of a file depend on. A view keeps the names, kinds, flags and parameters of declarations and leaves out
their types. Main statement: outlining the items of a file gives nodes that show the views of the items.
-/

set_option autoImplicit false
set_option relaxedAutoImplicit false

namespace DocLocale

/-- What the keys of a declaration and of those below it depend on. -/
inductive View
  | mk (name : String) (kind : Kind) (flags : Option Doc.Flags) (parameters : List String) (below : List View)

/-- The parameters of a body. -/
def Body.parameters (b : Body) : List NodeId :=
  match b.signature? with
  | some s => s.parameters
  | none => []

/-- Parameters with given names. -/
def Tree.Names (t : Tree) (names : List String) (ids : List NodeId) : Prop :=
  List.Forall₂ (fun name id => ∃ n, t.node? id = some n ∧ n.name = name) names ids

/-- A node is what a view says, and so are those printed below it. -/
inductive View.Shows (t : Tree) : View → NodeId → Prop
  | intro {name : String} {kind : Kind} {flags : Option Doc.Flags} {parameters : List String} {below : List View}
    {id : NodeId} {n : Node} (found : t.node? id = some n) (named : n.name = name) (kinded : n.kind = kind)
    (flagged : n.flags = flags) (parameters_ : t.Names parameters n.body.parameters)
    (below_ : List.Forall₂ (Shows t) below n.body.printed) : Shows t (.mk name kind flags parameters below) id

/-- A tree holds the nodes of another one, with owners filled in. -/
def Tree.Extends (u t : Tree) : Prop :=
  ∀ id n, t.node? id = some n → ∃ parent, u.node? id = some { n with parent := parent }

variable {t u : Tree}

theorem Tree.Names.mono (extended : u.Extends t) {names : List String} {ids : List NodeId} (named : t.Names names ids) :
    u.Names names ids := by
  refine List.Forall₂.imp ?_ named
  rintro name id ⟨n, found, rfl⟩
  obtain ⟨parent, present⟩ := extended id n found
  exact ⟨_, present, rfl⟩

mutual

theorem View.Shows.mono (extended : u.Extends t) : ∀ {v : View} {id : NodeId}, v.Shows t id → v.Shows u id
  | _, _, .intro found named kinded flagged parameters below => by
    obtain ⟨parent, present⟩ := extended _ _ found
    exact .intro present named kinded flagged (parameters.mono extended) (shows_mono extended below)

theorem shows_mono (extended : u.Extends t) : ∀ {vs : List View} {ids : List NodeId},
    List.Forall₂ (View.Shows t) vs ids → List.Forall₂ (View.Shows u) vs ids
  | _, _, .nil => .nil
  | _, _, .cons first rest => .cons (first.mono extended) (shows_mono extended rest)

end

/-! ### Views of items -/

namespace Source

/-- The flags that a declaration at a position gets from its comment. -/
def flagsAt (comment? : Nat → Option DocComment) (kind : Kind) (lo : Nat) : Doc.Flags :=
  (Doc.buildFlags kind (tagsOf (comment? lo))).flags

/-- The names of parameters, the first of which stands at a given position. -/
def parameterNames (index : Nat) : List Parameter → List String
  | [] => []
  | p :: ps => p.nameAt index :: parameterNames (index + 1) ps

section
variable (comment? : Nat → Option DocComment)

/-- The view of a member that is kept among the properties. -/
def Member.properties : Member → List View
  | .property lo name _ _ _ => [.mk name .property (some (flagsAt comment? .property lo)) [] []]
  | _ => []

/-- The view of a member that is kept among the methods. -/
def Member.methods : Member → List View
  | .method lo name f _ _ =>
    [.mk name .method (some (flagsAt comment? .method lo)) (parameterNames 0 f.parameters) []]
  | .constructor lo ps =>
    [.mk "constructor" .constructor (some (flagsAt comment? .constructor lo)) (parameterNames 0 ps) []]
  | _ => []

/-- The views of members. -/
def memberViews (ms : List Member) : List View :=
  ms.flatMap (Member.properties comment?) ++ ms.flatMap (Member.methods comment?)

/-- The view of a binding. -/
def Binding.views (flags : Doc.Flags) : Binding → List View
  | .named name _ => [.mk name .var (some flags) [] []]
  | .pattern _ => []

mutual

/-- The views of the declarations that an item gives. -/
def Item.views : Item → List View
  | .vars lo _ bs => bs.flatMap (Binding.views (flagsAt comment? .var lo))
  | .function lo name f =>
    [.mk name .function (some (flagsAt comment? .function lo)) (parameterNames 0 f.parameters) []]
  | .classDecl lo name _ _ _ ms => [.mk name .classDecl (some (flagsAt comment? .classDecl lo)) [] (memberViews comment? ms)]
  | .interface lo name _ _ ms => [.mk name .interface (some (flagsAt comment? .interface lo)) [] (memberViews comment? ms)]
  | .typeAlias lo name _ _ => [.mk name .typeAlias (some (flagsAt comment? .typeAlias lo)) [] []]
  | .enum lo name _ => [.mk name .enum (some (flagsAt comment? .enum lo)) [] []]
  | .namespaceDecl lo name items =>
    [.mk name .namespaceDecl (some (flagsAt comment? .namespaceDecl lo)) [] (itemViews items)]
  | .skipped .. | .empty => []

/-- The views of the declarations that items give. -/
def itemViews : List Item → List View
  | [] => []
  | item :: items => item.views ++ itemViews items

end

end

end Source

/-! ### Views of what is written -/

/-- Flags that some tags give. -/
def Doc.FromTags (kind : Kind) (flags : Doc.Flags) : Prop :=
  ∃ tags, flags = (Doc.buildFlags kind tags).flags ∧ ∀ tag ∈ tags, Source.IsTagName tag

/-- All flags in a view come from tags, and constructors have their word for a name. -/
inductive View.Regular : View → Prop
  | intro {name : String} {kind : Kind} {flags : Option Doc.Flags} {parameters : List String} {below : List View}
    (own : ∀ f, flags = some f → Doc.FromTags kind f) (later : ∀ v ∈ below, Regular v)
    (word : kind = .constructor → name = "constructor" := by simp) :
    Regular (.mk name kind flags parameters below)

namespace Source

section
variable {comment? : Nat → Option DocComment}

private theorem fromTags_flagsAt (named : ∀ lo, ∀ tag ∈ tagsOf (comment? lo), IsTagName tag) (kind : Kind)
    (lo : Nat) :
    ∀ f, some (flagsAt comment? kind lo) = some f → Doc.FromTags kind f := by
  intro f same
  obtain rfl := Option.some.inj same
  exact ⟨_, rfl, named lo⟩

private theorem regular_memberViews (named : ∀ lo, ∀ tag ∈ tagsOf (comment? lo), IsTagName tag)
    (ms : List Member) : ∀ v ∈ memberViews comment? ms, v.Regular := by
  intro v member
  rcases List.mem_append.mp member with property | method
  · obtain ⟨m, -, inside⟩ := List.mem_flatMap.mp property
    cases m with
    | property =>
      rw [List.mem_singleton.mp inside]
      exact .intro (fromTags_flagsAt named _ _) (fun v member => absurd member List.not_mem_nil)
    | method | constructor | skipped | empty => cases inside
  · obtain ⟨m, -, inside⟩ := List.mem_flatMap.mp method
    cases m with
    | method | constructor =>
      rw [List.mem_singleton.mp inside]
      exact .intro (fromTags_flagsAt named _ _) (fun v member => absurd member List.not_mem_nil)
    | property | skipped | empty => cases inside

mutual

private theorem regular_views (named : ∀ lo, ∀ tag ∈ tagsOf (comment? lo), IsTagName tag) :
    ∀ item : Item, ∀ v ∈ item.views comment?, v.Regular
  | .vars lo isConst bs => by
    intro v member
    unfold Item.views at member
    obtain ⟨b, -, inside⟩ := List.mem_flatMap.mp member
    cases b with
    | named =>
      rw [List.mem_singleton.mp inside]
      exact .intro (fromTags_flagsAt named _ _) (fun v member => absurd member List.not_mem_nil)
    | pattern => cases inside
  | .function .. | .typeAlias .. | .enum .. => by
    intro v member
    unfold Item.views at member
    rw [List.mem_singleton.mp member]
    exact .intro (fromTags_flagsAt named _ _) (fun v member => absurd member List.not_mem_nil)
  | .classDecl lo name generics bases interfaces ms => by
    intro v member
    unfold Item.views at member
    rw [List.mem_singleton.mp member]
    exact .intro (fromTags_flagsAt named _ _) (regular_memberViews named ms)
  | .interface lo name generics bases ms => by
    intro v member
    unfold Item.views at member
    rw [List.mem_singleton.mp member]
    exact .intro (fromTags_flagsAt named _ _) (regular_memberViews named ms)
  | .namespaceDecl lo name items => by
    intro v member
    unfold Item.views at member
    rw [List.mem_singleton.mp member]
    exact .intro (fromTags_flagsAt named _ _) (regular_itemViews named items)
  | .skipped .. | .empty => by
    intro v member
    unfold Item.views at member
    cases member

private theorem regular_itemViews (named : ∀ lo, ∀ tag ∈ tagsOf (comment? lo), IsTagName tag) :
    ∀ items : List Item, ∀ v ∈ itemViews comment? items, v.Regular
  | [] => by
    intro v member
    unfold itemViews at member
    cases member
  | item :: items => by
    intro v member
    unfold itemViews at member
    rcases List.mem_append.mp member with first | later
    · exact regular_views named item v first
    · exact regular_itemViews named items v later

end

end

/-- The view of the tree over one file. -/
def File.view (f : File) (name : String) : View :=
  .mk Project.rootName .root none [] [.mk name .sourceFile none [] (itemViews f.comment? f.items)]

end Source

/-! ### Outlining -/

namespace Project

open Source

/-- The nodes collected so far, as a tree. -/
def Draft.tree (d : Draft) : Tree := ⟨d.nodes, 0⟩

section
variable {α : Type} {before : List (NodeId × Role)} {after : α → List (NodeId × Role)} {step : StateM Draft α}

theorem Grows.extends (grows : Grows before step after) (d : Draft) : (step d).2.tree.Extends d.tree :=
  fun id n found => ⟨n.parent, grows.stays d id n found⟩

end

private theorem node?_add (n : Node) (d : Draft) : (add n d).2.tree.node? (add n d).1 = some n :=
  Array.getElem?_push_size

private theorem extends_add (n : Node) (d : Draft) : (add n d).2.tree.Extends d.tree := by
  intro id m found
  obtain ⟨bound, -⟩ := Array.getElem?_eq_some_iff.mp found
  refine ⟨m.parent, ?_⟩
  have old : id ≠ d.nodes.size := Nat.ne_of_lt bound
  change (d.nodes.push n)[id]? = some m
  rw [Array.getElem?_push, if_neg old]
  exact found

theorem names_addParameters (index : Nat) (ps : List Parameter) (d : Draft) :
    (addParameters index ps d).2.tree.Names (parameterNames index ps) (addParameters index ps d).1 := by
  induction ps generalizing index d with
  | nil => exact .nil
  | cons p ps ih =>
    let first := add ⟨p.nameAt index, none, .param p.type p.isOptional p.isRest, none⟩ d
    obtain ⟨parent, present⟩ := (grows_addParameters (index + 1) ps).extends first.2 _ _ (node?_add _ d)
    exact .cons ⟨_, present, rfl⟩ (ih (index + 1) first.2)

theorem names_addSignature (f : Function) (d : Draft) :
    (addSignature f d).2.tree.Names (parameterNames 0 f.parameters) (addSignature f d).1.parameters := by
  let first := addParameters 0 f.parameters d
  exact (names_addParameters 0 f.parameters d).mono ((grows_addGenerics f.generics).extends first.2)

section
variable (s : Sheet)

private theorem property_of_shows {v : View} {id : NodeId} {t : Tree} (ids : MemberIds) (shown : v.Shows t id) :
    ∃ ps ms, MemberIds.mk (ids.properties ++ [id]) ids.methods = ⟨ids.properties ++ ps, ids.methods ++ ms⟩ ∧
      List.Forall₂ (View.Shows t) [v] ps ∧ List.Forall₂ (View.Shows t) [] ms :=
  ⟨[id], [], congrArg (MemberIds.mk _) (List.append_nil _).symm, .cons shown .nil, .nil⟩

private theorem method_of_shows {v : View} {id : NodeId} {t : Tree} (ids : MemberIds) (shown : v.Shows t id) :
    ∃ ps ms, MemberIds.mk ids.properties (ids.methods ++ [id]) = ⟨ids.properties ++ ps, ids.methods ++ ms⟩ ∧
      List.Forall₂ (View.Shows t) [] ps ∧ List.Forall₂ (View.Shows t) [v] ms :=
  ⟨[], [id], congrArg (MemberIds.mk · _) (List.append_nil _).symm, .nil, .cons shown .nil⟩

private theorem unchanged_of_shows (t : Tree) (ids : MemberIds) :
    ∃ ps ms, ids = ⟨ids.properties ++ ps, ids.methods ++ ms⟩ ∧
      List.Forall₂ (View.Shows t) [] ps ∧ List.Forall₂ (View.Shows t) [] ms := by
  refine ⟨[], [], ?_, .nil, .nil⟩
  rw [List.append_nil, List.append_nil]

/-- What one member adds. -/
private theorem shows_addMember (ids : MemberIds) (m : Member) (d : Draft) :
    ∃ ps ms, (s.addMember ids m d).1 = ⟨ids.properties ++ ps, ids.methods ++ ms⟩ ∧
      List.Forall₂ (View.Shows (s.addMember ids m d).2.tree) (m.properties s.file.comment?) ps ∧
      List.Forall₂ (View.Shows (s.addMember ids m d).2.tree) (m.methods s.file.comment?) ms := by
  cases m with
  | property lo name type optional modifiers =>
    exact property_of_shows ids (.intro (node?_add _ (s.flags .property lo d).2) rfl rfl rfl .nil .nil)
  | method lo name f optional modifiers =>
    let signed := addSignature f (s.flags .method lo d).2
    have names := (names_addSignature f (s.flags .method lo d).2).mono
      (extends_add ⟨name, some (s.flags .method lo d).1, .method signed.1 modifiers, none⟩ signed.2)
    exact method_of_shows ids (.intro (node?_add _ signed.2) rfl rfl rfl names .nil)
  | constructor lo ps =>
    let added := addParameters 0 ps (s.flags .constructor lo d).2
    have names := (names_addParameters 0 ps (s.flags .constructor lo d).2).mono
      (extends_add ⟨"constructor", some (s.flags .constructor lo d).1, .constructor ⟨added.1, none, []⟩, none⟩ added.2)
    exact method_of_shows ids (.intro (node?_add _ added.2) rfl rfl rfl names .nil)
  | skipped lo construct => exact unchanged_of_shows _ ids
  | empty => exact unchanged_of_shows _ ids

private theorem shows_foldlM_addMember (ms : List Member) (ids : MemberIds) (d : Draft) :
    ∃ properties methods,
      (ms.foldlM s.addMember ids d).1 = ⟨ids.properties ++ properties, ids.methods ++ methods⟩ ∧
      List.Forall₂ (View.Shows (ms.foldlM s.addMember ids d).2.tree) (ms.flatMap (Member.properties s.file.comment?))
        properties ∧
      List.Forall₂ (View.Shows (ms.foldlM s.addMember ids d).2.tree) (ms.flatMap (Member.methods s.file.comment?)) methods := by
  induction ms generalizing ids d with
  | nil => exact unchanged_of_shows _ ids
  | cons m ms ih =>
    obtain ⟨properties, methods, own, first, second⟩ := shows_addMember s ids m d
    obtain ⟨properties', methods', later, third, fourth⟩ := ih (s.addMember ids m d).1 (s.addMember ids m d).2
    have extended := (grows_foldlM_addMember s ms (s.addMember ids m d).1).extends (s.addMember ids m d).2
    refine ⟨properties ++ properties', methods ++ methods', ?_, ?_, ?_⟩
    · refine later.trans ?_
      rw [own, List.append_assoc, List.append_assoc]
    · exact List.rel_append (shows_mono extended first) third
    · exact List.rel_append (shows_mono extended second) fourth

private theorem shows_addMembers (ms : List Member) (d : Draft) :
    List.Forall₂ (View.Shows (s.addMembers ms d).2.tree) (memberViews s.file.comment? ms)
      ((s.addMembers ms d).1.properties ++ (s.addMembers ms d).1.methods) := by
  obtain ⟨properties, methods, added, first, second⟩ := shows_foldlM_addMember s ms {} d
  rw [Sheet.addMembers, added]
  exact List.rel_append first second

private theorem shows_addBindings (flags : Doc.Flags) (isConst : Bool) (bs : List Binding) (d : Draft) :
    List.Forall₂ (View.Shows (s.addBindings flags isConst bs d).2.tree) (bs.flatMap (Binding.views flags))
      (s.addBindings flags isConst bs d).1 := by
  induction bs generalizing d with
  | nil => exact .nil
  | cons b bs ih =>
    cases b with
    | named name type =>
      let n : Node := ⟨name, some flags, .var type isConst, none⟩
      have extended := (grows_addBindings s flags isConst bs).extends (add n d).2
      exact .cons (View.Shows.mono extended (.intro (node?_add n d) rfl rfl rfl .nil .nil)) (ih (add n d).2)
    | pattern lo => exact ih _

mutual

theorem shows_addItem (d : Draft) : ∀ item : Item,
    List.Forall₂ (View.Shows (s.addItem item d).2.tree) (item.views s.file.comment?) (s.addItem item d).1
  | .vars lo isConst bs => by
    unfold Sheet.addItem Item.views
    exact shows_addBindings s _ isConst bs _
  | .function lo name f => by
    unfold Sheet.addItem Item.views
    let signed := addSignature f (s.flags .function lo d).2
    have names := (names_addSignature f (s.flags .function lo d).2).mono
      (extends_add ⟨name, some (s.flags .function lo d).1, .function signed.1, none⟩ signed.2)
    exact .cons (.intro (node?_add _ signed.2) rfl rfl rfl names .nil) .nil
  | .classDecl lo name generics bases interfaces ms => by
    unfold Sheet.addItem Item.views
    let named := addGenerics generics (s.flags .classDecl lo d).2
    let added := s.addMembers ms named.2
    have members := shows_mono (extends_add ⟨name, some (s.flags .classDecl lo d).1,
      .classDecl ⟨added.1.properties, added.1.methods, bases, named.1⟩ interfaces, none⟩ added.2) (shows_addMembers s ms named.2)
    exact .cons (.intro (node?_add _ added.2) rfl rfl rfl .nil members) .nil
  | .interface lo name generics bases ms => by
    unfold Sheet.addItem Item.views
    let named := addGenerics generics (s.flags .interface lo d).2
    let added := s.addMembers ms named.2
    have members := shows_mono (extends_add ⟨name, some (s.flags .interface lo d).1,
      .interface ⟨added.1.properties, added.1.methods, bases, named.1⟩, none⟩ added.2) (shows_addMembers s ms named.2)
    exact .cons (.intro (node?_add _ added.2) rfl rfl rfl .nil members) .nil
  | .typeAlias lo name generics type => by
    unfold Sheet.addItem Item.views
    exact .cons (.intro (node?_add _ (addGenerics generics (s.flags .typeAlias lo d).2).2) rfl rfl rfl .nil .nil) .nil
  | .enum lo name ms => by
    unfold Sheet.addItem Item.views
    exact .cons (.intro (node?_add _ (s.flags .enum lo d).2) rfl rfl rfl .nil .nil) .nil
  | .namespaceDecl lo name items => by
    unfold Sheet.addItem Item.views
    let added := s.addItems items (s.flags .namespaceDecl lo d).2
    have below := shows_mono (extends_add ⟨name, some (s.flags .namespaceDecl lo d).1, .namespaceDecl added.1, none⟩ added.2)
      (shows_addItems (s.flags .namespaceDecl lo d).2 items)
    exact .cons (.intro (node?_add _ added.2) rfl rfl rfl .nil below) .nil
  | .skipped lo construct => by
    unfold Sheet.addItem Item.views
    exact .nil
  | .empty => by
    unfold Sheet.addItem Item.views
    exact .nil

theorem shows_addItems (d : Draft) : ∀ items : List Item,
    List.Forall₂ (View.Shows (s.addItems items d).2.tree) (itemViews s.file.comment? items) (s.addItems items d).1
  | [] => by
    unfold Sheet.addItems itemViews
    exact .nil
  | item :: items => by
    unfold Sheet.addItems itemViews
    exact List.rel_append (shows_mono ((grows_addItems s items).extends _) (shows_addItem d item))
      (shows_addItems _ items)

end

end

end Project

end DocLocale
