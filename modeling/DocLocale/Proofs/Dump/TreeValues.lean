import DocLocale.Proofs.Dump.TypeValues
import DocLocale.Proofs.Tree.Renumbering

/-!
A declaration tree is known by its JSON, up to the numbers of its nodes. The value of a node starts with
fields that every node has; the fields of its body follow, under names that tell what they hold once the
kind is known. So nodes of alike values hold the same and own nodes of alike values, place by place.
-/

set_option autoImplicit false
set_option relaxedAutoImplicit false

namespace DocLocale

open Json (Alike field? field?_append field?_unless)

/-- The text of a node's kind. -/
def Kind.text (k : Kind) : String := "Node[" ++ toString k.index ++ "] " ++ k.label

theorem Kind.text_injective : Function.Injective Kind.text := by
  refine @injective_of_read _ Kind.all _ fun k => ?_
  cases k <;> decide

theorem Modifier.keyword_injective : Function.Injective Modifier.keyword := by
  refine @injective_of_read _ [.static, .readonly] _ fun m => ?_
  cases m <;> decide

theorem Doc.Flags.eq_of_alike {f g : Doc.Flags} (alike : Alike f.toJson g.toJson) : f = g := by
  have enabled := (alike.field "enabled" rfl rfl).bool_inj
  have names := Alike.map_inj (fun _ _ => Alike.string_inj) (alike.field "flags" rfl rfl).items
  cases f
  cases g
  cases enabled
  cases names
  rfl

theorem modifiers_eq_of_alike {ms ns : List Modifier}
    (alike : Alike (modifiersToJson ms) (modifiersToJson ns)) : ms = ns :=
  Alike.map_inj (fun _ _ keyword => Modifier.keyword_injective keyword.string_inj) alike.items

theorem references_eq_of_alike {rs qs : List Reference}
    (alike : Alike (referencesToJson rs) (referencesToJson qs)) : rs = qs := by
  refine Alike.map_inj (fun r q entry => ?_) alike.items
  cases r
  cases q
  cases TypeExpr.eq_of_alike entry
  rfl

/-- An enum member as JSON. -/
def EnumMember.toJson (m : EnumMember) : Json :=
  .object [("name", .string m.name), ("value", .string m.value)]

theorem EnumMember.eq_of_alike {m n : EnumMember} (alike : Alike m.toJson n.toJson) : m = n := by
  cases m
  cases n
  cases (alike.field "name" rfl rfl).string_inj
  cases (alike.field "value" rfl rfl).string_inj
  rfl

theorem Signature.field?_fields (s : Signature) (nodes : List NodeId → Json) (key : String) :
    field? key (s.fields nodes) =
      if "parameters" = key then some (nodes s.parameters)
      else if "returnType" = key then s.returns.map TypeExpr.toJson
      else if s.typeParameters.isEmpty then none
      else if "typeParameters" = key then some (nodes s.typeParameters) else none := by
  obtain ⟨parameters, returns, typeParameters⟩ := s
  by_cases first : "parameters" = key
  · simp [Signature.fields, field?, first]
  · by_cases second : "returnType" = key
    · subst second
      cases returns <;> simp [Signature.fields, field?, field?_unless]
    · cases returns <;> simp [Signature.fields, field?, first, second, field?_unless]

/-- The names of the fields that every node may have. -/
def headNames : List String := ["kind", "name", "docFlags"]

/-- The fields are alike under all other names. -/
def FieldsAlike (fs gs : List (String × Json)) : Prop :=
  ∀ key ∉ headNames, Option.Rel Alike (field? key fs) (field? key gs)

theorem FieldsAlike.field {fs gs : List (String × Json)} (alike : FieldsAlike fs gs) (key : String)
    (proper : key ∉ headNames) {v w : Json} (left : field? key fs = some v) (right : field? key gs = some w) :
    Alike v w :=
  .of_related (alike key proper) left right

/-- A field that both lists have last and nowhere else. -/
theorem FieldsAlike.split_last {fs gs : List (String × Json)} {name : String} {v w : Json}
    (alike : FieldsAlike (fs ++ [(name, v)]) (gs ++ [(name, w)])) (proper : name ∉ headNames)
    (left : field? name fs = none) (right : field? name gs = none) : FieldsAlike fs gs ∧ Alike v w := by
  constructor
  · intro key inside
    by_cases last : name = key
    · subst last
      rw [left, right]
      exact .none
    · simpa [field?_append, field?, last] using alike key inside
  · exact alike.field name proper (by simp [field?_append, field?, left]) (by simp [field?_append, field?, right])

/-- The values of nodes in a list. -/
def listed (value : NodeId → Json) (ids : List NodeId) : Json := .array (ids.map value)

section Bodies

variable {value other : NodeId → Json}

/-- Every node of the first list has a value alike that of the node at its place in the second. -/
def NodesAlike (value other : NodeId → Json) (ids others : List NodeId) : Prop :=
  List.Forall₂ (fun i j => Alike (value i) (other j)) ids others

theorem NodesAlike.of_items {ids others : List NodeId}
    (alike : List.Forall₂ Alike (ids.map value) (others.map other)) : NodesAlike value other ids others := by
  rwa [List.forall₂_map_left_iff, List.forall₂_map_right_iff] at alike

theorem NodesAlike.of_listed {ids others : List NodeId}
    (alike : Alike (listed value ids) (listed other others)) : NodesAlike value other ids others :=
  .of_items alike.items

theorem NodesAlike.split {f : NodeId → NodeId} {front front' back back' : List NodeId}
    (alike : NodesAlike value other front front') (same : (front ++ back).map f = front' ++ back') :
    front.map f = front' ∧ back.map f = back' := by
  rw [List.map_append] at same
  exact List.append_inj same (by simpa using alike.length_eq)

theorem Signature.corresponds {s r : Signature}
    (alike : FieldsAlike (s.fields (listed value)) (r.fields (listed other))) :
    NodesAlike value other (s.parameters ++ s.typeParameters) (r.parameters ++ r.typeParameters) ∧
      ∀ f, (s.parameters ++ s.typeParameters).map f = r.parameters ++ r.typeParameters →
        s.renumber f = r := by
  have parameters := NodesAlike.of_listed (alike.field "parameters" (by decide) rfl rfl)
  have returns := alike "returnType" (by decide)
  have generics := alike "typeParameters" (by decide)
  simp only [Signature.field?_fields, String.reduceEq, reduceIte] at returns generics
  have listed := NodesAlike.of_items (Alike.items_of_omitted rfl rfl generics)
  refine ⟨List.rel_append parameters listed, fun f same => ?_⟩
  obtain ⟨left, right⟩ := parameters.split same
  cases r
  rw [Signature.renumber, left, right, Alike.option_inj (fun _ _ => TypeExpr.eq_of_alike) returns]

theorem Shape.corresponds {s r : Shape}
    (alike : FieldsAlike (s.fields (listed value)) (r.fields (listed other))) :
    NodesAlike value other (s.properties ++ s.methods ++ s.typeParameters)
      (r.properties ++ r.methods ++ r.typeParameters) ∧
    ∀ f, (s.properties ++ s.methods ++ s.typeParameters).map f =
      r.properties ++ r.methods ++ r.typeParameters → s.renumber f = r := by
  have properties := NodesAlike.of_listed (alike.field "properties" (by decide) rfl rfl)
  have methods := NodesAlike.of_listed (alike.field "methods" (by decide) rfl rfl)
  have generics := NodesAlike.of_listed (alike.field "typeParameters" (by decide) rfl rfl)
  have bases := references_eq_of_alike (alike.field "extends" (by decide) rfl rfl)
  have members : NodesAlike value other (s.properties ++ s.methods) (r.properties ++ r.methods) :=
    List.rel_append properties methods
  refine ⟨List.rel_append members generics, fun f same => ?_⟩
  obtain ⟨front, last⟩ := members.split same
  obtain ⟨first, second⟩ := properties.split front
  cases r
  rw [Shape.renumber, first, second, last, bases]

/-- Bodies of one kind whose fields are alike differ in numbers at most, and own nodes of alike values. -/
theorem Body.corresponds {b c : Body} (kinds : b.kind = c.kind)
    (alike : FieldsAlike (b.fields (listed value)) (c.fields (listed other))) :
    NodesAlike value other b.children c.children ∧
      ∀ f, b.children.map f = c.children → b.renumber f = c :=
  -- The equal kinds leave fourteen pairs; a body without nodes is settled once its fields are equal.
  match b, c, kinds, alike with
  | .var _ _, .var _ _, _, alike => by
    cases TypeExpr.eq_of_alike (alike.field "type" (by decide) rfl rfl)
    cases (alike.field "isConst" (by decide) rfl rfl).bool_inj
    exact ⟨.nil, fun _ _ => rfl⟩
  | .param _ _ _, .param _ _ _, _, alike => by
    cases TypeExpr.eq_of_alike (alike.field "type" (by decide) rfl rfl)
    cases (alike.field "isOptional" (by decide) rfl rfl).bool_inj
    cases (alike.field "isRest" (by decide) rfl rfl).bool_inj
    exact ⟨.nil, fun _ _ => rfl⟩
  | .function _, .function _, _, alike => by
    obtain ⟨nodes, renumbered⟩ := Signature.corresponds alike
    exact ⟨nodes, fun f same => congrArg Body.function (renumbered f same)⟩
  | .constructor _, .constructor _, _, alike => by
    obtain ⟨nodes, renumbered⟩ := Signature.corresponds alike
    exact ⟨nodes, fun f same => congrArg Body.constructor (renumbered f same)⟩
  | .method _ _, .method _ _, _, alike => by
    obtain ⟨signature, modifiers⟩ := alike.split_last (by decide) (by simp [Signature.field?_fields])
      (by simp [Signature.field?_fields])
    obtain ⟨nodes, renumbered⟩ := Signature.corresponds signature
    cases modifiers_eq_of_alike modifiers
    exact ⟨nodes, fun f same => congrArg (Body.method · _) (renumbered f same)⟩
  | .property _ _ _, .property _ _ _, _, alike => by
    cases TypeExpr.eq_of_alike (alike.field "type" (by decide) rfl rfl)
    cases (alike.field "isOptional" (by decide) rfl rfl).bool_inj
    cases modifiers_eq_of_alike (alike.field "modifiers" (by decide) rfl rfl)
    exact ⟨.nil, fun _ _ => rfl⟩
  | .classDecl _ _, .classDecl _ _, _, alike => by
    obtain ⟨shape, interfaces⟩ := alike.split_last (by decide) rfl rfl
    obtain ⟨nodes, renumbered⟩ := Shape.corresponds shape
    cases references_eq_of_alike interfaces
    exact ⟨nodes, fun f same => congrArg (Body.classDecl · _) (renumbered f same)⟩
  | .interface _, .interface _, _, alike => by
    obtain ⟨nodes, renumbered⟩ := Shape.corresponds alike
    exact ⟨nodes, fun f same => congrArg Body.interface (renumbered f same)⟩
  | .enum _, .enum _, _, alike => by
    cases Alike.map_inj (fun _ _ => EnumMember.eq_of_alike) (alike.field "members" (by decide) rfl rfl).items
    exact ⟨.nil, fun _ _ => rfl⟩
  | .typeAlias _ _, .typeAlias _ _, _, alike => by
    cases TypeExpr.eq_of_alike (alike.field "type" (by decide) rfl rfl)
    have nodes := NodesAlike.of_listed (alike.field "typeParameters" (by decide) rfl rfl)
    exact ⟨nodes, fun f same => congrArg (Body.typeAlias · _) same⟩
  | .typeParameter none, .typeParameter none, _, _ => ⟨.nil, fun _ _ => rfl⟩
  | .typeParameter (some _), .typeParameter (some _), _, alike => by
    cases TypeExpr.eq_of_alike (alike.field "constraint" (by decide) rfl rfl)
    exact ⟨.nil, fun _ _ => rfl⟩
  | .typeParameter none, .typeParameter (some _), _, alike => nomatch alike "constraint" (by decide)
  | .typeParameter (some _), .typeParameter none, _, alike => nomatch alike "constraint" (by decide)
  | .namespaceDecl _, .namespaceDecl _, _, alike =>
    ⟨.of_listed (alike.field "children" (by decide) rfl rfl), fun f same => congrArg Body.namespaceDecl same⟩
  | .sourceFile _, .sourceFile _, _, alike =>
    ⟨.of_listed (alike.field "children" (by decide) rfl rfl), fun f same => congrArg Body.sourceFile same⟩
  | .root _, .root _, _, alike =>
    ⟨.of_listed (alike.field "children" (by decide) rfl rfl), fun f same => congrArg Body.root same⟩

theorem Body.field?_docFlags (nodes : List NodeId → Json) (b : Body) :
    field? "docFlags" (b.fields nodes) = none := by
  cases b with
  | function s | constructor s => simp [Body.fields, Signature.field?_fields]
  | method s modifiers => simp [Body.fields, Signature.field?_fields, field?_append, field?]
  | typeParameter constraint => cases constraint <;> rfl
  | _ => rfl

/-- The fields that every node may have. -/
def Node.headFields (n : Node) : List (String × Json) :=
  [("kind", .string n.kind.text), ("name", .string n.name)] ++
    (match n.flags with
      | some f => [("docFlags", f.toJson)]
      | none => [])

/-- A node as JSON, given the values of the nodes it owns. -/
def Node.toJson (value : NodeId → Json) (n : Node) : Json :=
  .object (n.headFields ++ n.body.fields (listed value))

theorem Node.field?_headFields (n : Node) (key : String) :
    field? key n.headFields =
      if "kind" = key then some (.string n.kind.text)
      else if "name" = key then some (.string n.name)
      else if "docFlags" = key then n.flags.map Doc.Flags.toJson else none := by
  obtain ⟨name, flags, body, parent⟩ := n
  cases flags with
  | none => simp [Node.headFields, field?]
  | some f => rfl

/-- Nodes of alike values hold the same up to numbers, and so do the nodes they own. -/
theorem Node.corresponds {n m : Node} (alike : Alike (n.toJson value) (m.toJson other)) :
    n.SameUpToNumbers m ∧ NodesAlike value other n.body.children m.body.children := by
  have kinds := Kind.text_injective (alike.field "kind" rfl rfl).string_inj
  have names := (alike.field "name" rfl rfl).string_inj
  have flags := alike.fields "docFlags"
  simp only [field?_append, Node.field?_headFields, Body.field?_docFlags, String.reduceEq, reduceIte,
    Option.or_none] at flags
  have body : FieldsAlike (n.body.fields (listed value)) (m.body.fields (listed other)) := by
    intro key proper
    have related := alike.fields key
    simp only [headNames, List.mem_cons, List.not_mem_nil, or_false, not_or] at proper
    obtain ⟨kind, name, flag⟩ := proper
    simpa only [field?_append, Node.field?_headFields, Ne.symm kind, Ne.symm name, Ne.symm flag, if_false,
      Option.none_or] using related
  obtain ⟨nodes, renumbered⟩ := Body.corresponds kinds body
  exact ⟨⟨names, Alike.option_inj (fun _ _ => Doc.Flags.eq_of_alike) flags, renumbered⟩, nodes⟩

end Bodies

section Branches

variable {value other : NodeId → Json}

/-- Numbers do not show in the fields of a body. -/
theorem Body.fields_renumber {f : NodeId → NodeId} {b : Body} (same : ∀ c ∈ b.children, other (f c) = value c) :
    (b.renumber f).fields (listed other) = b.fields (listed value) := by
  have part : ∀ ids ⊆ b.children, listed other (ids.map f) = listed value ids := by
    intro ids inside
    rw [listed, listed, List.map_map]
    exact congrArg Json.array (List.map_congr_left fun c member => same c (inside member))
  cases b with
  | function s | constructor s | method s _ =>
    have parameters := part s.parameters (List.subset_append_left _ _)
    have generics := part s.typeParameters (List.subset_append_right _ _)
    simp only [Body.renumber, Body.fields, Signature.renumber, Signature.fields, List.isEmpty_map, parameters,
      generics]
  | classDecl s _ | interface s =>
    have properties := part s.properties fun _ member => by simp [Body.children, member]
    have methods := part s.methods fun _ member => by simp [Body.children, member]
    have generics := part s.typeParameters fun _ member => by simp [Body.children, member]
    simp only [Body.renumber, Body.fields, Shape.renumber, Shape.fields, properties, methods, generics]
  | typeAlias ids _ | namespaceDecl ids | sourceFile ids | root ids =>
    simp only [Body.renumber, Body.fields, part ids (List.Subset.refl _)]
  | typeParameter constraint => cases constraint <;> rfl
  | _ => rfl

theorem Body.fields_congr {b : Body} (same : ∀ c ∈ b.children, value c = other c) :
    b.fields (listed value) = b.fields (listed other) := by
  have plain := Body.fields_renumber (f := id) same
  rwa [Body.renumber_id] at plain

theorem Node.toJson_renumber {f : NodeId → NodeId} {n : Node}
    (same : ∀ c ∈ n.body.children, other (f c) = value c) : (n.renumber f).toJson other = n.toJson value := by
  have head : (n.renumber f).headFields = n.headFields := by
    simp only [Node.headFields, Node.renumber, Node.kind, Body.kind_renumber]
  rw [Node.toJson, Node.toJson, head]
  exact congrArg (fun fields => Json.object (n.headFields ++ fields)) (Body.fields_renumber same)

end Branches

namespace Tree

variable {t u : Tree}

/-- A node and all nodes below it. -/
def branchJson (t : Tree) (id : NodeId) : Json := t.nodeToJson t.size id

theorem nodeToJson_succ {id : NodeId} {n : Node} (found : t.node? id = some n) (fuel : Nat) :
    t.nodeToJson (fuel + 1) id = n.toJson (t.nodeToJson fuel) := by
  rw [nodeToJson, found]
  rfl

theorem Wired.branchJson_eq (wired : t.Wired) {id : NodeId} {n : Node} (found : t.node? id = some n) :
    t.branchJson id = n.toJson t.branchJson := by
  have bound := lt_size_of_node? found
  have deep := wired.length_lineage_pos bound
  have level : ∀ fuel more id, (∀ c ∈ t.children id, t.nodeToJson fuel c = t.nodeToJson more c) →
      t.nodeToJson (fuel + 1) id = t.nodeToJson (more + 1) id := by
    intro fuel more id same
    cases here : t.node? id with
    | none => simp only [nodeToJson, here]
    | some n =>
      rw [nodeToJson_succ here, nodeToJson_succ here]
      simp only [children, here] at same
      rw [Node.toJson, Node.toJson, Body.fields_congr same]
  rw [branchJson, wired.levels_eq level bound (show t.size < t.size + _ by omega)
    (show t.size < t.size + 1 + _ by omega), nodeToJson_succ found]
  rfl

/-- The value of a node is that of the node it is numbered as in another tree. -/
theorem Renumbers.branchJson_eq {f : NodeId → NodeId} (renumbers : t.Renumbers u f) (left : t.Wired)
    (right : u.Wired) {id : NodeId} (bound : id < t.size) : u.branchJson (f id) = t.branchJson id := by
  induction id, bound using left.induction_down with
  | step id bound below =>
    obtain ⟨n, found⟩ := exists_node? bound
    rw [left.branchJson_eq found, right.branchJson_eq (renumbers.nodes id n found)]
    simp only [children, found] at below
    exact Node.toJson_renumber below

/-- Nodes of alike values stand in one another's places. -/
theorem matching_of_alike (left : t.Wired) (right : u.Wired) (alike : Alike t.toJson u.toJson) :
    t.Matching u fun p q => Alike (t.branchJson p) (u.branchJson q) := by
  refine ⟨alike, ?_, ?_⟩
  · intro p q n m related found other
    rw [left.branchJson_eq found, right.branchJson_eq other] at related
    exact (Node.corresponds related).1
  · intro p q related bound below
    obtain ⟨n, found⟩ := exists_node? bound
    obtain ⟨m, other⟩ := exists_node? below
    rw [left.branchJson_eq found, right.branchJson_eq other] at related
    simp only [children, found, other]
    exact (Node.corresponds related).2

/-- Finished trees have alike values exactly if a numbering takes the one to the other, with names, flags, bodies and
owners as they are. Types have alike values exactly if they are equal. -/
theorem toJson_lossless :
    (∀ {nodes others : Array Node} {root top : NodeId} {t u : Tree}, finish nodes root = .ok t →
      finish others top = .ok u → (Alike t.toJson u.toJson ↔ ∃ f, t.Renumbers u f)) ∧
    ∀ a b : TypeExpr, Alike a.toJson b.toJson ↔ a = b := by
  refine ⟨?_, fun a b => ⟨TypeExpr.eq_of_alike, ?_⟩⟩
  · intro nodes others root top t u finished also
    have left := wired_of_finish finished
    have right := wired_of_finish also
    constructor
    · intro alike
      exact (matching_of_alike left right alike).exists_renumbers left right
    · rintro ⟨f, renumbers⟩
      have same := renumbers.branchJson_eq left right left.spanning.root_lt
      rw [renumbers.root] at same
      rw [show u.toJson = t.toJson from same]
      exact .refl _
  · rintro rfl
    exact .refl _

/-- A generic function, numbered from the root down. -/
private def countedDown : Tree :=
  ⟨#[⟨"", none, .root [1], none⟩, ⟨"a", none, .sourceFile [2], some 0⟩,
    ⟨"f", some ⟨true, ["text"]⟩,
      .function { parameters := [3], returns := some (.basic .number), typeParameters := [4] }, some 1⟩,
    ⟨"x", none, .param (.array (.reference "T" [])) false true, some 2⟩,
    ⟨"T", none, .typeParameter none, some 2⟩], 0⟩

/-- The same function, numbered towards the root. -/
private def countedUp : Tree :=
  ⟨#[⟨"T", none, .typeParameter none, some 2⟩,
    ⟨"x", none, .param (.array (.reference "T" [])) false true, some 2⟩,
    ⟨"f", some ⟨true, ["text"]⟩,
      .function { parameters := [1], returns := some (.basic .number), typeParameters := [0] }, some 3⟩,
    ⟨"a", none, .sourceFile [2], some 4⟩, ⟨"", none, .root [3], none⟩], 4⟩

theorem toJson_lossless_recounted :
    finish countedDown.nodes 0 = .ok countedDown ∧ finish countedUp.nodes 4 = .ok countedUp ∧
      Alike countedDown.toJson countedUp.toJson ∧ ∃ f, countedDown.Renumbers countedUp f := by
  have down : finish countedDown.nodes 0 = .ok countedDown := rfl
  have up : finish countedUp.nodes 4 = .ok countedUp := rfl
  have same : countedDown.toJson = countedUp.toJson := by cbv
  have alike : Alike countedDown.toJson countedUp.toJson := by
    rw [same]
    exact .refl _
  exact ⟨down, up, alike, (toJson_lossless.1 down up).mp alike⟩

end Tree

end DocLocale
