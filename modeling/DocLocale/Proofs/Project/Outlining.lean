import DocLocale.Project.Assembly
import DocLocale.Proofs.Tree.Forest

/-!
How the nodes of a file are added. Every step of the outline takes certain waiting nodes and leaves others
waiting instead; the steps compose as their lists of places do. Main statement: whatever items a file holds,
outlining it leaves its declarations waiting and nothing else.
-/

set_option autoImplicit false
set_option relaxedAutoImplicit false

namespace DocLocale.Project

open Source
open scoped List

/-- A step that finds the places `before` waiting and leaves those of `after` waiting instead, whatever
else waits. Nodes that are there stay as they are. -/
structure Grows {α : Type} (before : List (NodeId × Role)) (step : StateM Draft α)
    (after : α → List (NodeId × Role)) : Prop where
  forest : ∀ (d : Draft) (rest : List (NodeId × Role)),
    Forest d.nodes (before ++ rest) → Forest (step d).2.nodes (after (step d).1 ++ rest)
  stays : ∀ (d : Draft) (id : NodeId) (n : Node),
    d.nodes[id]? = some n → (step d).2.nodes[id]? = some n

namespace Grows

variable {α β : Type} {before : List (NodeId × Role)} {after : α → List (NodeId × Role)}

theorem pure (a : α) (same : after a ~ before) : Grows before (Pure.pure a) after where
  forest _ rest forest := forest.perm (same.append_right rest)
  stays _ _ _ found := found

theorem bind {step : StateM Draft α} {next : α → StateM Draft β} {last : β → List (NodeId × Role)}
    (first : Grows before step after) (second : ∀ a, Grows (after a) (next a) last) :
    Grows before (step >>= next) last where
  forest d rest forest := (second _).forest _ rest (first.forest d rest forest)
  stays d id n found := (second _).stays _ id n (first.stays d id n found)

/-- Places that a step does not look at wait on. -/
theorem frame {step : StateM Draft α} (grows : Grows before step after) (others : List (NodeId × Role)) :
    Grows (before ++ others) step fun a => after a ++ others where
  forest d rest forest := by
    rw [List.append_assoc] at forest ⊢
    exact grows.forest d _ forest
  stays := grows.stays

theorem report (i : Issue) : Grows [] (report i) fun _ => [] where
  forest _ _ forest := forest
  stays _ _ _ found := found

/-- A new node takes the nodes it owns and waits itself. -/
theorem add {n : Node} {r : Role} (owned : n.body.places = before) (admitted : r.Admits n) :
    Grows before (add n) fun id => [(id, r)] where
  forest _ _ forest := Forest.push (owned ▸ forest) admitted
  stays d id m found := by
    obtain ⟨bound, -⟩ := Array.getElem?_eq_some_iff.mp found
    simp only [Project.add, Array.getElem?_push, if_neg (Nat.ne_of_lt bound), found]

end Grows

theorem grows_unsupported (s : Sheet) (lo : Nat) (construct : String) :
    Grows [] (s.unsupported lo construct) fun _ => [] :=
  .report _

theorem grows_forIn {α : Type} (xs : List α) {body : α → PUnit → StateM Draft (ForInStep PUnit)}
    (each : ∀ x u, Grows [] (body x u) fun _ => []) (u : PUnit) :
    Grows [] (forIn xs u body) fun _ => [] := by
  induction xs generalizing u with
  | nil => exact .pure u (.refl _)
  | cons x xs ih =>
    rw [List.forIn_cons]
    refine (each x u).bind fun step => ?_
    cases step with
    | done u => exact .pure u (.refl _)
    | yield u => exact ih u

theorem grows_flags (s : Sheet) (kind : Kind) (lo : Nat) : Grows [] (s.flags kind lo) fun _ => [] := by
  unfold Sheet.flags
  refine Grows.bind (grows_forIn _ ?_ _) fun _ => .pure _ (.refl _)
  intro index u
  split
  · exact (Grows.report _).bind fun _ => .pure _ (.refl _)
  · exact .pure _ (.refl _)

section Members

attribute [local simp] Role.Admits Role.kinds Role.isDocumented Node.kind Body.kind

theorem grows_addGenerics (ps : List TypeParameter) :
    Grows [] (addGenerics ps) fun ids => ids.map (·, .generic) := by
  unfold addGenerics
  induction ps with
  | nil => exact .pure _ (.refl _)
  | cons p ps ih =>
    rw [List.mapM_cons]
    refine Grows.bind (Grows.add (r := .generic) rfl (by simp)) fun id => ?_
    refine (ih.frame [(id, .generic)]).bind fun ids => ?_
    exact .pure _ (List.perm_append_singleton _ _).symm

theorem grows_addParameters (index : Nat) (ps : List Parameter) :
    Grows [] (addParameters index ps) fun ids => ids.map (·, .parameter) := by
  induction ps generalizing index with
  | nil => exact .pure _ (.refl _)
  | cons p ps ih =>
    unfold addParameters
    refine Grows.bind (Grows.add (r := .parameter) rfl (by simp)) fun id => ?_
    refine ((ih (index + 1)).frame [(id, .parameter)]).bind fun ids => ?_
    exact .pure _ (List.perm_append_singleton _ _).symm

/-- The places of a signature. -/
def signaturePlaces (s : Signature) : List (NodeId × Role) :=
  s.parameters.map (·, .parameter) ++ s.typeParameters.map (·, .generic)

theorem grows_addSignature (f : Function) : Grows [] (addSignature f) signaturePlaces := by
  unfold addSignature
  refine (grows_addParameters 0 f.parameters).bind fun parameters => ?_
  refine ((grows_addGenerics f.generics).frame _).bind fun generics => ?_
  exact .pure _ List.perm_append_comm

/-- The places of the members of a class or interface. -/
def memberPlaces (ids : MemberIds) : List (NodeId × Role) :=
  ids.properties.map (·, .property) ++ ids.methods.map (·, .method)

theorem grows_addMember (s : Sheet) (ids : MemberIds) (m : Member) :
    Grows (memberPlaces ids) (s.addMember ids m) memberPlaces := by
  have property : ∀ id, memberPlaces { ids with properties := ids.properties ++ [id] } ~
      [(id, .property)] ++ memberPlaces ids := by
    intro id
    simp only [memberPlaces, List.map_append, List.map_singleton, ← List.append_assoc]
    exact List.perm_append_comm.append_right _
  have method : ∀ id, memberPlaces { ids with methods := ids.methods ++ [id] } ~
      [(id, .method)] ++ memberPlaces ids := by
    intro id
    simp only [memberPlaces, List.map_append, List.map_singleton, ← List.append_assoc]
    exact List.perm_append_comm
  cases m with
  | property lo name type optional modifiers =>
    refine ((grows_flags s .property lo).frame _).bind fun flags => ?_
    refine Grows.bind (Grows.frame (Grows.add (r := .property) ?_ (by simp)) _) fun id => ?_
    · rfl
    · exact .pure _ (property id)
  | method lo name f optional modifiers =>
    refine ((grows_flags s .method lo).frame _).bind fun flags => ?_
    refine ((grows_addSignature f).frame _).bind fun signature => ?_
    refine Grows.bind (Grows.frame (Grows.add (r := .method) ?_ (by simp)) _) fun id => ?_
    · rfl
    · exact .pure _ (method id)
  | constructor lo ps =>
    refine ((grows_flags s .constructor lo).frame _).bind fun flags => ?_
    refine ((grows_addParameters 0 ps).frame _).bind fun parameters => ?_
    refine Grows.bind (Grows.frame (Grows.add (r := .method) ?_ (by simp)) _) fun id => ?_
    · exact List.append_nil _
    · exact .pure _ (method id)
  | skipped lo construct =>
    refine ((grows_unsupported s lo construct).frame _).bind fun _ => ?_
    exact .pure _ (.refl _)
  | empty => exact .pure _ (.refl _)

theorem grows_foldlM_addMember (s : Sheet) (ms : List Member) (ids : MemberIds) :
    Grows (memberPlaces ids) (ms.foldlM s.addMember ids) memberPlaces := by
  induction ms generalizing ids with
  | nil => exact .pure _ (.refl _)
  | cons m ms ih =>
    rw [List.foldlM_cons]
    exact (grows_addMember s ids m).bind ih

theorem grows_addMembers (s : Sheet) (ms : List Member) : Grows [] (s.addMembers ms) memberPlaces :=
  grows_foldlM_addMember s ms {}

theorem grows_addBindings (s : Sheet) (flags : Doc.Flags) (isConst : Bool) (bs : List Binding) :
    Grows [] (s.addBindings flags isConst bs) fun ids => ids.map (·, .declaration) := by
  induction bs with
  | nil => exact .pure _ (.refl _)
  | cons b bs ih =>
    cases b with
    | named name type =>
      unfold Sheet.addBindings
      refine Grows.bind (Grows.add (r := .declaration) rfl (by simp)) fun id => ?_
      refine (ih.frame [(id, .declaration)]).bind fun ids => ?_
      exact .pure _ (List.perm_append_singleton _ _).symm
    | pattern lo =>
      unfold Sheet.addBindings
      exact (grows_unsupported s lo _).bind fun _ => ih

mutual

theorem grows_addItem (s : Sheet) : ∀ item : Item,
    Grows [] (s.addItem item) fun ids => ids.map (·, .declaration)
  | .vars lo isConst bs => by
    unfold Sheet.addItem
    exact (grows_flags s .var lo).bind fun flags => grows_addBindings s flags isConst bs
  | .function lo name f => by
    unfold Sheet.addItem
    refine (grows_flags s .function lo).bind fun flags => ?_
    refine (grows_addSignature f).bind fun signature => ?_
    exact Grows.bind (Grows.add (r := .declaration) rfl (by simp)) fun id => .pure _ (.refl _)
  | .classDecl lo name generics bases interfaces ms => by
    unfold Sheet.addItem
    refine (grows_flags s .classDecl lo).bind fun flags => ?_
    refine (grows_addGenerics generics).bind fun generics => ?_
    refine ((grows_addMembers s ms).frame _).bind fun ids => ?_
    exact Grows.bind (Grows.add (r := .declaration) rfl (by simp)) fun id => .pure _ (.refl _)
  | .interface lo name generics bases ms => by
    unfold Sheet.addItem
    refine (grows_flags s .interface lo).bind fun flags => ?_
    refine (grows_addGenerics generics).bind fun generics => ?_
    refine ((grows_addMembers s ms).frame _).bind fun ids => ?_
    exact Grows.bind (Grows.add (r := .declaration) rfl (by simp)) fun id => .pure _ (.refl _)
  | .typeAlias lo name generics type => by
    unfold Sheet.addItem
    refine (grows_flags s .typeAlias lo).bind fun flags => ?_
    refine (grows_addGenerics generics).bind fun generics => ?_
    exact Grows.bind (Grows.add (r := .declaration) rfl (by simp)) fun id => .pure _ (.refl _)
  | .enum lo name ms => by
    unfold Sheet.addItem
    refine (grows_flags s .enum lo).bind fun flags => ?_
    exact Grows.bind (Grows.add (r := .declaration) rfl (by simp)) fun id => .pure _ (.refl _)
  | .namespaceDecl lo name items => by
    unfold Sheet.addItem
    refine (grows_flags s .namespaceDecl lo).bind fun flags => ?_
    refine (grows_addItems s items).bind fun children => ?_
    exact Grows.bind (Grows.add (r := .declaration) rfl (by simp)) fun id => .pure _ (.refl _)
  | .skipped lo construct => by
    unfold Sheet.addItem
    exact (grows_unsupported s lo construct).bind fun _ => .pure _ (.refl _)
  | .empty => by
    unfold Sheet.addItem
    exact .pure _ (.refl _)

theorem grows_addItems (s : Sheet) : ∀ items : List Item,
    Grows [] (s.addItems items) fun ids => ids.map (·, .declaration)
  | [] => by
    unfold Sheet.addItems
    exact .pure _ (.refl _)
  | item :: items => by
    unfold Sheet.addItems
    refine (grows_addItem s item).bind fun ids => ?_
    refine ((grows_addItems s items).frame _).bind fun more => ?_
    refine .pure _ ?_
    rw [List.map_append]
    exact List.perm_append_comm

end

/-- Whatever a file holds, its node is all that waits once the file is added. -/
theorem grows_addFile (s : Sheet) (name : String) :
    Grows [] (s.addFile name) fun id => [(id, .file)] :=
  (grows_addItems s s.file.items).bind fun _ => .add rfl (by simp)

end Members

end DocLocale.Project
