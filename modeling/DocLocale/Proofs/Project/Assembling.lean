import DocLocale.Proofs.Project.Outlining
import DocLocale.Proofs.Render.KeyCoverage
import DocLocale.Proofs.Render.Printing

/-!
Trees of files. Main statement: files that can be read, whatever is read in them, always give a tree, every node
of it stands in a place that takes it, and it can be rendered whatever the key map.
-/

set_option autoImplicit false
set_option relaxedAutoImplicit false

namespace DocLocale.Project

open scoped List

variable {read? : Reader}

/-- A node that stands for a file. -/
private def IsFileOf (i : Input) (n : Node) : Prop := n.name = i.name ∧ Role.file.Admits n

/-- What adding files leaves behind: their nodes wait in the order of the files. -/
private structure Added (inputs : List Input) (d : Draft) (ids : List NodeId) (after : Draft) : Prop where
  forest : ∀ rest, Forest d.nodes rest → Forest after.nodes (ids.map (·, .file) ++ rest)
  stays : ∀ (id : NodeId) (n : Node), d.nodes[id]? = some n → after.nodes[id]? = some n
  files : List.Forall₂ (fun i id => ∃ n, after.nodes[id]? = some n ∧ IsFileOf i n) inputs ids

private theorem exists_addFile (file : Source.File) (i : Input) (d : Draft) :
    ∃ n, (Sheet.addFile ⟨file, i.path⟩ i.name d).2.nodes[(Sheet.addFile ⟨file, i.path⟩ i.name d).1]? =
      some n ∧ IsFileOf i n :=
  ⟨_, Array.getElem?_push_size, rfl, List.mem_singleton_self _, rfl⟩

private theorem addInputs_cons (i : Input) (inputs : List Input) (d : Draft) :
    addInputs read? (i :: inputs) d =
      match read? i.text with
      | none => .error (.unreadable i.path)
      | some file =>
        match addInputs read? inputs (Sheet.addFile ⟨file, i.path⟩ i.name d).2 with
        | .ok (ids, after) => .ok ((Sheet.addFile ⟨file, i.path⟩ i.name d).1 :: ids, after)
        | .error e => .error e :=
  rfl

private theorem added_of_addInputs {inputs : List Input} {d after : Draft} {ids : List NodeId}
    (added : addInputs read? inputs d = .ok (ids, after)) : Added inputs d ids after := by
  induction inputs generalizing d ids with
  | nil =>
    cases added
    exact ⟨fun _ forest => forest, fun _ _ found => found, .nil⟩
  | cons i inputs ih =>
    rw [addInputs_cons] at added
    split at added
    · cases added
    · rename_i file parsed
      split at added
      · rename_i later next rest
        cases added
        have grows := grows_addFile ⟨file, i.path⟩ i.name
        have tail := ih rest
        obtain ⟨n, present, stands⟩ := exists_addFile file i d
        refine ⟨?_, ?_, .cons ⟨n, tail.stays _ n present, stands⟩ tail.files⟩
        · intro others forest
          have first := tail.forest _ (grows.forest d others forest)
          exact first.perm List.perm_middle.symm
        · intro id m found
          exact tail.stays id m (grows.stays d id m found)
      · cases added

private theorem addInputs_of_readable {inputs : List Input}
    (readable : ∀ i ∈ inputs, (read? i.text).isSome) (d : Draft) :
    ∃ ids after, addInputs read? inputs d = .ok (ids, after) := by
  induction inputs generalizing d with
  | nil => exact ⟨[], d, rfl⟩
  | cons i inputs ih =>
    obtain ⟨file, parsed⟩ := Option.isSome_iff_exists.mp (readable i List.mem_cons_self)
    obtain ⟨ids, after, rest⟩ := ih (fun other member => readable other (List.mem_cons_of_mem _ member))
      (Sheet.addFile ⟨file, i.path⟩ i.name d).2
    refine ⟨(Sheet.addFile ⟨file, i.path⟩ i.name d).1 :: ids, after, ?_⟩
    simp only [addInputs_cons, parsed, rest]

/-- The root over the files takes them all in. -/
private theorem Added.rooted {inputs : List Input} {ids : List NodeId} {d : Draft}
    (added : Added inputs {} ids d) :
    Forest (d.nodes.push ⟨rootName, none, .root ids, none⟩) [(d.nodes.size, .top)] :=
  Forest.push (added.forest [] .empty) ⟨List.mem_singleton_self _, rfl⟩

theorem assembleWith_of_addInputs {inputs : List Input} {ids : List NodeId} {d : Draft}
    (added : addInputs read? inputs {} = .ok (ids, d)) :
    assembleWith read? inputs =
      match Tree.finish (d.nodes.push ⟨rootName, none, .root ids, none⟩) d.nodes.size with
      | .ok t => .ok ⟨t, d.issues.toList⟩
      | .error e => .error (.noTree e) := by
  rw [assembleWith, added]
  rfl

/-- A tree of files is wired, and every node stands in a place that takes it. -/
theorem wellKinded_of_assembleWith {inputs : List Input} {a : Assembly}
    (assembled : assembleWith read? inputs = .ok a) : a.tree.Wired ∧ a.tree.WellKinded := by
  cases added : addInputs read? inputs {} with
  | error e =>
    rw [assembleWith, added] at assembled
    cases assembled
  | ok result =>
    obtain ⟨ids, d⟩ := result
    rw [assembleWith_of_addInputs added] at assembled
    split at assembled
    · rename_i t finished
      cases assembled
      exact ⟨Tree.wired_of_finish finished, (added_of_addInputs added).rooted.wellKinded finished⟩
    · cases assembled

/-- The files of a tree hang below its root in their order. -/
private theorem Added.files_of_finish {inputs : List Input} {ids : List NodeId} {d : Draft}
    (added : Added inputs {} ids d) {t : Tree}
    (finished : Tree.finish (d.nodes.push ⟨rootName, none, .root ids, none⟩) d.nodes.size = .ok t) :
    List.Forall₂ (fun i c => ∃ n, t.node? c = some n ∧ n.name = i.name ∧ Role.file.Admits n) inputs
      (t.children t.root) := by
  have top : t.node? t.root = some ⟨rootName, none, .root ids, t.parent? t.root⟩ := by
    rw [Tree.node?_of_finish finished, Tree.root_of_finish finished, Array.getElem?_push_size]
    rfl
  have children : t.children t.root = ids := by
    simp only [Tree.children, top, Body.children]
  rw [children]
  refine added.files.imp ?_
  rintro i id ⟨n, present, stands⟩
  have later : (d.nodes.push ⟨rootName, none, .root ids, none⟩)[id]? = some n := by
    obtain ⟨bound, -⟩ := Array.getElem?_eq_some_iff.mp present
    rw [Array.getElem?_push, if_neg (Nat.ne_of_lt bound), present]
  refine ⟨{ n with parent := t.parent? id }, ?_, stands⟩
  rw [Tree.node?_of_finish finished, later, Option.map_some]

/-- Files that can be read give a tree, whatever is read in them. Its root owns them in their order, every node
stands in a place that takes it, and the tree is rendered under every key map. -/
theorem assembleWith_wellKinded {inputs : List Input} (readable : ∀ i ∈ inputs, (read? i.text).isSome) :
    ∃ a, assembleWith read? inputs = .ok a ∧
      List.Forall₂ (fun i c => ∃ n, a.tree.node? c = some n ∧ n.name = i.name ∧ Role.file.Admits n) inputs
        (a.tree.children a.tree.root) ∧
      a.tree.WellKinded ∧
      ∀ (languages : List String) (language : String) (maxWidth : Nat) (style : Render.Style)
        (keys : KeyMap), ∃ text,
          (Render.renderWith a.tree languages language maxWidth style keys).1 = .ok text := by
  obtain ⟨ids, d, added⟩ := addInputs_of_readable readable {}
  have invariant := added_of_addInputs added
  obtain ⟨t, finished⟩ := Tree.exists_finish invariant.rooted.spanning
  have assembled : assembleWith read? inputs = .ok ⟨t, d.issues.toList⟩ := by
    rw [assembleWith_of_addInputs added, finished]
  obtain ⟨wired, wellKinded⟩ := wellKinded_of_assembleWith assembled
  refine ⟨_, assembled, invariant.files_of_finish finished, wellKinded, ?_⟩
  intro languages language maxWidth style keys
  let src : Render.Source := ⟨t, .ofLanguage keys language maxWidth, languages⟩
  obtain ⟨text, rendered⟩ : ∃ text, Render.renderText src style = (.ok text, _) :=
    Render.renderText_ok wired wellKinded style
  exact ⟨text, congrArg Prod.fst rendered⟩

/-- A file with nested and dotted namespaces, accessors, patterns, an import and an unknown tag. -/
private def mixedText : String :=
  "/** @since 1 */\ndeclare namespace A.B \x7b class C<T> \x7b get x(): T; m(a: T): void; " ++
    "constructor(\x7b p \x7d: T); \x7d \x7d\nimport q from \"q\";\n" ++
    "declare const \x7b u \x7d: V, w: W;\n"

theorem assembleWith_wellKinded_mixed :
    (∀ i ∈ [Input.mk "mixed" "mixed.d.ts" mixedText, Input.mk "empty" "empty.d.ts" ""],
      (Source.File.parse? i.text).isSome) ∧
    ∃ a, assemble [⟨"mixed", "mixed.d.ts", mixedText⟩, ⟨"empty", "empty.d.ts", ""⟩] = .ok a ∧
      a.tree.WellKinded ∧
      ∃ text, (Render.renderWith a.tree ["ts"] "en_us" 80 {} ⟨[("mixed.w.text0", .string "W")]⟩).1 =
        .ok text := by
  have readable : ∀ i ∈ [Input.mk "mixed" "mixed.d.ts" mixedText, Input.mk "empty" "empty.d.ts" ""],
      (Source.File.parse? i.text).isSome := by
    decide +kernel
  obtain ⟨a, assembled, -, wellKinded, rendered⟩ := assembleWith_wellKinded readable
  exact ⟨readable, a, assembled, wellKinded, rendered _ _ _ _ _⟩

end DocLocale.Project
