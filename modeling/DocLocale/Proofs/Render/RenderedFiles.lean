import DocLocale.Proofs.Project.Assembling
import DocLocale.Proofs.Render.DeclarationRows
import DocLocale.Proofs.Render.KeyCoverage
import DocLocale.Proofs.Render.PlainNodes

/-!
Rendered files, read again. Main statements: the text that is rendered for one file is read as what the tree over it
shows, and the keys of what is read are the old ones and the default keys of what was rendered without a comment.
-/

set_option autoImplicit false
set_option relaxedAutoImplicit false

namespace DocLocale

open Source (File IsNewline IsBreak DocComment Item GivesRows headerChars isLineEnd)
open Source.Grammar (knot level readsStatements_file)
open Text (byteLength)

namespace Render

variable {style : Style} {t : Tree} {languages : List String} {language : String} {maxWidth : Nat}

/-- The tree over one file: the nodes of the root and of the file. -/
structure OverFile (t : Tree) (name : String) (file : NodeId) (items : List NodeId) : Prop where
  root : ∃ parent, t.node? t.root = some ⟨Project.rootName, none, .root [file], parent⟩
  file : ∃ parent, t.node? file = some ⟨name, none, .sourceFile items, parent⟩

section
variable {name : String} {file : NodeId} {items : List NodeId} (covers : OverFile t name file items)

include covers

/-- A file whose items are read as what their nodes show is read as what the tree shows. -/
theorem OverFile.shows {f : File} (given : GivesRows (ShowsItem t.reread) items f.comment? f.items) :
    (f.view name).Shows t.reread t.reread.root := by
  obtain ⟨⟨parent, root⟩, parent', inside⟩ := covers
  have rootNode : t.reread.node? t.root = some ⟨Project.rootName, none, .root [file], parent⟩ := by
    rw [Tree.node?_reread, root]
    rfl
  have fileNode : t.reread.node? file = some ⟨name, none, .sourceFile items, parent'⟩ := by
    rw [Tree.node?_reread, inside]
    rfl
  exact .intro rootNode rfl rfl rfl .nil (.cons (.intro fileNode rfl rfl rfl .nil (shows_itemViews given)) .nil)

/-- What is rendered is the text of the file. -/
private theorem OverFile.rendered (wired : t.Wired) (wellKinded : t.WellKinded) (style : Style) (languages : List String)
    (language : String) (maxWidth : Nat) :
    ∃ fuel codes, (renderWith t languages language maxWidth style {}).1 = .ok ((Code.file name codes).render style 0) ∧
      (generateAll (generateFrom (untranslated t languages language maxWidth) fuel) items).1 = .ok codes := by
  obtain ⟨⟨parent, root⟩, parent', inside⟩ := covers
  let src := untranslated t languages language maxWidth
  obtain ⟨text, rendered⟩ : ∃ text, renderText src style = (.ok text, _) := renderText_ok wired wellKinded style
  obtain ⟨code, generated, made⟩ : ∃ code, (generate src t.root).1 = .ok code ∧ text = code.render style 0 :=
    exists_of_map (congrArg Prod.fst rendered)
  obtain ⟨bare, whole, rfl⟩ := exists_bareCode_of_generated src root generated
  obtain ⟨codes, below, rfl⟩ : ∃ codes, (generateAll (generateFrom src t.size) [file]).1 = .ok codes ∧ bare = .root codes :=
    exists_of_map whole
  obtain ⟨rfl, each⟩ := generateAll_eq_map below
  have first := each file List.mem_cons_self
  obtain ⟨fuel, size⟩ : ∃ fuel, t.size = fuel + 1 :=
    Nat.exists_eq_succ_of_ne_zero (Nat.ne_zero_of_lt (Tree.lt_size_of_node? root))
  rw [size] at first
  obtain ⟨inner, own, same⟩ := exists_bareCode_of_generated src inside first
  obtain ⟨codes, below, rfl⟩ : ∃ codes, (generateAll (generateFrom src fuel) items).1 = .ok codes ∧ inner = .file name codes :=
    exists_of_map own
  refine ⟨fuel, codes, ?_, below⟩
  rw [renderWith, rendered, made, List.map_cons, size, same]
  simp [Code.withComment, Code.render, renderAll]

end

theorem isBreak_newline (newline : IsNewline style.newline) : IsBreak style.newline.toList := by
  have broken : ∃ c more, style.newline.toList = c :: more ∧ isLineEnd c = true := by
    rcases newline with same | same
    all_goals
      rw [same]
      exact ⟨_, _, rfl, by decide⟩
  exact ⟨isBlankText_newline newline, broken⟩

/-- The text of a file is its header and its rows. -/
private theorem toList_file (style : Style) {codes : List Code} (nonempty : codes ≠ []) (rows : ∀ c ∈ codes, c.IsRow) (name : String) :
    ((Code.file name codes).render style 0).toList = headerChars style.newline.toList (" file: ".toList ++ name.toList) ++
      (codes.flatMap (Code.row style 0) ++ style.newline.toList) := by
  have some : codes.isEmpty = false := by simpa using nonempty
  have comment : "// file: ".toList = '/' :: '/' :: " file: ".toList := rfl
  rw [Code.render, if_neg (by simp [some]), ← newline_renderAll style rows, headerChars]
  simp [comment]

private theorem plain_title {name : String} (named : ∀ c ∈ name.toList, isLineEnd c = false) :
    ∀ c ∈ " file: ".toList ++ name.toList, isLineEnd c = false := by
  intro c member
  rcases List.mem_append.mp member with word | part
  · have plain : ∀ c ∈ " file: ".toList, isLineEnd c = false := by simp [isLineEnd]
    exact plain c word
  · exact named c part

/-- The rows of a file start behind the line of its header. -/
private theorem exists_rows_eq (generate : NodeId → Generated Code) {items : List NodeId} (nonempty : items ≠ []) :
    ∃ more, items.flatMap (rowAt style 0 generate) ++ style.newline.toList = style.newline.toList ++ more := by
  obtain ⟨first, others, rfl⟩ := List.exists_cons_of_ne_nil nonempty
  rw [List.flatMap_cons, rowAt, Code.row, gapChars]
  simp only [List.append_assoc]
  exact ⟨_, rfl⟩

/-- Where every node is legible, what is rendered for a file is read as what the tree shows with the documentation of its
comments. -/
theorem OverFile.parsed {name : String} {file : NodeId} {items : List NodeId} (covers : OverFile t name file items)
    (wired : t.Wired) (wellKinded : t.WellKinded) (printable : Printable t languages maxWidth)
    (legible : ∀ id n, t.node? id = some n → Legible t n) (newline : IsNewline style.newline) (language : String) :
    ∃ out f, (renderWith t languages language maxWidth style {}).1 = .ok out ∧ File.parse? out = some f ∧
      (f.view name).Shows t.reread t.reread.root := by
  obtain ⟨fuel, codes, rendered, generated⟩ := covers.rendered wired wellKinded style languages language maxWidth
  obtain ⟨parent, inside⟩ := covers.file
  have rows := rows_of_declarations wellKinded inside rfl rfl generated
  obtain ⟨rfl, each⟩ := generateAll_eq_map generated
  by_cases empty : items = []
  · obtain ⟨f, parsed, none⟩ : ∃ f, File.parse? "" = some f ∧ f.items = [] := ⟨_, rfl, rfl⟩
    subst empty
    refine ⟨_, f, rendered, parsed, covers.shows ?_⟩
    rw [none]
    exact .nil
  let generate := generateFrom (untranslated t languages language maxWidth) fuel
  have written := toList_file style (by simpa using empty) rows name
  rw [List.flatMap_map] at written
  change _ = _ ++ (items.flatMap (rowAt style 0 generate) ++ _) at written
  obtain ⟨more, starts⟩ := exists_rows_eq generate empty
  -- the statements of a file are read one level below the file
  obtain ⟨deep, levels⟩ : ∃ deep,
      File.depth (byteLength ((Code.file name (items.map (codeAt generate))).render style 0).toList) = deep + 2 :=
    ⟨_, (Nat.sub_add_cancel (by unfold File.depth; omega)).symm⟩
  obtain ⟨f, parsed, given⟩ := File.parse?_rows written starts (plain_title (legible file _ inside))
    (isBreak_newline newline) empty fun c member => by
      obtain ⟨m, r, there, kind, flagged⟩ := exists_declaration wellKinded inside rfl member
      have printed : Printed t languages language maxWidth fuel c m r (codeAt generate c) := ⟨there, flagged, each c member⟩
      rw [levels]
      refine printed.reads wellKinded printable legible newline le_rfl kind deep ?_ (readsStatements_file (knot (deep + 1)))
      have within := byteLength_le_flatMap (rowAt style 0 generate) member
      rw [← levels, written]
      simp only [File.depth, Text.byteLength_append, rowAt] at within ⊢
      omega
  exact ⟨_, f, rendered, parsed, covers.shows given⟩

end Render

namespace Project

open Render

end Project

end DocLocale
