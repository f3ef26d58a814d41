import DocLocale.Proofs.Render.Positions

/-!
What is emitted for a tree of any kinds in any places. Main statement: rendering fails exactly if a parameter or a
generic stands in declaration position, and names the first of them on a walk; otherwise every node in declaration
position but roots and files is emitted once, in the order of the walk.
-/

set_option autoImplicit false
set_option relaxedAutoImplicit false

namespace DocLocale

open scoped List

namespace Text

/-- The parts stand in the text in this order, each behind the one before it. -/
inductive InOrder : List String → String → Prop
  | nil (text : String) : InOrder [] text
  | cons {part rest : String} {parts : List String} (before : String) (later : InOrder parts rest) :
      InOrder (part :: parts) (before ++ (part ++ rest))

namespace InOrder

variable {parts more : List String} {text rest : String}

theorem behind (inOrder : InOrder parts text) (front : String) : InOrder parts (front ++ text) := by
  cases inOrder with
  | nil => exact .nil _
  | cons before later =>
    rw [← String.append_assoc]
    exact .cons (front ++ before) later

theorem append (first : InOrder parts text) (second : InOrder more rest) :
    InOrder (parts ++ more) (text ++ rest) := by
  induction first with
  | nil text => exact second.behind text
  | cons before _ ih =>
    rw [String.append_assoc, String.append_assoc]
    exact .cons before ih

end InOrder

end Text

namespace Render

open Text (InOrder)

/-- A declaration or the header of a block: its tokens, the text behind them, and the comment above. -/
structure Piece where
  tokens : List String
  ending : String
  above : Option (List String)
  deriving DecidableEq, Repr

/-- The line of a piece. -/
def Piece.text (p : Piece) : String := tokenText p.tokens ++ p.ending

mutual
/-- The declarations and blocks of code, each block before what is in it. -/
def Code.pieces : Code → List Piece
  | .declaration tokens above => [⟨tokens, ";", above⟩]
  | .member .. => []
  | .block header body opening _ above => ⟨header, opening, above⟩ :: piecesAll body
  | .file _ body => piecesAll body
  | .root files => piecesAll files

/-- The declarations and blocks of several pieces of code. -/
def piecesAll : List Code → List Piece
  | [] => []
  | code :: codes => code.pieces ++ piecesAll codes
end

section Layout

variable (s : Style)

private theorem inOrder_line (depth : Int) (word : String) (p : Piece) (behind : String) :
    InOrder [p.text] (s.line depth (word ++ tokenText p.tokens ++ p.ending ++ behind)) := by
  have shape : s.line depth (word ++ tokenText p.tokens ++ p.ending ++ behind) =
      s.indent depth ++ word ++ (p.text ++ (behind ++ s.newline)) := by
    simp only [Style.line, Piece.text, String.append_assoc]
  rw [shape]
  exact .cons _ (.nil _)

/-- A block shows its header, and behind it whatever its body shows. -/
private theorem inOrder_block (depth : Int) (word : String) (p : Piece) {body : String} (closing : String)
    {parts : List String} (inner : InOrder parts body) :
    InOrder (p.text :: parts) (block s depth p.above word p.tokens p.ending body closing) := by
  rw [block]
  apply InOrder.behind
  split
  · rename_i empty
    rw [String.isEmpty_iff.mp empty] at inner
    have line := (inOrder_line s depth word p closing).append inner
    rwa [String.append_empty] at line
  · have line := inOrder_line s depth word p ""
    rw [String.append_empty] at line
    have whole := (line.append inner).append (.nil (s.line depth closing))
    rwa [List.append_nil] at whole

mutual
/-- The text of code shows its declarations and blocks in their order. -/
theorem Code.inOrder_render (depth : Int) : ∀ code : Code,
    InOrder (code.pieces.map Piece.text) (code.render s depth)
  | .declaration tokens above => by
    have line := inOrder_line s depth (declareWord depth) ⟨tokens, ";", above⟩ ""
    rw [String.append_empty] at line
    rw [Code.render, statement]
    exact line.behind _
  | .member .. => by
    rw [Code.pieces]
    exact .nil _
  | .block header body opening closing above => by
    rw [Code.pieces, Code.render]
    exact inOrder_block s depth _ ⟨header, opening, above⟩ closing (inOrder_renderAll (depth + 1) body)
  | .file name body => by
    rw [Code.pieces, Code.render]
    split
    · rename_i empty
      rw [List.isEmpty_iff.mp empty]
      exact .nil _
    · exact (inOrder_renderAll 0 body).behind _
  | .root files => by
    rw [Code.pieces, Code.render]
    exact inOrder_renderAll 0 files

theorem inOrder_renderAll (depth : Int) : ∀ codes : List Code,
    InOrder ((piecesAll codes).map Piece.text) (renderAll s depth codes)
  | [] => .nil _
  | code :: codes => by
    rw [piecesAll, renderAll, List.map_append]
    exact (code.inOrder_render depth).append (inOrder_renderAll depth codes)
end

end Layout

section Generation

/-- Kinds whose nodes are not emitted themselves. -/
def isFrame (k : Kind) : Bool := k = .root || k = .sourceFile

/-- Every node below has code that shows nothing. -/
def hollow : NodeId → Generated Code := fun _ => (.ok (.root []), [])

/-- What is emitted for a node itself, apart from the nodes below it. -/
def ownPieces (src : Source) (id : NodeId) : List Piece :=
  match src.tree.node? id with
  | some n =>
    match (bareCode src.tree hollow n).1 with
    | .ok code => (code.withComment (commentOf src id).1).pieces
    | .error _ => []
  | none => []

/-- The code of a node that can be printed is a shell around the code of the nodes printed below it, and shows one
piece of its own unless the node is a root or a file. -/
private theorem bareCode_shell (t : Tree) {n : Node} (kind : n.kind.isPrinted = true) :
    ∃ shell : List Code → Code,
      (∀ generate, (bareCode t generate n).1 = (generateAll generate n.body.printed).1.map shell) ∧
      (∀ codes above, codes.length = n.body.printed.length →
        ((shell codes).withComment above).pieces = ((shell []).withComment above).pieces ++ piecesAll codes) ∧
      ∀ above, ((shell []).withComment above).pieces.length = if isFrame n.kind then 0 else 1 := by
  obtain ⟨name, flags, body, parent⟩ := n
  cases body with
  | param | typeParameter => cases kind
  | var | function | property | method | constructor | typeAlias =>
    refine ⟨fun _ => .declaration _ none, fun _ => rfl, fun codes above none => ?_, fun _ => rfl⟩
    rw [List.length_eq_zero_iff.mp none, piecesAll, List.append_nil]
  | enum members =>
    have silent : piecesAll (members.map fun m => .member [m.name, "=", m.value] none) = [] := by
      induction members with
      | nil => rfl
      | cons m members ih =>
        rw [List.map_cons, piecesAll, ih kind]
        rfl
    refine ⟨fun _ => .block _ (members.map fun m => .member [m.name, "=", m.value] none) _ _ none, fun _ => rfl,
      fun codes above none => ?_, fun _ => ?_⟩
    · rw [List.length_eq_zero_iff.mp none, piecesAll, List.append_nil]
    · rw [Code.withComment, Code.pieces, silent]
      rfl
  | classDecl shape interfaces | interface shape | namespaceDecl ids =>
    exact ⟨fun codes => .block _ codes _ _ none, fun _ => rfl, fun _ _ _ => rfl, fun _ => rfl⟩
  | sourceFile ids => exact ⟨.file name, fun _ => rfl, fun _ _ _ => rfl, fun _ => rfl⟩
  | root ids => exact ⟨.root, fun _ => rfl, fun _ _ _ => rfl, fun _ => rfl⟩

/-- Parameters and generics have no code. -/
private theorem bareCode_inline (t : Tree) (generate : NodeId → Generated Code) {n : Node}
    (kind : n.kind.isPrinted = false) : bareCode t generate n = (.error ⟨n.name, n.kind⟩, []) := by
  obtain ⟨name, flags, body, parent⟩ := n
  cases body with
  | param | typeParameter => rfl
  | _ => cases kind

/-- Generating stops at the first node that has no code. -/
private theorem generateAll_cons (generate : NodeId → Generated Code) (id : NodeId) (ids : List NodeId) :
    (generateAll generate (id :: ids)).1 =
      (generate id).1.bind fun code => (generateAll generate ids).1.map (code :: ·) := by
  rw [generateAll]
  split <;> rename_i first <;> rw [first] <;> rfl

private theorem length_of_generateAll {generate : NodeId → Generated Code} {ids : List NodeId} {codes : List Code}
    (generated : (generateAll generate ids).1 = .ok codes) : codes.length = ids.length := by
  induction ids generalizing codes with
  | nil =>
    cases generated
    rfl
  | cons id ids ih =>
    rw [generateAll_cons] at generated
    cases first : (generate id).1 with
    | error e =>
      rw [first] at generated
      cases generated
    | ok code =>
      cases rest : (generateAll generate ids).1 with
      | error e =>
        rw [first, rest] at generated
        cases generated
      | ok more =>
        rw [first, rest] at generated
        cases generated
        rw [List.length_cons, List.length_cons, ih rest]

private theorem generateAll_hollow (ids : List NodeId) :
    ∃ codes, (generateAll hollow ids).1 = .ok codes ∧ piecesAll codes = [] := by
  induction ids with
  | nil => exact ⟨[], rfl, rfl⟩
  | cons id ids ih =>
    obtain ⟨codes, generated, silent⟩ := ih
    refine ⟨.root [] :: codes, ?_, ?_⟩
    · rw [generateAll_cons, generated]
      rfl
    · rw [piecesAll, silent]
      rfl

variable {src : Source}

/-- A node that can be printed shows its own pieces before those of the nodes printed below it. -/
private theorem bareCode_pieces {id : NodeId} {n : Node} (found : src.tree.node? id = some n)
    (kind : n.kind.isPrinted = true) {generate : NodeId → Generated Code} {codes : List Code}
    (below : (generateAll generate n.body.printed).1 = .ok codes) :
    ∃ code, (bareCode src.tree generate n).1 = .ok code ∧
      (code.withComment (commentOf src id).1).pieces = ownPieces src id ++ piecesAll codes := by
  obtain ⟨shell, bare, pieces, -⟩ := bareCode_shell src.tree kind
  obtain ⟨nothing, hollowed, silent⟩ := generateAll_hollow n.body.printed
  refine ⟨shell codes, by rw [bare, below]; rfl, ?_⟩
  have own : ownPieces src id = ((shell []).withComment (commentOf src id).1).pieces := by
    simp only [ownPieces, found, bare, hollowed, Except.map]
    rw [pieces _ _ (length_of_generateAll hollowed), silent, List.append_nil]
  rw [pieces _ _ (length_of_generateAll below), own]

private theorem length_ownPieces {id : NodeId} {n : Node} (found : src.tree.node? id = some n)
    (kind : n.kind.isPrinted = true) : (ownPieces src id).length = if isFrame n.kind then 0 else 1 := by
  obtain ⟨shell, bare, pieces, single⟩ := bareCode_shell src.tree kind
  obtain ⟨nothing, hollowed, silent⟩ := generateAll_hollow n.body.printed
  simp only [ownPieces, found, bare, hollowed, Except.map]
  rw [pieces _ _ (length_of_generateAll hollowed), silent, List.append_nil, single]

/-- A node has its code with the comment above it. -/
private theorem generateFrom_succ {fuel : Nat} {id : NodeId} {n : Node} (found : src.tree.node? id = some n) :
    (generateFrom src (fuel + 1) id).1 =
      (bareCode src.tree (generateFrom src fuel) n).1.map (Code.withComment (commentOf src id).1) := by
  simp only [generateFrom, found]
  split <;> rename_i bare <;> rw [bare] <;> rfl

/-- How generating the nodes `ids` ends: with the first that is a parameter or a generic, or else with code that
shows the pieces of all of them in order. -/
private def Ends (src : Source) (ids : List NodeId) {α : Type} (pieces : α → List Piece)
    (result : Except Unrenderable α) : Prop :=
  match ids.find? src.tree.isInline with
  | some bad => ∃ n, src.tree.node? bad = some n ∧ result = .error ⟨n.name, n.kind⟩
  | none => ∃ a, result = .ok a ∧ pieces a = ids.flatMap (ownPieces src)

private theorem ends_generateAll {generate : NodeId → Generated Code} {ids : List NodeId}
    (each : ∀ id ∈ ids, Ends src (src.tree.declarations id) Code.pieces (generate id).1) :
    Ends src (ids.flatMap src.tree.declarations) piecesAll (generateAll generate ids).1 := by
  induction ids with
  | nil => exact ⟨[], rfl, rfl⟩
  | cons id ids ih =>
    have first := each id List.mem_cons_self
    have later := ih fun other member => each other (List.mem_cons_of_mem _ member)
    unfold Ends at first later ⊢
    rw [List.flatMap_cons, List.find?_append, generateAll_cons]
    cases early : (src.tree.declarations id).find? src.tree.isInline with
    | some bad =>
      rw [early] at first
      obtain ⟨n, found, failed⟩ := first
      rw [failed]
      exact ⟨n, found, rfl⟩
    | none =>
      rw [early] at first
      obtain ⟨code, generated, pieces⟩ := first
      rw [generated, Option.none_or]
      cases late : (ids.flatMap src.tree.declarations).find? src.tree.isInline with
      | some bad =>
        rw [late] at later
        obtain ⟨n, found, failed⟩ := later
        rw [failed]
        exact ⟨n, found, rfl⟩
      | none =>
        rw [late] at later
        obtain ⟨codes, others, more⟩ := later
        rw [others]
        refine ⟨code :: codes, rfl, ?_⟩
        rw [piecesAll, pieces, more, List.flatMap_append]

/-- Going down from a node ends with the first parameter or generic in declaration position, or with the pieces of
all nodes printed from it down. -/
private theorem ends_generateFrom (wired : src.tree.Wired) (fuel : Nat) {id : NodeId} (bound : id < src.tree.size)
    (enough : src.tree.size < fuel + (src.tree.lineage id).length) :
    Ends src (src.tree.declarations id) Code.pieces (generateFrom src fuel id).1 := by
  induction fuel generalizing id with
  | zero =>
    have := wired.length_lineage_le bound
    omega
  | succ fuel ih =>
    obtain ⟨n, found⟩ := Tree.exists_node? bound
    have printed : src.tree.printed id = n.body.printed := by rw [Tree.printed, found]
    have below : Ends src (n.body.printed.flatMap src.tree.declarations) piecesAll
        (generateAll (generateFrom src fuel) n.body.printed).1 := by
      apply ends_generateAll
      intro c member
      have child := Tree.printed_subset_children (printed ▸ member)
      apply ih (wired.spanning.child_lt child)
      rw [wired.lineage_child child, List.length_cons]
      omega
    rw [wired.declarations_eq bound, printed]
    unfold Ends at below ⊢
    cases kind : n.kind.isPrinted with
    | false =>
      have inline : src.tree.isInline id = true := by simp [Tree.isInline, found, kind]
      rw [List.find?_cons_of_pos inline]
      refine ⟨n, found, ?_⟩
      simp only [generateFrom, found, bareCode_inline src.tree _ kind]
    | true =>
      have proper : src.tree.isInline id = false := by simp [Tree.isInline, found, kind]
      rw [List.find?_cons_of_neg (by simp [proper]), generateFrom_succ found]
      split
      · rename_i bad early
        rw [early] at below
        obtain ⟨m, present, failed⟩ := below
        obtain ⟨shell, bare, -⟩ := bareCode_shell src.tree kind
        refine ⟨m, present, ?_⟩
        rw [bare, failed]
        rfl
      · rename_i late
        rw [late] at below
        obtain ⟨codes, generated, pieces⟩ := below
        obtain ⟨code, bare, own⟩ := bareCode_pieces found kind generated
        refine ⟨code.withComment (commentOf src id).1, by rw [bare]; rfl, ?_⟩
        rw [own, pieces, List.flatMap_cons]

/-- Nodes with at most one piece each show them in their order. -/
private theorem forall₂_ownPieces {ids : List NodeId}
    (few : ∀ id ∈ ids, ∃ n, src.tree.node? id = some n ∧ n.kind.isPrinted = true) :
    List.Forall₂ (fun id piece => ownPieces src id = [piece])
      (ids.filter fun id => (src.tree.node? id).any fun n => !isFrame n.kind) (ids.flatMap (ownPieces src)) := by
  induction ids with
  | nil => exact .nil
  | cons id ids ih =>
    obtain ⟨n, found, kind⟩ := few id List.mem_cons_self
    have later := ih fun other member => few other (List.mem_cons_of_mem _ member)
    have single := length_ownPieces found kind
    rw [List.flatMap_cons]
    cases frame : isFrame n.kind with
    | true =>
      rw [frame, if_pos rfl, List.length_eq_zero_iff] at single
      rw [List.filter_cons_of_neg (by simp [found, frame]), single]
      exact later
    | false =>
      rw [frame, if_neg (by simp), List.length_eq_one_iff] at single
      obtain ⟨piece, own⟩ := single
      rw [List.filter_cons_of_pos (by simp [found, frame]), own]
      exact .cons own later

/-- Where printing meets no parameter or generic, the nodes in declaration position but roots and files show one
piece each. -/
private theorem emitted_of_find?_eq_none (wired : src.tree.Wired)
    (none : (src.tree.declarations src.tree.root).find? src.tree.isInline = none) :
    ∃ ids, ids <+ src.tree.walk ∧
      (∀ id, id ∈ ids ↔
        src.tree.Declared id ∧ ∃ n, src.tree.node? id = some n ∧ n.kind ≠ .root ∧ n.kind ≠ .sourceFile) ∧
      List.Forall₂ (fun id piece => ownPieces src id = [piece]) ids
        ((src.tree.declarations src.tree.root).flatMap (ownPieces src)) := by
  refine ⟨(src.tree.declarations src.tree.root).filter fun id => (src.tree.node? id).any fun n => !isFrame n.kind,
    List.filter_sublist.trans wired.declarations_sublist_walk, fun id => ?_, ?_⟩
  · rw [List.mem_filter, wired.mem_declarations]
    cases src.tree.node? id <;> simp [isFrame]
  · exact forall₂_ownPieces fun id member => wired.isPrinted_of_declared none (wired.mem_declarations.mp member)

end Generation

/-- Rendering fails exactly if a parameter or a generic stands in declaration position, with the name and the kind of
the first of them on a walk. Otherwise its code shows one declaration or block for every other node in declaration
position, roots and files apart, in the order of the walk, and its text shows them in this order. -/
theorem renderText_emits_declared {nodes : Array Node} {root : NodeId} {t : Tree}
    (finished : Tree.finish nodes root = .ok t) (translator : Translator) (languages : List String) (style : Style) :
    let src : Source := ⟨t, translator, languages⟩
    ((∃ e, (renderText src style).1 = .error e) ↔ ∃ id, t.Stray id) ∧
    (∀ e, (renderText src style).1 = .error e →
      ∃ before id after n, t.walk = before ++ id :: after ∧ t.Stray id ∧ (∀ b ∈ before, ¬ t.Stray b) ∧
        t.node? id = some n ∧ e = ⟨n.name, n.kind⟩) ∧
    ∀ text, (renderText src style).1 = .ok text →
      ∃ code ids, (generate src t.root).1 = .ok code ∧ text = code.render style 0 ∧ ids <+ t.walk ∧
        (∀ id, id ∈ ids ↔
          t.Declared id ∧ ∃ n, t.node? id = some n ∧ n.kind ≠ .root ∧ n.kind ≠ .sourceFile) ∧
        List.Forall₂ (fun id piece => ownPieces src id = [piece]) ids code.pieces ∧
        InOrder (code.pieces.map Piece.text) text := by
  intro src
  have wired := Tree.wired_of_finish finished
  have ends : Ends src (t.declarations t.root) Code.pieces (generate src t.root).1 :=
    ends_generateFrom wired (t.size + 1) wired.spanning.root_lt (by change t.size < _; omega)
  have rendered : (renderText src style).1 = (generate src t.root).1.map (·.render style 0) := rfl
  unfold Ends at ends
  rw [rendered]
  cases outcome : (t.declarations t.root).find? t.isInline with
  | some bad =>
    rw [show src.tree = t from rfl, outcome] at ends
    obtain ⟨n, found, failed⟩ := ends
    obtain ⟨before, after, walk, stray, first⟩ := wired.first_stray outcome
    rw [failed]
    refine ⟨iff_of_true ⟨_, rfl⟩ ⟨bad, stray⟩, ?_, ?_⟩
    · intro e same
      cases same
      exact ⟨before, bad, after, n, walk, stray, first, found, rfl⟩
    · intro text impossible
      cases impossible
  | none =>
    rw [show src.tree = t from rfl, outcome] at ends
    obtain ⟨code, generated, pieces⟩ := ends
    obtain ⟨ids, order, members, emitted⟩ := @emitted_of_find?_eq_none src wired outcome
    rw [generated]
    refine ⟨iff_of_false ?_ ?_, ?_, ?_⟩
    · rintro ⟨e, impossible⟩
      cases impossible
    · rintro ⟨id, stray⟩
      exact wired.not_stray outcome id stray
    · intro e impossible
      cases impossible
    · intro text same
      cases same
      refine ⟨code, ids, rfl, rfl, order, members, ?_, code.inOrder_render style 0⟩
      rw [pieces]
      exact emitted

/-- A generic among the methods of a class and a parameter in a namespace behind it; the parameter of a function is in
its place. -/
private def misplacedTree : Tree :=
  ⟨#[⟨"p", none, .param (.basic .any) false false, some 1⟩, ⟨"N", none, .namespaceDecl [0], some 6⟩,
    ⟨"q", none, .param (.basic .any) false false, some 3⟩, ⟨"f", none, .function { parameters := [2] }, some 6⟩,
    ⟨"T", none, .typeParameter none, some 5⟩, ⟨"C", none, .classDecl { methods := [4] } [], some 6⟩,
    ⟨"", none, .root [3, 5, 1], none⟩], 6⟩

/-- A file inside a namespace, with an enum and a class in it. -/
private def nestedTree : Tree :=
  ⟨#[⟨"E", none, .enum [⟨"A", "1"⟩], some 4⟩, ⟨"p", none, .param (.basic .any) false false, some 2⟩,
    ⟨"m", some ⟨true, ["text"]⟩, .method { parameters := [1] } [], some 3⟩,
    ⟨"C", none, .classDecl { methods := [2] } [], some 4⟩, ⟨"s", none, .sourceFile [0, 3], some 5⟩,
    ⟨"N", none, .namespaceDecl [4], some 6⟩, ⟨"", none, .root [5], none⟩], 6⟩

theorem renderText_emits_declared_nested :
    (Tree.finish misplacedTree.nodes 6 = .ok misplacedTree ∧ misplacedTree.Stray 0 ∧ misplacedTree.Stray 4 ∧
      ∃ e, (renderText ⟨misplacedTree, .ofLanguage {} "en_us" 80, []⟩ {}).1 = .error e ∧
        e = ⟨"T", .typeParameter⟩) ∧
    Tree.finish nestedTree.nodes 6 = .ok nestedTree ∧
      ∃ text, (renderText ⟨nestedTree, .ofLanguage {} "en_us" 80, []⟩ {}).1 = .ok text ∧
        InOrder ["namespace N \x7b", "enum E \x7b", "class C \x7b", "m(p: any): any;"] text := by
  have misplaced : Tree.finish misplacedTree.nodes 6 = .ok misplacedTree := rfl
  have nested : Tree.finish nestedTree.nodes 6 = .ok nestedTree := rfl
  have parameter : misplacedTree.Stray 0 :=
    ⟨.printed (p := 1) (.printed .root (by decide)) (by decide), _, rfl, .inl rfl⟩
  have generic : misplacedTree.Stray 4 :=
    ⟨.printed (p := 5) (.printed .root (by decide)) (by decide), _, rfl, .inr rfl⟩
  refine ⟨⟨misplaced, parameter, generic, ?_⟩, nested, ?_⟩
  · obtain ⟨fails, -, -⟩ := renderText_emits_declared misplaced (.ofLanguage {} "en_us" 80) [] {}
    obtain ⟨e, failed⟩ := fails.mpr ⟨0, parameter⟩
    exact ⟨e, failed, Except.error.inj (failed.symm.trans rfl)⟩
  · have made : (renderText ⟨nestedTree, .ofLanguage {} "en_us" 80, []⟩ {}).1 = .ok _ := rfl
    obtain ⟨-, -, emits⟩ := renderText_emits_declared nested (.ofLanguage {} "en_us" 80) [] {}
    obtain ⟨code, -, generated, -, -, -, -, shown⟩ := emits _ made
    have lines :
        (generate ⟨nestedTree, .ofLanguage {} "en_us" 80, []⟩ 6).1.toOption.map (·.pieces.map Piece.text) =
        some ["namespace N \x7b", "enum E \x7b", "class C \x7b", "m(p: any): any;"] := by decide +kernel
    rw [show (generate _ 6).1 = .ok code from generated] at lines
    exact ⟨_, made, Option.some.inj lines ▸ shown⟩

end Render

end DocLocale
