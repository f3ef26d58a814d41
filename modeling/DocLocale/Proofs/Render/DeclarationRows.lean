import DocLocale.Proofs.Render.Legible

/-!
Printed declarations, read as rows. Main statement: where every node is legible, the row of a node is read as what the
node shows, with the documentation that its comment shows.
-/

set_option autoImplicit false
set_option relaxedAutoImplicit false

namespace DocLocale

open Source (File IsNewline GapReads RowReads GivesRows DocComment Item Member tagsOf flagsAt parameterNames memberViews Knot Parse)
open Source.Grammar
open Text (byteLength IsBlankText)

namespace Source.Grammar.MemberForm

variable {k : Knot} {isReadonly : Bool} {form : MemberForm}

/-- The texts of a member that stand for types are not empty. -/
def IsTyped : MemberForm → Prop
  | .property _ _ type => type ≠ []
  | .method _ s => s.result ≠ []
  | .constructor _ => True

theorem ReadsInClass.isTyped (reads : form.ReadsInClass k isReadonly) : form.IsTyped := by
  cases reads with
  | property isOptional named typed => exact typed.nonempty
  | method named signed => exact signed.result.nonempty
  | constructor targets listed => trivial

theorem ReadsInInterface.isTyped (reads : form.ReadsInInterface k isReadonly) : form.IsTyped := by
  cases reads with
  | property isOptional named typed => exact typed.nonempty
  | method named other signed => exact signed.result.nonempty

end Source.Grammar.MemberForm

namespace Render

variable {style : Style} {t : Tree} {id : NodeId} {n : Node} {f : Doc.Flags} {depth : Int}

theorem byteLength_le_flatMap {ι : Type} (row : ι → List Char) {x : ι} {items : List ι} (member : x ∈ items) :
    byteLength (row x) ≤ byteLength (items.flatMap row) := by
  obtain ⟨before, after, rfl⟩ := List.append_of_mem member
  rw [List.flatMap_append, List.flatMap_cons, Text.byteLength_append, Text.byteLength_append]
  omega

/-! ### Texts of generated code -/

/-- Code is printed as a row with a given text behind the gap, whatever comment is put above it. -/
def Prints (style : Style) (depth : Int) (c : Code) (chars : List Char) : Prop :=
  ∀ above, (c.withComment above).row style depth = gapChars style depth above ++ chars

theorem prints_declaration (style : Style) (depth : Int) (tokens : List String) :
    Prints style depth (.declaration tokens none) (itemChars (decide (depth ≤ 0)) (tokenText tokens ++ ";").toList) := by
  intro above
  rw [Code.row, Code.withComment, core_declaration]
  rfl

theorem prints_block {body : List Code} (rows : ∀ c ∈ body, c.IsRow) (broken : style.newline ≠ "") (depth : Int)
    (header : List String) :
    Prints style depth (.block header body " \x7b" "\x7d" none)
      (itemChars (decide (depth ≤ 0)) (blockText (tokenText header ++ " \x7b").toList
        (body.flatMap (Code.row style (depth + 1))) (closeChars style depth body))) := by
  intro above
  rw [Code.row, Code.withComment, core_block rows broken, String.append_assoc, blockText_declareWord]
  rfl

/-- The code generated for a node; an empty file where there is none. -/
def codeAt (generate : NodeId → Generated Code) (id : NodeId) : Code :=
  match (generate id).1 with
  | .ok code => code
  | .error _ => .root []

/-- The row of what is generated for a node. -/
def rowAt (style : Style) (depth : Int) (generate : NodeId → Generated Code) (id : NodeId) : List Char :=
  (codeAt generate id).row style depth

section
variable {generate : NodeId → Generated Code}

theorem codeAt_of_ok {c : Code} (generated : (generate id).1 = .ok c) : codeAt generate id = c := by
  rw [codeAt, generated]

theorem generateAll_eq_map {ids : List NodeId} {codes : List Code} (generated : (generateAll generate ids).1 = .ok codes) :
    codes = ids.map (codeAt generate) ∧ ∀ id ∈ ids, (generate id).1 = .ok (codeAt generate id) := by
  induction ids generalizing codes with
  | nil =>
    obtain rfl := Except.ok.inj generated
    exact ⟨rfl, fun id member => absurd member List.not_mem_nil⟩
  | cons id ids ih =>
    rw [generateAll] at generated
    rcases own : generate id with ⟨first, misplaced⟩
    cases first with
    | error e => simp [own] at generated
    | ok c =>
      simp only [own] at generated
      rcases others : generateAll generate ids with ⟨rest, more⟩
      rw [others] at generated
      cases rest with
      | error e => cases generated
      | ok cs =>
        obtain rfl := Except.ok.inj generated
        obtain ⟨same, all⟩ := ih (by rw [others])
        have here : (generate id).1 = .ok c := by rw [own]
        rw [List.map_cons, ← same, codeAt_of_ok here]
        refine ⟨rfl, fun other member => ?_⟩
        rcases List.mem_cons.mp member with rfl | later
        · rw [here, codeAt_of_ok here]
        · exact all other later

theorem exists_bareCode_of_generated (src : Source) {fuel : Nat} {c : Code} (found : src.tree.node? id = some n)
    (generated : (generateFrom src (fuel + 1) id).1 = .ok c) :
    ∃ code, (bareCode src.tree (generateFrom src fuel) n).1 = .ok code ∧ c = code.withComment (commentOf src id).1 := by
  rw [generateFrom, found] at generated
  rcases own : bareCode src.tree (generateFrom src fuel) n with ⟨first, misplaced⟩
  simp only [own] at generated
  cases first with
  | error e => cases generated
  | ok code => exact ⟨code, rfl, (Except.ok.inj generated).symm⟩

theorem exists_of_map {α β : Type} {x : Except Unrenderable α} {wrap : α → β} {b : β} (mapped : x.map wrap = .ok b) :
    ∃ a, x = .ok a ∧ b = wrap a := by
  cases x with
  | error e => cases mapped
  | ok a => exact ⟨a, rfl, (Except.ok.inj mapped).symm⟩

private theorem isBlock_of_shape {header : List String} {s : Shape} {c : Code}
    (generated : (shapeBlock generate header s).1 = .ok c) :
    ∃ codes, (generateAll generate (s.properties ++ s.methods)).1 = .ok codes ∧
      c = .block header codes " \x7b" "\x7d" none :=
  exists_of_map generated

private theorem isBlock_of_namespace {name : String} {ids : List NodeId} {flags : Option Doc.Flags} {parent : Option NodeId}
    {c : Code} (generated : (bareCode t generate ⟨name, flags, .namespaceDecl ids, parent⟩).1 = .ok c) :
    ∃ codes, (generateAll generate ids).1 = .ok codes ∧ c = .block ["namespace", name] codes " \x7b" "\x7d" none :=
  exists_of_map generated

/-- Nodes other than files are generated as rows. -/
theorem isRow_of_generated {src : Source} {fuel : Nat} {c : Code} (found : src.tree.node? id = some n)
    (kind : n.kind ≠ .sourceFile ∧ n.kind ≠ .root) (generated : (generateFrom src fuel id).1 = .ok c) : c.IsRow := by
  cases fuel with
  | zero => cases generated
  | succ fuel =>
    obtain ⟨code, bare, rfl⟩ := exists_bareCode_of_generated _ found generated
    obtain ⟨name, flags, body, parent⟩ := n
    cases body with
    | sourceFile => exact absurd rfl kind.1
    | root => exact absurd rfl kind.2
    | param | typeParameter => cases bare
    | var | function | property | method | constructor | enum | typeAlias =>
      obtain rfl := Except.ok.inj bare
      trivial
    | classDecl s interfaces | interface s =>
      obtain ⟨codes, -, rfl⟩ := isBlock_of_shape bare
      trivial
    | namespaceDecl ids =>
      obtain ⟨codes, -, rfl⟩ := isBlock_of_namespace bare
      trivial

theorem rows_of_generated {src : Source} {fuel : Nat} {ids : List NodeId} {codes : List Code}
    (inner : ∀ c ∈ ids, ∃ m, src.tree.node? c = some m ∧ m.kind ≠ .sourceFile ∧ m.kind ≠ .root)
    (generated : (generateAll (generateFrom src fuel) ids).1 = .ok codes) : ∀ c ∈ codes, c.IsRow := by
  obtain ⟨rfl, each⟩ := generateAll_eq_map generated
  intro c member
  obtain ⟨d, listed, rfl⟩ := List.mem_map.mp member
  obtain ⟨m, there, kind⟩ := inner d listed
  exact isRow_of_generated there kind (each d listed)

end

/-- What rendering without translations looks at. -/
abbrev untranslated (t : Tree) (languages : List String) (language : String) (maxWidth : Nat) : Source :=
  ⟨t, .ofLanguage {} language maxWidth, languages⟩

/-! ### Members -/

section
variable {generate : NodeId → Generated Code} {c : Code}

/-- A member of a class or interface is printed as its text. -/
theorem prints_member (style : Style) (wellKinded : t.WellKinded) (found : t.node? id = some n)
    (kind : n.kind ∈ Role.property.kinds ++ Role.method.kinds) (bare : (bareCode t generate n).1 = .ok c)
    (typed : (memberForm t n).IsTyped) (inner : 0 < depth) : Prints style depth c (memberOf t n).chars := by
  have nested : decide (depth ≤ 0) = false := by simpa using inner
  have known := fun s => wellKinded.known_parameters found (s := s)
  have place : ∀ tokens, c = .declaration tokens none → (tokenText tokens ++ ";").toList = (memberOf t n).chars →
      Prints style depth c (memberOf t n).chars := by
    rintro tokens rfl text
    have prints := prints_declaration style depth tokens
    rwa [text, nested, itemChars, if_neg Bool.false_ne_true] at prints
  cases body : n.body with
  | property type isOptional modifiers =>
    rw [bareCode, body] at bare
    refine place _ (Except.ok.inj bare).symm (chars_property n body fun empty => ?_)
    rw [memberForm, body] at typed
    exact typed (by rw [empty]; rfl)
  | method s modifiers =>
    rw [bareCode, body] at bare
    refine place _ (Except.ok.inj bare).symm (chars_method n body (known s (by rw [body]; rfl)) fun empty => ?_)
    rw [memberForm, body] at typed
    exact typed (by rw [signatureOf, empty]; rfl)
  | constructor s =>
    rw [bareCode, body] at bare
    exact place _ (Except.ok.inj bare).symm (chars_constructor n body (known s (by rw [body]; rfl)))
  | _ =>
    rw [Node.kind, body] at kind
    simp [Body.kind, Role.kinds] at kind

/-- What is read from the row of a member is what its node shows. -/
theorem showsMember_of_tagged (wellKinded : t.WellKinded) (regular : t.Regular) (found : t.node? id = some n)
    (flagged : n.flags = some f) (kind : n.kind ∈ Role.property.kinds ++ Role.method.kinds) {tags : List String}
    (marked : (Doc.buildFlags n.kind tags).flags = f.reread n.kind) {comment? : Nat → Option DocComment} {m : Member}
    (tagged : (memberOf t n).Tagged tags comment? m) : ShowsMember t.reread id comment? m := by
  obtain ⟨lo, given, same⟩ := tagged
  have flags : flagsAt comment? n.kind lo = f.reread n.kind := by rw [flagsAt, same, marked]
  have known := fun s => wellKinded.known_parameters found (s := s)
  have shown : ∀ {parameters}, t.reread.Names parameters n.body.parameters →
      List.Forall₂ (View.Shows t.reread) [] n.body.printed →
      (View.mk n.name n.kind (some (f.reread n.kind)) parameters []).Shows t.reread id := shows_reread found flagged
  have reread : t.reread.node? id = some { n with flags := n.flags.map (Doc.Flags.reread n.kind) } := by
    rw [Tree.node?_reread, found, Option.map_some]
  have place : ∀ v : View, v.Shows t.reread id → m.properties comment? = (if n.kind = .property then [v] else []) →
      m.methods comment? = (if n.kind = .property then [] else [v]) → ShowsMember t.reread id comment? m :=
    fun v seen properties methods => ⟨_, v, reread, seen, properties, methods⟩
  change MemberForm.Given lo (memberForm t n) m at given
  cases body : n.body with
  | property type isOptional modifiers =>
    have kinded : n.kind = .property := by rw [Node.kind, body]; rfl
    rw [memberForm, body] at given
    obtain ⟨t', marked', modifiers'⟩ := given
    refine place _ (shown (by rw [body]; exact .nil) (by rw [body]; exact .nil)) ?_ ?_
    · rw [if_pos kinded, ← flags, kinded]
      rfl
    · rw [if_pos kinded]
      rfl
  | method s modifiers =>
    have kinded : n.kind = .method := by rw [Node.kind, body]; rfl
    rw [memberForm, body] at given
    obtain _ | ⟨marked', modifiers', listed⟩ := given
    rename_i g
    have named := names_reread (known s (by rw [body]; rfl)) listed 0
    refine place _ (shown (by rw [body]; exact named) (by rw [body]; exact .nil)) ?_ ?_
    · rw [if_neg (by simp [kinded])]
      rfl
    · rw [if_neg (by simp [kinded]), ← flags, kinded]
      rfl
  | constructor s =>
    -- the row of a constructor has no name: its node has the name that every constructor has
    have kinded : n.kind = .constructor := by rw [Node.kind, body]; rfl
    rw [memberForm, body] at given
    obtain _ | _ | listed := given
    have named := names_reread (known s (by rw [body]; rfl)) listed 0
    refine place _ (shown (by rw [body]; exact named) (by rw [body]; exact .nil)) ?_ ?_
    · rw [if_neg (by simp [kinded])]
      rfl
    · rw [if_neg (by simp [kinded]), ← flags, kinded, regular.word id n found kinded]
      rfl
  | _ =>
    rw [Node.kind, body] at kind
    simp [Body.kind, Role.kinds] at kind

end

section
variable {languages : List String} {language : String} {maxWidth fuel : Nat} {c : Code}

/-- A node with what is printed for it, without translations. -/
structure Printed (t : Tree) (languages : List String) (language : String) (maxWidth fuel : Nat) (id : NodeId) (n : Node)
    (f : Doc.Flags) (c : Code) : Prop where
  found : t.node? id = some n
  flagged : n.flags = some f
  generated : (generateFrom (untranslated t languages language maxWidth) fuel id).1 = .ok c

variable (printed : Printed t languages language maxWidth fuel id n f c)

include printed

/-- The row of a node is the gap with its comment and the text of its code. -/
theorem Printed.row {chars : List Char} (prints : ∀ generate code, (bareCode t generate n).1 = .ok code →
      Prints style depth code chars) :
    c.row style depth =
      gapChars style depth (commentOf (untranslated t languages language maxWidth) id).1 ++ chars := by
  obtain ⟨found, flagged, generated⟩ := printed
  cases fuel with
  | zero => cases generated
  | succ fuel =>
    obtain ⟨code, bare, rfl⟩ := exists_bareCode_of_generated _ found generated
    exact prints _ code bare _

/-- A row with a member is read as what its node shows. -/
theorem Printed.member_reads {step : Parse (Option Member)} (wellKinded : t.WellKinded)
    (printable : Printable t languages maxWidth) (newline : IsNewline style.newline)
    (kind : n.kind ∈ Role.property.kinds ++ Role.method.kinds) (typed : (memberForm t n).IsTyped) (inner : 0 < depth)
    (reads : ∀ gap tags, GapReads gap tags → RowReads step (gap ++ (memberOf t n).chars) ((memberOf t n).Tagged tags)) :
    RowReads step (c.row style depth) (ShowsMember t.reread id) := by
  have row := printed.row fun _ _ bare => prints_member style wellKinded printed.found kind bare typed inner
  obtain ⟨tags, gapped, marked⟩ := gapReads_printed printable newline depth language printed.found printed.flagged
  rw [row]
  exact (reads _ tags gapped).mono fun comment? m =>
    showsMember_of_tagged wellKinded printable.regular printed.found printed.flagged kind marked

end

/-! ### Declarations of one line -/

/-- A text is read as a declaration that is what a node shows, if its comment gives it the flags of that node. -/
def ReadsNode (t : Tree) (k : Knot) (id : NodeId) (n : Node) (f : Doc.Flags) (chars : List Char) : Prop :=
  ∃ kw gives, ReadsDeclaration k kw chars gives ∧ ∀ comment? lo item,
    flagsAt comment? n.kind lo = f.reread n.kind → gives comment? lo item → ShowsItem t.reread id comment? item

/-- Code is printed as a declaration that is read as its node by a grammar that goes deep enough for its text. -/
def Rereads (style : Style) (depth : Int) (t : Tree) (deep : Nat) (id : NodeId) (n : Node) (f : Doc.Flags) (c : Code) :
    Prop :=
  ∃ chars, Prints style depth c (itemChars (decide (depth ≤ 0)) chars) ∧
    (File.depth (byteLength chars) ≤ deep → ReadsNode t (knot deep) id n f chars)

section
variable (found : t.node? id = some n) (flagged : n.flags = some f) (legible : Legible t n)

include found flagged legible

private theorem rereads_var {type : TypeExpr} {isConst : Bool} (body : n.body = .var type isConst) (deep : Nat) :
    Rereads style depth t deep id n f
      (.declaration [(if isConst then "const " else "let ") ++ n.name ++ ":", typeText type] none) := by
  rw [Legible, body] at legible
  obtain ⟨valued, allowed, reads⟩ := legible
  have typed : typeText type ≠ "" := by simpa using (reads _ le_rfl).nonempty
  have kind : n.kind = .var := by rw [Node.kind, body]; rfl
  have keyword : varKeyword isConst = .const ∨ varKeyword isConst = .let := by cases isConst <;> simp [varKeyword]
  refine ⟨_, toList_var n.name isConst typed ▸ prints_declaration style depth _, fun enough => ⟨_, _,
    readsDeclaration_var keyword valued allowed (reads.within ?_ (enough.trans (Nat.le_succ deep))), ?_⟩⟩
  · simp only [typedChars, Text.byteLength_append, byteLength]
    omega
  · rintro comment? lo item flags ⟨isConst', type', rfl⟩
    refine ⟨_, ?_, shows_reread found flagged (by rw [body]; exact .nil)
      (by rw [body]; exact .nil)⟩
    rw [← flags, kind]
    simp [Item.views, Source.Binding.views]

private theorem rereads_function (wellKinded : t.WellKinded) {s : Signature} (body : n.body = .function s) (deep : Nat) :
    Rereads style depth t deep id n f
      (.declaration ["function " ++ signatureHead t n.name s, optionalTypeText s.returns] none) := by
  rw [Legible, body] at legible
  obtain ⟨named, bindable, reads⟩ := legible
  have known := wellKinded.known_parameters found (s := s) (by rw [body]; rfl)
  have returned : optionalTypeText s.returns ≠ "" := by simpa [signatureOf] using (reads _ le_rfl).result.nonempty
  have kind : n.kind = .function := by rw [Node.kind, body]; rfl
  refine ⟨_, toList_function known n.name returned ▸ prints_declaration style depth _, fun enough => ⟨_, _,
    readsDeclaration_function named bindable (reads.within ?_ (enough.trans (Nat.le_succ deep))), ?_⟩⟩
  · simp only [Text.byteLength_append, byteLength]
    omega
  · rintro comment? lo item flags ⟨g, rfl, given⟩
    refine ⟨_, ?_, shows_reread found flagged (by rw [body]; exact names_reread known given 0)
      (by rw [body]; exact .nil)⟩
    rw [← flags, kind, Item.views]

private theorem rereads_alias {ids : List NodeId} {type : TypeExpr} (body : n.body = .typeAlias ids type) (deep : Nat) :
    Rereads style depth t deep id n f
      (.declaration ["type", genericName t n.name ids, "=", typeText type] none) := by
  rw [Legible, body] at legible
  obtain ⟨named, referable, reads⟩ := legible
  have typed : typeText type ≠ "" := by simpa using (reads _ le_rfl).2.nonempty
  have kind : n.kind = .typeAlias := by rw [Node.kind, body]; rfl
  refine ⟨_, toList_alias named.ne_empty ids typed ▸ prints_declaration style depth _, fun enough => ?_⟩
  obtain ⟨generics, aliased⟩ := reads.within le_rfl (enough.trans (Nat.le_succ deep))
  refine ⟨_, _, readsDeclaration_alias named referable generics aliased, ?_⟩
  rintro comment? lo item flags ⟨ps, type', rfl⟩
  refine ⟨_, ?_, shows_reread found flagged (by rw [body]; exact .nil)
    (by rw [body]; exact .nil)⟩
  rw [← flags, kind, Item.views]

/-! ### Enums -/

private theorem rereads_enum {members : List EnumMember} (newline : IsNewline style.newline)
    (body : n.body = .enum members) (deep : Nat) :
    Rereads style depth t deep id n f
      (.block ["enum", n.name] (members.map fun m => .member [m.name, "=", m.value] none) " \x7b" "\x7d" none) := by
  rw [Legible, body] at legible
  obtain ⟨named, referable, reads⟩ := legible
  have kind : n.kind = .enum := by rw [Node.kind, body]; rfl
  have rows : ∀ c ∈ members.map fun m => Code.member [m.name, "=", m.value] none, c.IsRow := by
    intro c member
    obtain ⟨m, -, rfl⟩ := List.mem_map.mp member
    trivial
  have prints := prints_block rows (newline_ne_empty newline) depth ["enum", n.name]
  have texts : (members.map fun m => Code.member [m.name, "=", m.value] none).flatMap (Code.row style (depth + 1)) =
      members.flatMap fun m => gapChars style (depth + 1) none ++ enumMemberChars m := by
    rw [List.flatMap_map]
    refine List.flatMap_congr fun m member => ?_
    obtain ⟨named, valued, -⟩ := reads m member
    rw [Code.row, Code.core, toList_enumMember named valued]
    rfl
  rw [texts, toList_enumHead named.ne_empty] at prints
  refine ⟨_, prints, fun enough => ?_⟩
  have each : ∀ m ∈ members, RowReads (enumStep (level (knot deep))) (gapChars style (depth + 1) none ++ enumMemberChars m)
      fun _ _ => True := by
    intro m member
    obtain ⟨-, -, crosses⟩ := reads m member
    refine enumRow_reads (gapReads_none newline _) (crosses.within ?_ (enough.trans (Nat.le_succ deep)))
    have row := byteLength_le_flatMap (fun m => gapChars style (depth + 1) none ++ enumMemberChars m) member
    simp only [blockText, Text.byteLength_append] at row ⊢
    omega
  refine ⟨_, _, readsDeclaration_enum named referable (isBlankText_close newline depth _) each, ?_⟩
  rintro comment? lo item flags ⟨ms, rfl⟩
  refine ⟨_, ?_, shows_reread found flagged (by rw [body]; exact .nil)
    (by rw [body]; exact .nil)⟩
  rw [← flags, kind, Item.views]

end

/-! ### Classes and interfaces -/

section
variable {languages : List String} {language : String} {maxWidth fuel : Nat} (wellKinded : t.WellKinded)

include wellKinded

section
variable (found : t.node? id = some n) {s : Shape} (owned : n.body.places =
  s.properties.map (·, .property) ++ s.methods.map (·, .method) ++ s.typeParameters.map (·, .generic))

include found owned

private theorem shape_places :
    (∀ c ∈ s.properties, ∃ m, t.node? c = some m ∧ Role.property.Admits m) ∧
      ∀ c ∈ s.methods, ∃ m, t.node? c = some m ∧ Role.method.Admits m := by
  refine ⟨fun c member => wellKinded.places id n found c .property ?_, fun c member =>
    wellKinded.places id n found c .method ?_⟩
  all_goals
    rw [owned]
    simp [member]

private theorem exists_member {c : NodeId} (member : c ∈ s.properties ++ s.methods) :
    ∃ m r, t.node? c = some m ∧ m.kind ∈ Role.property.kinds ++ Role.method.kinds ∧ m.flags = some r := by
  obtain ⟨properties, methods⟩ := shape_places wellKinded found owned
  obtain ⟨m, here, kind, documented⟩ : ∃ m, t.node? c = some m ∧ m.kind ∈ Role.property.kinds ++ Role.method.kinds ∧
      m.flags.isSome := by
    rcases List.mem_append.mp member with first | later
    · obtain ⟨m, here, kind, documented⟩ := properties c first
      exact ⟨m, here, List.mem_append_left _ kind, documented⟩
    · obtain ⟨m, here, kind, documented⟩ := methods c later
      exact ⟨m, here, List.mem_append_right _ kind, documented⟩
  obtain ⟨r, flagged⟩ := Option.isSome_iff_exists.mp documented
  exact ⟨m, r, here, kind, flagged⟩

/-- The views of members that are read from the rows of a class or interface. -/
private theorem shows_shape {comment? : Nat → Option DocComment} {ms : List Member}
    (given : GivesRows (ShowsMember t.reread) (s.properties ++ s.methods) comment? ms) :
    List.Forall₂ (View.Shows t.reread) (memberViews comment? ms) (s.properties ++ s.methods) := by
  obtain ⟨properties, methods⟩ := shape_places wellKinded found owned
  refine shows_memberViews given (fun c member m there => ?_) fun c member m there => ?_
  · obtain ⟨m', here, kind, -⟩ := properties c member
    rw [Tree.node?_reread, here] at there
    obtain rfl := Option.some.inj there
    exact List.mem_singleton.mp kind
  · obtain ⟨m', here, kind, -⟩ := methods c member
    rw [Tree.node?_reread, here] at there
    obtain rfl := Option.some.inj there
    intro same
    change m'.kind = .property at same
    rw [same] at kind
    simp [Role.kinds] at kind

private theorem rows_of_shape {src : Source} (same : src.tree = t) {codes : List Code}
    (generated : (generateAll (generateFrom src fuel) (s.properties ++ s.methods)).1 = .ok codes) :
    ∀ c ∈ codes, c.IsRow := by
  subst same
  refine rows_of_generated (fun c member => ?_) generated
  obtain ⟨m, r, here, kind, -⟩ := exists_member wellKinded found owned member
  refine ⟨m, here, ?_⟩
  constructor
  all_goals
    intro other
    rw [other] at kind
    simp [Role.kinds] at kind

/-- The rows of a class or interface are read if its members are. -/
private theorem shape_rows {step : Parse (Option Member)} (printable : Printable t languages maxWidth)
    (newline : IsNewline style.newline) (inner : 0 < depth) {codes : List Code}
    (generated : (generateAll (generateFrom (untranslated t languages language maxWidth) fuel)
      (s.properties ++ s.methods)).1 = .ok codes)
    (typed : ∀ c ∈ s.properties ++ s.methods, ∀ m, t.node? c = some m → (memberForm t m).IsTyped)
    (reads : ∀ c ∈ s.properties ++ s.methods, ∀ m, t.node? c = some m →
      byteLength (memberOf t m).chars ≤ byteLength (codes.flatMap (Code.row style depth)) →
      ∀ gap tags, GapReads gap tags → RowReads step (gap ++ (memberOf t m).chars) ((memberOf t m).Tagged tags)) :
    ∃ row, codes.flatMap (Code.row style depth) = (s.properties ++ s.methods).flatMap row ∧
      ∀ c ∈ s.properties ++ s.methods, RowReads step (row c) (ShowsMember t.reread c) := by
  obtain ⟨same, each⟩ := generateAll_eq_map generated
  have text : codes.flatMap (Code.row style depth) = (s.properties ++ s.methods).flatMap
      (rowAt style depth (generateFrom (untranslated t languages language maxWidth) fuel)) := by
    rw [same, List.flatMap_map]
    rfl
  refine ⟨_, text, fun c member => ?_⟩
  obtain ⟨m, r, here, kind, flagged⟩ := exists_member wellKinded found owned member
  have own : Printed t languages language maxWidth fuel c m r (codeAt _ c) := ⟨here, flagged, each c member⟩
  have shape := own.row fun _ _ bare =>
    prints_member style wellKinded own.found kind bare (typed c member m own.found) inner
  refine own.member_reads wellKinded printable newline kind (typed c member m own.found) inner
    (reads c member m own.found ?_)
  have listed := byteLength_le_flatMap
    (rowAt style depth (generateFrom (untranslated t languages language maxWidth) fuel)) member
  rw [text]
  refine le_trans ?_ listed
  rw [rowAt, shape, Text.byteLength_append]
  omega

end

private theorem rereads_interface (printable : Printable t languages maxWidth) (newline : IsNewline style.newline)
    (outer : 0 ≤ depth) (found : t.node? id = some n) (flagged : n.flags = some f) (legible : Legible t n) {s : Shape}
    (body : n.body = .interface s) {codes : List Code}
    (generated : (generateAll (generateFrom (untranslated t languages language maxWidth) fuel)
      (s.properties ++ s.methods)).1 = .ok codes) (deep : Nat) :
    Rereads style depth t deep id n f (.block ["interface", genericName t n.name s.typeParameters,
      heritage "extends" s.bases] codes " \x7b" "\x7d" none) := by
  rw [Legible, body] at legible
  obtain ⟨named, referable, head, members⟩ := legible
  have kind : n.kind = .interface := by rw [Node.kind, body]; rfl
  have owned : n.body.places =
      s.properties.map (·, .property) ++ s.methods.map (·, .method) ++ s.typeParameters.map (·, .generic) := by
    rw [body]
    rfl
  have prints := prints_block (rows_of_shape wellKinded found owned rfl generated) (newline_ne_empty newline) depth
    ["interface", genericName t n.name s.typeParameters, heritage "extends" s.bases]
  rw [toList_interfaceHead named.ne_empty] at prints
  refine ⟨_, prints, fun enough => ?_⟩
  obtain ⟨row, text, reads⟩ := shape_rows wellKinded found owned printable newline (by omega : 0 < depth + 1) generated
    (fun c member m there => ((members c member m there).2 _ le_rfl).isTyped) fun c member m there inside gap tags gapped => by
      obtain ⟨bound, crosses⟩ := members c member m there
      refine interfaceRow_reads gapped (crosses.within ?_ (enough.trans (Nat.le_succ deep))) bound
      simp only [blockText, Text.byteLength_append]
      omega
  obtain ⟨generics, extended⟩ := head.within (by
    rw [blockText, Text.byteLength_append]
    exact Nat.le_add_right _ _) (enough.trans (Nat.le_succ deep))
  rw [text]
  refine ⟨_, _, readsDeclaration_interface named referable generics extended (isBlankText_close newline depth _) reads, ?_⟩
  rintro comment? lo item flags ⟨ps, rs, ms, rfl, given⟩
  refine ⟨_, ?_, shows_reread found flagged (by rw [body]; exact .nil)
    (by rw [body]; exact shows_shape wellKinded found owned given)⟩
  rw [← flags, kind, Item.views]

private theorem rereads_class (printable : Printable t languages maxWidth) (newline : IsNewline style.newline)
    (outer : 0 ≤ depth) (found : t.node? id = some n) (flagged : n.flags = some f) (legible : Legible t n) {s : Shape}
    {interfaces : List Reference} (body : n.body = .classDecl s interfaces) {codes : List Code}
    (generated : (generateAll (generateFrom (untranslated t languages language maxWidth) fuel)
      (s.properties ++ s.methods)).1 = .ok codes) (deep : Nat) :
    Rereads style depth t deep id n f (.block ["class", genericName t n.name s.typeParameters,
      heritage "extends" s.bases, heritage "implements" interfaces] codes " \x7b" "\x7d" none) := by
  rw [Legible, body] at legible
  obtain ⟨named, bindable, free, single, head, members⟩ := legible
  have kind : n.kind = .classDecl := by rw [Node.kind, body]; rfl
  have owned : n.body.places =
      s.properties.map (·, .property) ++ s.methods.map (·, .method) ++ s.typeParameters.map (·, .generic) := by
    rw [body]
    rfl
  have prints := prints_block (rows_of_shape wellKinded found owned rfl generated) (newline_ne_empty newline) depth
    ["class", genericName t n.name s.typeParameters, heritage "extends" s.bases, heritage "implements" interfaces]
  rw [toList_classHead named.ne_empty] at prints
  refine ⟨_, prints, fun enough => ?_⟩
  obtain ⟨row, text, reads⟩ := shape_rows wellKinded found owned printable newline (by omega : 0 < depth + 1) generated
    (fun c member m there => (members c member m there _ le_rfl).isTyped) fun c member m there inside gap tags gapped => by
      refine classRow_reads gapped ((members c member m there).within ?_ enough)
      simp only [blockText, Text.byteLength_append]
      omega
  obtain ⟨generics, extended, implemented⟩ := head.within (by
    rw [blockText, Text.byteLength_append]
    exact Nat.le_add_right _ _) enough
  rw [text]
  refine ⟨_, _, readsDeclaration_class named bindable free generics extended (by simpa using single) implemented
    (isBlankText_close newline depth _) reads, ?_⟩
  rintro comment? lo item flags ⟨ps, bs, is, ms, rfl, given⟩
  refine ⟨_, ?_, shows_reread found flagged (by rw [body]; exact .nil)
    (by rw [body]; exact shows_shape wellKinded found owned given)⟩
  rw [← flags, kind, Item.views]

end

/-! ### Namespaces -/

private theorem rereads_namespace (newline : IsNewline style.newline) (found : t.node? id = some n) (flagged : n.flags = some f)
    (legible : Legible t n) {ids : List NodeId} (body : n.body = .namespaceDecl ids) {codes : List Code}
    (row : NodeId → List Char) (rows : ∀ c ∈ codes, c.IsRow) (text : codes.flatMap (Code.row style (depth + 1)) = ids.flatMap row)
    (reads : ∀ c ∈ ids, ∀ deep, File.depth (byteLength (row c)) ≤ deep + 2 → ∀ step,
      ReadsStatements (level (knot deep)) step → RowReads step (row c) (ShowsItem t.reread c)) (deep : Nat) :
    Rereads style depth t deep id n f (.block ["namespace", n.name] codes " \x7b" "\x7d" none) := by
  rw [Legible, body] at legible
  obtain ⟨named, referable, free⟩ := legible
  have kind : n.kind = .namespaceDecl := by rw [Node.kind, body]; rfl
  have prints := prints_block rows (newline_ne_empty newline) depth ["namespace", n.name]
  rw [toList_namespaceHead named.ne_empty, text] at prints
  refine ⟨_, prints, fun enough => ?_⟩
  -- the statements of a block are read one level deeper than the block
  obtain ⟨below, rfl⟩ : ∃ below, deep = below + 1 := ⟨deep - 1, by unfold File.depth at enough; omega⟩
  have each : ∀ c ∈ ids, RowReads (blockStep (level (knot (below + 1)))) (row c) (ShowsItem t.reread c) := by
    intro c member
    refine reads c member below ?_ _ (readsStatements_block (knot (below + 1)))
    have inside := byteLength_le_flatMap row member
    have brace := '\x7d'.utf8Size_pos
    simp only [File.depth, blockText, Text.byteLength_append, byteLength] at enough ⊢
    omega
  refine ⟨_, _, readsDeclaration_namespace named referable free (isBlankText_close newline depth _) each, ?_⟩
  rintro comment? lo item flags ⟨is, rfl, given⟩
  refine ⟨_, ?_, shows_reread found flagged (by rw [body]; exact .nil)
    (by rw [body]; exact shows_itemViews given)⟩
  rw [← flags, kind, Item.views]

/-! ### All declarations -/

theorem isInner_of_declaration (kind : n.kind ∈ Role.declaration.kinds) : n.kind ≠ .sourceFile ∧ n.kind ≠ .root := by
  constructor
  all_goals
    intro other
    rw [other] at kind
    simp [Role.kinds] at kind

section
variable {languages : List String} {language : String} {maxWidth : Nat}

/-- The declarations of a file or namespace are documented. -/
theorem exists_declaration (wellKinded : t.WellKinded) (found : t.node? id = some n) {ids : List NodeId}
    (owned : n.body.places = ids.map (·, .declaration)) {c : NodeId} (member : c ∈ ids) :
    ∃ m r, t.node? c = some m ∧ m.kind ∈ Role.declaration.kinds ∧ m.flags = some r := by
  have place : (c, .declaration) ∈ n.body.places := owned ▸ List.mem_map_of_mem member
  obtain ⟨m, there, kind, documented⟩ := wellKinded.places id n found c .declaration place
  obtain ⟨r, flagged⟩ := Option.isSome_iff_exists.mp documented
  exact ⟨m, r, there, kind, flagged⟩

theorem rows_of_declarations (wellKinded : t.WellKinded) (found : t.node? id = some n) {ids : List NodeId}
    (owned : n.body.places = ids.map (·, .declaration)) {src : Source} (same : src.tree = t) {fuel : Nat} {codes : List Code}
    (generated : (generateAll (generateFrom src fuel) ids).1 = .ok codes) : ∀ c ∈ codes, c.IsRow := by
  subst same
  refine rows_of_generated (fun c member => ?_) generated
  obtain ⟨m, r, there, kind, -⟩ := exists_declaration wellKinded found owned member
  exact ⟨m, there, isInner_of_declaration kind⟩

/-- A row is read as its node if its code is. -/
private theorem Rereads.row_reads {deep : Nat} {code : Code} (rereads : Rereads style depth t deep id n f code)
    (printable : Printable t languages maxWidth) (newline : IsNewline style.newline) (found : t.node? id = some n)
    (flagged : n.flags = some f)
    (enough : File.depth (byteLength ((code.withComment
      (commentOf (untranslated t languages language maxWidth) id).1).row style depth)) ≤ deep + 2)
    {step : Parse (Option Item)} (steps : ReadsStatements (level (knot deep)) step) :
    RowReads step ((code.withComment (commentOf (untranslated t languages language maxWidth) id).1).row style depth)
      (ShowsItem t.reread id) := by
  obtain ⟨chars, prints, reads⟩ := rereads
  obtain ⟨tags, gapped, marked⟩ := gapReads_printed printable newline depth language found flagged
  rw [prints] at enough ⊢
  have broken : 0 < byteLength style.newline.toList := by rcases newline with same | same <;> rw [same] <;> decide
  have whole : byteLength chars ≤ byteLength (itemChars (decide (depth ≤ 0)) chars) := by
    rw [itemChars]
    split
    · simp only [Text.byteLength_append, byteLength]
      omega
    · exact le_rfl
  have deepEnough : File.depth (byteLength chars) ≤ deep := by
    simp only [File.depth, gapChars, Text.byteLength_append] at enough ⊢
    omega
  obtain ⟨kw, gives, declared, shown⟩ := reads deepEnough
  refine (declared.row steps gapped _).mono ?_
  rintro comment? item ⟨lo, same, given⟩
  refine shown comment? lo item ?_ given
  rw [flagsAt, same, marked]

/-- Where every node is legible, the row of a declaration is read as what its node shows. -/
theorem Printed.reads {fuel : Nat} {c : Code} (printed : Printed t languages language maxWidth fuel id n f c)
    (wellKinded : t.WellKinded) (printable : Printable t languages maxWidth)
    (legible : ∀ id n, t.node? id = some n → Legible t n) (newline : IsNewline style.newline) (outer : 0 ≤ depth)
    (kind : n.kind ∈ Role.declaration.kinds) (deep : Nat)
    (enough : File.depth (byteLength (c.row style depth)) ≤ deep + 2) {step : Parse (Option Item)}
    (steps : ReadsStatements (level (knot deep)) step) :
    RowReads step (c.row style depth) (ShowsItem t.reread id) := by
  -- the declarations of a namespace stand at another depth and are read by another level of the grammar
  induction fuel generalizing id n f c depth deep step with
  | zero => cases printed.generated
  | succ fuel ih =>
    obtain ⟨found, flagged, generated⟩ := printed
    obtain ⟨code, bare, rfl⟩ := exists_bareCode_of_generated _ found generated
    have own := legible id n found
    suffices rereads : Rereads style depth t deep id n f code from
      rereads.row_reads printable newline found flagged enough steps
    obtain ⟨name, flags, body, parent⟩ := n
    cases body with
    | var type isConst =>
      obtain rfl := Except.ok.inj bare
      exact rereads_var found flagged own rfl deep
    | function s =>
      obtain rfl := Except.ok.inj bare
      exact rereads_function found flagged own wellKinded rfl deep
    | typeAlias ids type =>
      obtain rfl := Except.ok.inj bare
      exact rereads_alias found flagged own rfl deep
    | enum members =>
      obtain rfl := Except.ok.inj bare
      exact rereads_enum found flagged own newline rfl deep
    | interface s =>
      obtain ⟨codes, below, rfl⟩ := isBlock_of_shape bare
      exact rereads_interface wellKinded printable newline outer found flagged own rfl below deep
    | classDecl s interfaces =>
      obtain ⟨codes, below, rfl⟩ := isBlock_of_shape bare
      exact rereads_class wellKinded printable newline outer found flagged own rfl below deep
    | namespaceDecl ids =>
      obtain ⟨codes, below, rfl⟩ := isBlock_of_namespace bare
      obtain ⟨same, each⟩ := generateAll_eq_map below
      refine rereads_namespace newline found flagged own rfl (rowAt style (depth + 1)
        (generateFrom (untranslated t languages language maxWidth) fuel))
        (rows_of_declarations wellKinded found rfl rfl below) ?_ ?_ deep
      · rw [same, List.flatMap_map]
        rfl
      · intro c member deep enough step steps
        obtain ⟨m, r, there, kind, documented⟩ := exists_declaration wellKinded found rfl member
        exact ih ⟨there, documented, each c member⟩ (by omega) kind deep enough steps
    | _ => simp [Node.kind, Body.kind, Role.kinds] at kind

end

end Render

end DocLocale
