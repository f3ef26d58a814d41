import DocLocale.Proofs.Source.Declarations
import Mathlib.Tactic.Common

/-!
Rows with declarations, in files and in blocks. A declaration is read from its keyword on, behind the word that makes it
ambient at the top level.
-/

set_option autoImplicit false
set_option relaxedAutoImplicit false

namespace DocLocale.Source

open Text (byteLength IsBlankText)

namespace Grammar

variable {k : Knot} {kw : Keyword} {chars : List Char}

/-- A text is read as a declaration with a given keyword; what it gives may depend on the comments around it. -/
structure ReadsDeclaration (k : Knot) (kw : Keyword) (chars : List Char)
    (gives : (Nat → Option DocComment) → Nat → Item → Prop) : Prop where
  ends : EndsRow chars
  named : ∃ v more, kw.Allows v ∧ chars = kw.text.toList ++ ' ' :: (v.toList ++ more) ∧
    ∀ rest, Lexes v.toList (.word v) (more ++ rest)
  reads : ∀ ctx start pos lo broken rest, Fits ctx pos (chars ++ rest) → ∃ item met,
    Crosses ctx (kw.parser (level k) lo) broken pos chars rest item met ∧
      Reveals ctx.text start met fun comment? => gives comment? lo item

/-- The word that makes a declaration ambient. -/
def ambientWord : List Char := "declare".toList

/-- The text of a declaration at the top level or in a block. -/
def itemChars (top : Bool) (chars : List Char) : List Char := if top then ambientWord ++ ' ' :: chars else chars

namespace ReadsDeclaration

variable {gives : (Nat → Option DocComment) → Nat → Item → Prop}

theorem keyword (reads : ReadsDeclaration k kw chars gives) (rest : List Char) :
    ∃ cs, chars ++ rest = kw.text.toList ++ ' ' :: cs ∧ Lexes kw.text.toList (.word kw.text) (' ' :: cs) ∧
      ∃ v, kw.Allows v ∧ Heads cs (.word v) := by
  obtain ⟨v, more, allowed, rfl, named⟩ := reads.named
  refine ⟨v.toList ++ (more ++ rest), by simp, ?_, v, allowed, (named rest).heads⟩
  cases kw <;> exact lexes_name (by decide) (apart_blank _)

theorem heads (reads : ReadsDeclaration k kw chars gives) (top : Bool) (rest : List Char) :
    ∃ w, Heads (itemChars top chars ++ rest) (.word w) := by
  rw [itemChars]
  split
  · rw [List.append_assoc]
    exact ⟨_, (lexes_name (by decide) (apart_blank _)).heads⟩
  · obtain ⟨cs, shape, lexes, -⟩ := reads.keyword rest
    rw [shape]
    exact ⟨_, lexes.heads⟩

/-- A declaration as a statement. -/
theorem statement_crosses (reads : ReadsDeclaration k kw chars gives) (top : Bool) {ctx : Context} (start : Nat)
    {pos : Nat} (broken : Bool) {rest : List Char} (fits : Fits ctx pos (itemChars top chars ++ rest)) :
    ∃ item met, Crosses ctx (statement (level k) true) broken pos (itemChars top chars) rest item met ∧
      Reveals ctx.text start met fun comment? => gives comment? pos item := by
  have room := fits.room
  obtain ⟨cs, shape, lexes, v, allowed, named⟩ := reads.keyword rest
  rw [itemChars] at fits ⊢
  cases top with
  | true =>
    rw [if_pos rfl, List.append_assoc] at fits
    rw [if_pos rfl]
    obtain ⟨item, met, crosses, reveals⟩ := reads.reads ctx start _ pos false rest fits.drop.blank
    have word : Lexes ambientWord (.word "declare") (' ' :: (chars ++ rest)) := lexes_name (by decide) (apart_blank _)
    refine ⟨item, met, Crosses.behind_word word crosses fun last comments => ?_, reveals⟩
    have next : (Cursor.behind last pos broken comments (ambientWord ++ ' ' :: (chars ++ rest))).next =
        .behind (pos + byteLength ambientWord) (pos + byteLength ambientWord + 1) false comments (chars ++ rest) := by
      rw [word.next_behind, Cursor.facing_blank]
      rfl
    rw [statement_declare (v := v) (word.heads.token_behind _ _ _ _) ?_ ?_ allowed ?_]
    · rw [word.heads.lo_behind]
    · rw [next, shape]
      exact lexes.heads.token_behind _ _ _ _
    · rw [next, shape, lexes.next_behind, Cursor.facing_blank]
      exact named.token_behind _ _ _ _
    · rw [word.heads.lo_behind]
      omega
  | false =>
    rw [if_neg Bool.false_ne_true] at fits ⊢
    obtain ⟨item, met, crosses, reveals⟩ := reads.reads ctx start pos pos broken rest fits
    refine ⟨item, met, crosses.congr fun last comments => ?_, reveals⟩
    rw [shape, statement_nested (v := v) (lexes.heads.token_behind _ _ _ _) ?_ ?_ allowed ?_]
    · rw [lexes.heads.lo_behind]
    · rw [lexes.next_behind, Cursor.facing_blank]
      exact named.token_behind _ _ _ _
    · rw [lexes.next_behind, Cursor.facing_blank]
      exact named.lineBreak_behind _ _ _ _
    · rw [lexes.heads.lo_behind]
      omega

theorem ends_itemChars (reads : ReadsDeclaration k kw chars gives) (top : Bool) : EndsRow (itemChars top chars) := by
  rw [itemChars]
  split
  · exact (reads.ends.behind [' ']).behind _
  · exact reads.ends

end ReadsDeclaration

/-- A step reads a statement wherever a word stands. -/
def ReadsStatements (k : Knot) (step : Parse (Option Item)) : Prop :=
  ∀ ctx c w, c.token = .word w → step ctx c = (statement k true >>= fun item => pure (some item)) ctx c

/-- One round of the items of a file. -/
def fileStep (k : Knot) : Parse (Option Item) := do
  if (← Parse.token) == .eof then return none
  return some (← k.statement true)

theorem readsStatements_file (k : Knot) : ReadsStatements k (fileStep (level k)) := by
  intro ctx c w word
  simp [fileStep, Parse.token, word]
  rfl

theorem readsStatements_block (k : Knot) : ReadsStatements k (blockStep (level k)) := by
  intro ctx c w word
  simp [blockStep, Parse.isSymbol, Parse.token, word]
  rfl

/-- A row with a declaration, whose comment gives it tags. -/
theorem ReadsDeclaration.row {gives : (Nat → Option DocComment) → Nat → Item → Prop} {step : Parse (Option Item)}
    (reads : ReadsDeclaration k kw chars gives) (steps : ReadsStatements (level k) step) {gap : List Char}
    {tags : List String} (gapped : GapReads gap tags) (top : Bool) :
    RowReads step (gap ++ itemChars top chars) fun comment? item =>
      ∃ lo, tagsOf (comment? lo) = tags ∧ gives comment? lo item := by
  refine rowReads_of_gap gapped (reads.ends_itemChars top) (fun rest => ?_) fun ctx start pos rest fits => ?_
  · obtain ⟨w, heads⟩ := reads.heads top rest
    exact ⟨_, heads⟩
  · obtain ⟨w, heads⟩ := reads.heads top rest
    obtain ⟨item, met, crosses, reveals⟩ := reads.statement_crosses top start true fits
    refine ⟨item, met, crosses.as_step fun last comments => steps ctx _ w (heads.token_behind _ _ _ _), ?_⟩
    exact reveals.mono (fun c member => member) fun comment? given tagged => ⟨pos, tagged, given⟩

/-! ### Declarations of one line -/

private theorem endsRow_semicolon (front : List Char) : EndsRow (front ++ [';']) := ⟨front, ';', rfl, by decide⟩

theorem readsDeclaration_var {name : String} {type : List Char} (keyword : kw = .const ∨ kw = .let)
    (valued : IsValueName name) (allowed : kw.Allows name) (reads : CrossesType (level k) type) :
    ReadsDeclaration k kw (kw.text.toList ++ (' ' :: typedChars name false type ++ [';'])) fun _ lo item =>
      ∃ isConst t, item = .vars lo isConst [.named name t] where
  ends := (endsRow_semicolon _).behind _
  named := ⟨name, ':' :: ' ' :: type ++ [';'], allowed, by simp [typedChars], fun rest =>
    valued.named _ (apart_mark (s := ":") (by simp [marks]) _)⟩
  reads ctx start pos lo broken rest fits := by
    rw [List.append_assoc, List.append_assoc] at fits
    obtain ⟨isConst, t, met, crosses⟩ := varDeclaration_crosses keyword
      (readsTargets_level k) valued reads fits
    exact ⟨_, met, crosses, fun hi all inside given => ⟨isConst, t, rfl⟩⟩

theorem readsDeclaration_function {name : String} {s : SignatureText} (named : IsWordName name)
    (bindable : isBindable name = true) (reads : s.Reads (level k)) :
    ReadsDeclaration k .function (Keyword.function.text.toList ++ (' ' :: name.toList ++ (s.chars ++ [';'])))
      fun _ lo item => ∃ f, item = .function lo name f ∧ s.Given f where
  ends := ((endsRow_semicolon _).behind _).behind _
  named := ⟨name, s.chars ++ [';'], trivial, rfl, fun rest => named _ (by
    rw [List.append_assoc]
    exact (s.opens _).1)⟩
  reads ctx start pos lo broken rest fits := by
    obtain ⟨f, met, crosses, given⟩ := functionDeclaration_crosses named bindable reads
      (by simpa using fits)
    exact ⟨_, met, crosses, fun hi all inside _ => ⟨f, rfl, given⟩⟩

/-- The text of a type alias from its keyword on. -/
def aliasChars (name : String) (gs : List GenericText) (type : List Char) : List Char :=
  Keyword.type.text.toList ++ ((' ' :: name.toList) ++ (genericsText gs ++ ((' ' :: ['=']) ++ ((' ' :: type) ++ [';']))))

theorem readsDeclaration_alias {name : String} {gs : List GenericText} {type : List Char} (named : IsWordName name)
    (referable : isReference name = true) (generics : ∀ g ∈ gs, g.Reads (level k)) (reads : CrossesType (level k) type) :
    ReadsDeclaration k .type (aliasChars name gs type) fun _ lo item => ∃ ps t, item = .typeAlias lo name ps t where
  ends := ((((endsRow_semicolon _).behind _).behind _).behind _).behind _
  named := ⟨name, genericsText gs ++ ((' ' :: ['=']) ++ ((' ' :: type) ++ [';'])), referable, rfl, fun rest => named _ (by
    rw [List.append_assoc]
    exact apart_generics (apart_blank _))⟩
  reads ctx start pos lo broken rest fits := by
    obtain ⟨ps, t, met, crosses⟩ := aliasRest_crosses named generics reads
      (by simpa [aliasChars] using fits)
    exact ⟨_, met, crosses, fun hi all inside _ => ⟨ps, t, rfl⟩⟩

/-! ### Blocks -/

/-- The text of a block from its head on: rows, and what stands before the closing brace. -/
def blockText (head rows close : List Char) : List Char := head ++ (rows ++ (close ++ ['\x7d']))

private theorem endsRow_block (head rows close : List Char) : EndsRow (blockText head rows close) :=
  (EndsRow.behind (EndsRow.behind ⟨close, '\x7d', rfl, by decide⟩ rows) head)

section
variable {ι α : Type} {row : ι → List Char} {given : ι → (Nat → Option DocComment) → α → Prop} {items : List ι}
  {step : Parse (Option α)} {close head : List Char} {ctx : Context} {pos : Nat} {rest : List Char}

/-- The rows between the braces of a block. -/
private theorem rows_moves (reads : ∀ x ∈ items, RowReads step (row x) (given x))
    (stops : ∀ pos rest, Sees ctx step pos (close ++ '\x7d' :: rest) none) (opens : EndsRow head) (start : Nat)
    (fits : Fits ctx pos (blockText head (items.flatMap row) close ++ rest)) :
    Fits ctx pos (head ++ (items.flatMap row ++ (close ++ ['\x7d']) ++ rest)) ∧
    ∃ as met, Moves ctx (Parse.repeated step) (pos + byteLength head) (items.flatMap row) (close ++ ['\x7d'] ++ rest)
        as met ∧ Reveals ctx.text start met (GivesRows given items · as) := by
  have split : Fits ctx pos (head ++ (items.flatMap row ++ (close ++ ['\x7d']) ++ rest)) := by
    simpa [blockText] using fits
  have inner := split.drop
  have borders : Borders ctx start _ _ := split.borders opens
  rw [List.append_assoc] at inner borders
  exact ⟨split, repeated_rows reads (fun pos => by simpa using stops pos rest) inner borders⟩

end

section
variable {ι : Type} {row : ι → List Char} {items : List ι} {close : List Char}

private theorem endsRow_brace (front : List Char) : EndsRow (front ++ [' ', '\x7b']) := ⟨front ++ [' '], '\x7b', by simp, by decide⟩

/-- An interface is read with its members. -/
theorem readsDeclaration_interface {name : String} {gs : List GenericText} {bases : List (List Char)}
    {given : ι → (Nat → Option DocComment) → Member → Prop} (named : IsWordName name)
    (referable : isReference name = true) (generics : ∀ g ∈ gs, g.Reads (level k))
    (extended : ∀ r ∈ bases, CrossesHeritage (level k) r) (blank : IsBlankText close)
    (reads : ∀ x ∈ items, RowReads (memberStep (level k)) (row x) (given x)) :
    ReadsDeclaration k .interface (blockText (interfaceHead name gs bases) (items.flatMap row) close)
      fun comment? lo item => ∃ ps rs ms, item = .interface lo name ps rs ms ∧ GivesRows given items comment? ms where
  ends := endsRow_block _ _ _
  named := ⟨name, _, referable, by simp only [blockText, interfaceHead, List.append_assoc, List.cons_append]; rfl, fun rest =>
    named _ (by
      simp only [List.append_assoc]
      exact apart_generics (apart_heritage _ _ (apart_blank _)))⟩
  reads ctx start pos lo broken rest fits := by
    have opens : EndsRow (interfaceHead name gs bases) := (((endsRow_brace _).behind _).behind _).behind _
    obtain ⟨split, ms, met, body, reveals⟩ := rows_moves reads (fun pos rest => memberStep_ends blank) opens start fits
    obtain ⟨ps, rs, passed, crosses⟩ := interface_crosses named generics extended blank split
      body
    exact ⟨_, _, crosses, reveals.mono (fun c member => List.mem_append_left _ member) fun comment? gives =>
      ⟨ps, rs, ms, rfl, gives⟩⟩

/-- A class is read with its members. -/
theorem readsDeclaration_class {name : String} {gs : List GenericText} {bases interfaces : List (List Char)}
    {given : ι → (Nat → Option DocComment) → Member → Prop} (named : IsWordName name)
    (bindable : isBindable name = true) (free : name ≠ "let") (generics : ∀ g ∈ gs, g.Reads k)
    (extended : ∀ b ∈ bases, CrossesBase k b) (single : bases.length ≤ 1)
    (implemented : ∀ r ∈ interfaces, CrossesHeritage k r) (blank : IsBlankText close)
    (reads : ∀ x ∈ items, RowReads (classStep k) (row x) (given x)) :
    ReadsDeclaration k .class (blockText (classHead name gs bases interfaces) (items.flatMap row) close)
      fun comment? lo item => ∃ ps bs is ms, item = .classDecl lo name ps bs is ms ∧ GivesRows given items comment? ms where
  ends := endsRow_block _ _ _
  named := ⟨name, _, trivial, by simp only [blockText, classHead, List.append_assoc, List.cons_append]; rfl, fun rest =>
    named _ (by
      simp only [List.append_assoc]
      exact apart_generics (apart_heritage _ _ (apart_heritage _ _ (apart_blank _))))⟩
  reads ctx start pos lo broken rest fits := by
    have opens : EndsRow (classHead name gs bases interfaces) :=
      ((((endsRow_brace _).behind _).behind _).behind _).behind _
    obtain ⟨split, ms, met, body, reveals⟩ := rows_moves reads (fun pos rest => classStep_ends blank) opens start fits
    obtain ⟨ps, bs, is, passed, crosses⟩ := class_crosses named bindable free generics extended
      single implemented blank split body
    exact ⟨_, _, crosses, reveals.mono (fun c member => List.mem_append_left _ member) fun comment? gives =>
      ⟨ps, bs, is, ms, rfl, gives⟩⟩

/-- An enum is read whatever its members are. -/
theorem readsDeclaration_enum {name : String} {given : ι → (Nat → Option DocComment) → String × Option String → Prop}
    (named : IsWordName name) (referable : isReference name = true) (blank : IsBlankText close)
    (reads : ∀ x ∈ items, RowReads (enumStep (level k)) (row x) (given x)) :
    ReadsDeclaration k .enum (blockText (enumHead name) (items.flatMap row) close)
      fun _ lo item => ∃ ms, item = .enum lo name ms where
  ends := endsRow_block _ _ _
  named := ⟨name, _, referable, by simp only [blockText, enumHead, List.append_assoc, List.cons_append]; rfl, fun rest =>
    named _ (apart_blank _)⟩
  reads ctx start pos lo broken rest fits := by
    have opens : EndsRow (enumHead name) := ((endsRow_brace []).behind _).behind _
    obtain ⟨split, ms, met, body, reveals⟩ := rows_moves reads (fun pos rest => enumStep_ends blank) opens start fits
    exact ⟨_, _, enum_crosses named blank body, fun hi all inside _ => ⟨_, rfl⟩⟩

/-- A namespace is read with its items. -/
theorem readsDeclaration_namespace {name : String} {given : ι → (Nat → Option DocComment) → Item → Prop}
    (named : IsWordName name) (referable : isReference name = true) (free : name ∉ operatorWords) (blank : IsBlankText close)
    (reads : ∀ x ∈ items, RowReads (blockStep (level k)) (row x) (given x)) :
    ReadsDeclaration k .namespace (blockText (namespaceHead name) (items.flatMap row) close)
      fun comment? lo item => ∃ is, item = .namespaceDecl lo name is ∧ GivesRows given items comment? is where
  ends := endsRow_block _ _ _
  named := ⟨name, _, ⟨referable, free⟩, by simp only [blockText, namespaceHead, List.append_assoc, List.cons_append]; rfl,
    fun rest => named _ (apart_blank _)⟩
  reads ctx start pos lo broken rest fits := by
    have opens : EndsRow (namespaceHead name) := ((endsRow_brace []).behind _).behind _
    obtain ⟨split, is, met, body, reveals⟩ := rows_moves reads (fun pos rest => blockStep_ends blank) opens start fits
    exact ⟨_, _, namespace_crosses named blank split body,
      reveals.mono (fun c member => member) fun comment? gives => ⟨is, rfl, gives⟩⟩

end

end Grammar

end DocLocale.Source
