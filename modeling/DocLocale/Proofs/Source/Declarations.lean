import DocLocale.Proofs.Source.Blocks
import DocLocale.Proofs.Source.Keywords
import DocLocale.Proofs.Source.TypeRereading
import Mathlib.Tactic.Common

/-!
Printed declarations, crossed by the grammar from their keywords on. What stands in a block is left to the caller.
-/

set_option autoImplicit false
set_option relaxedAutoImplicit false

namespace DocLocale.Source

open Text (byteLength)

namespace Grammar

variable {ctx : Context} {k : Knot} {pos lo : Nat} {rest : List Char} {broken : Bool}

/-! ### Variables and functions -/

/-- A name that declarations of values can have. -/
structure IsValueName (name : String) : Prop where
  named : IsWordName name
  bindable : isBindable name = true
  free : name ≠ "let"

private theorem binding_crosses {name : String} {type : List Char} (targets : ReadsTargets k) (valued : IsValueName name)
    (reads : CrossesType k type) (fits : Fits ctx pos (typedChars name false type ++ ';' :: rest)) :
    ∃ t met, Crosses ctx (binding k false) false pos (typedChars name false type) (';' :: rest) (.named name t) met := by
  have shape : typedChars name false type = name.toList ++ (':' :: ' ' :: type) := by simp [typedChars]
  rw [shape, List.append_assoc] at fits
  have colon : Shows ((':' :: ' ' :: type) ++ ';' :: rest) (.symbol ":") := (begins_mark (by simp [marks]) _).shows
  have semicolon : Shows (';' :: rest) (.symbol ";") := (begins_mark (by simp [marks]) rest).shows
  have apart : Apart ((':' :: ' ' :: type) ++ ';' :: rest) := apart_mark (s := ":") (by simp [marks]) _
  obtain ⟨t, met, annotated⟩ := annotation?_crosses reads fits.drop (follows_mark (s := ";") (by simp [stopMarks]) rest)
  have target := targets false ctx pos name _ valued.named valued.bindable (fun _ => valued.free) apart
  refine ⟨t, met, ?_⟩
  rw [shape]
  refine Sees.bind_crosses_append (valued.named _ apart).begins.sees_position (target.bind_crosses ?_)
  refine (colon.not_eat (by simp)).bind_crosses (annotated.bind_sees ?_)
  exact (semicolon.not_eat (by simp)).bind (.pure _ _ _)

private theorem bindings_crosses {name : String} {type : List Char} (targets : ReadsTargets k) (valued : IsValueName name)
    (reads : CrossesType k type) (fits : Fits ctx pos (typedChars name false type ++ ';' :: rest)) :
    ∃ t met, Crosses ctx (bindings k false) false pos (typedChars name false type) (';' :: rest) [.named name t] met := by
  have semicolon : Shows (';' :: rest) (.symbol ";") := (begins_mark (by simp [marks]) rest).shows
  obtain ⟨more, shape, marked⟩ := typedChars_marked name false type (';' :: rest)
  have word : Begins (typedChars name false type ++ ';' :: rest) (.word name) := by
    rw [shape]
    exact (valued.named _ marked.lexes.1).begins
  have room := fits.room
  obtain ⟨t, met, bound⟩ := binding_crosses targets valued reads fits
  obtain ⟨fuel, budget⟩ : ∃ fuel, ctx.size + 2 - pos = fuel + 1 := ⟨ctx.size + 1 - pos, by omega⟩
  have go : Crosses ctx (bindings.go k false (fuel + 1)) false pos (typedChars name false type) (';' :: rest)
      [.named name t] met :=
    (word.shows.not_isSymbol (by simp)).bind_crosses (bound.bind_sees ((semicolon.not_eat (by simp)).bind (.pure _ _ _)))
  refine ⟨t, met, go.congr fun last comments => ?_⟩
  have start : (Cursor.behind last pos false comments (typedChars name false type ++ ';' :: rest)).lo = pos :=
    word.lo_facing last pos comments
  simp only [bindings, Parse.run_bind, Parse.budget, start, budget]

/-- Behind its keyword stands what makes up a variable. -/
theorem varDeclaration_crosses {kw : Keyword} {name : String} {type : List Char} (keyword : kw = .const ∨ kw = .let)
    (targets : ReadsTargets k) (valued : IsValueName name) (reads : CrossesType k type)
    (fits : Fits ctx pos (kw.text.toList ++ (' ' :: typedChars name false type ++ ';' :: rest))) :
    ∃ isConst t met, Crosses ctx (kw.parser k lo) broken pos (kw.text.toList ++ (' ' :: typedChars name false type ++ [';']))
      rest (.vars lo isConst [.named name t]) met := by
  have word : Lexes kw.text.toList (.word kw.text) (' ' :: typedChars name false type ++ [';'] ++ rest) := by
    rcases keyword with rfl | rfl
    · exact lexes_name (by decide) (apart_blank _)
    · exact lexes_name (by decide) (apart_blank _)
  have value : (kw.text == "var") = false := by rcases keyword with rfl | rfl <;> rfl
  obtain ⟨t, met, bound⟩ := bindings_crosses targets valued reads fits.drop.blank
  refine ⟨kw.text == "const", t, met ++ [], ?_⟩
  have parser : kw.parser k lo = varDeclaration k lo := by rcases keyword with rfl | rfl <;> rfl
  rw [parser, varDeclaration]
  refine word.crosses_anyWord.bind ?_
  rw [value]
  exact bound.blank.bind_takes (varEnd_semicolon.bind_sees (.pure _ _ _))

theorem functionDeclaration_crosses {name : String} {s : SignatureText} (named : IsWordName name)
    (bindable : isBindable name = true) (reads : s.Reads k)
    (fits : Fits ctx pos (Keyword.function.text.toList ++ (' ' :: name.toList ++ (s.chars ++ ';' :: rest)))) :
    ∃ f met, Crosses ctx (Keyword.function.parser k lo) broken pos
      (Keyword.function.text.toList ++ (' ' :: name.toList ++ (s.chars ++ [';']))) rest (.function lo name f) met ∧
      s.Given f := by
  have word : Lexes Keyword.function.text.toList (.word "function")
      ((' ' :: name.toList ++ (s.chars ++ [';'])) ++ rest) := lexes_name (by decide) (apart_blank _)
  have apart : Apart (s.chars ++ [';'] ++ rest) := by
    rw [List.append_assoc]
    exact (s.opens _).1
  have lexes := named _ apart
  have target : Crosses ctx (Parse.bindingName true) false (pos + byteLength Keyword.function.text.toList)
      (' ' :: name.toList) (s.chars ++ [';'] ++ rest) name [] :=
    (bindingName_crosses named bindable (by simp) apart).blank
  obtain ⟨f, met, tail, given⟩ := functionTail_moves false reads fits.drop.drop
  refine ⟨f, met ++ [] ++ [], ?_, given⟩
  rw [Keyword.parser, functionDeclaration]
  refine word.crosses_expectWord.bind (Sees.bind_crosses ?_ (target.bind_moves (tail.bind_sees (.pure _ _ _))))
  have shown : Sees ctx (Parse.eat "*") (pos + byteLength Keyword.function.text.toList)
      (' ' :: (name.toList ++ (s.chars ++ [';'] ++ rest))) false := lexes.shows.blank.not_eat (by simp)
  simpa using shown

/-! ### Type aliases -/

theorem aliasRest_crosses {name : String} {gs : List GenericText} {type : List Char} (named : IsWordName name)
    (generics : ∀ g ∈ gs, g.Reads k) (reads : CrossesType k type)
    (fits : Fits ctx pos (Keyword.type.text.toList ++ ((' ' :: name.toList) ++ (genericsText gs ++
      ((' ' :: ['=']) ++ ((' ' :: type) ++ ';' :: rest)))))) :
    ∃ ps t met, Crosses ctx (Keyword.type.parser k lo) broken pos (Keyword.type.text.toList ++ ((' ' :: name.toList) ++
      (genericsText gs ++ ((' ' :: ['=']) ++ ((' ' :: type) ++ [';']))))) rest (.typeAlias lo name ps t) met := by
  have word : ∀ cs, Lexes Keyword.type.text.toList (.word "type") (' ' :: cs) := fun cs =>
    lexes_name (by decide) (apart_blank _)
  have equals : ∀ cs, Lexes ['='] (.symbol "=") (' ' :: cs) := lexes_equals
  have apart : Apart (genericsText gs ++ ((' ' :: ['=']) ++ ((' ' :: type) ++ [';'])) ++ rest) := by
    rw [genericsText]
    split
    · exact apart_blank _
    · exact apart_mark (s := "<") (by simp [marks]) _
  obtain ⟨ps, first, head⟩ := typeParameters_moves generics
    fits.drop.drop (equals _).shows.blank (by simp)
  obtain ⟨t, second, typed⟩ := reads.crosses ctx _ (';' :: rest) (by simpa using fits.drop.drop.drop.drop.blank)
    (follows_mark (s := ";") (by simp [stopMarks]) rest)
  refine ⟨ps, t.type, second ++ first ++ [] ++ [], ?_⟩
  rw [Keyword.parser]
  refine Crosses.bind (word _).crosses_advance ?_
  rw [aliasRest]
  refine Crosses.bind_moves (((named _ apart).crosses_anyWord).blank) ?_
  refine Moves.bind (by simpa using head) (Crosses.moves ?_)
  refine Takes.bind_crosses (equals _).expect.blank ?_
  exact (Crosses.blank (by simpa using typed)).bind_takes (expectSemicolon_takes.bind_sees (.pure _ _ _))

/-! ### Heritage -/

/-- Tokens that may follow an entry of a heritage clause. -/
def heritageEnds : List Token := [.symbol ",", .symbol "\x7b", .word "implements"]

/-- Tokens that may follow the class that another one extends. -/
def classEnds : List Token := [.symbol "\x7b", .word "implements"]

/-- Words that start heritage clauses. -/
def heritageWords : List String := ["extends", "implements"]

/-- The grammar crosses a text as one entry of a heritage clause. -/
structure CrossesHeritage (k : Knot) (text : List Char) : Prop where
  nonempty : text ≠ []
  begins : ∀ rest, Follows heritageEnds rest → ∃ w, w ∉ heritageWords ∧ Begins (text ++ rest) (.word w)
  crosses : ∀ ctx pos rest, Fits ctx pos (text ++ rest) → Follows heritageEnds rest →
    ∃ r met, Crosses ctx k.heritage false pos text rest r met

/-- The grammar crosses a text as the class that another one extends. -/
def CrossesBase (k : Knot) (text : List Char) : Prop :=
  ∀ ctx pos rest, Fits ctx pos (text ++ rest) → Follows classEnds rest →
    ∃ r met, Crosses ctx (superclass k) false pos text rest r met

/-- The text of a heritage clause; nothing when it has no entries. -/
def heritageChars (w : String) (refs : List (List Char)) : List Char :=
  if refs = [] then [] else (' ' :: w.toList) ++ ' ' :: [',', ' '].intercalate refs

/-- Whether a heritage clause ends. -/
private def atHeritageEnd : Parse Bool := do
  let here ← Parse.cursor
  return here.token == .symbol openBrace || here.token == .word "implements" || here.token == .word "extends"

private theorem atHeritageEnd_shown {cs : List Char} {token : Token} (shown : Shows cs token) :
    Sees ctx atHeritageEnd pos cs
      (token == .symbol openBrace || token == .word "implements" || token == .word "extends") := fun last comments => by
  simp only [atHeritageEnd, Parse.run_bind, Parse.cursor, (shown last pos comments).1]
  rfl

theorem heritageList_crosses {refs : List (List Char)} (reads : ∀ r ∈ refs, CrossesHeritage k r) (nonempty : refs ≠ [])
    (fits : Fits ctx pos ([',', ' '].intercalate refs ++ rest)) (follows : Follows classEnds rest) :
    ∃ rs met, Crosses ctx (heritageList k) false pos ([',', ' '].intercalate refs) rest rs met := by
  obtain ⟨token, listed, shown⟩ := follows.shows
  have final : Follows heritageEnds rest := follows.mono (by simp [classEnds, heritageEnds])
  have ended : (token == .symbol openBrace || token == .word "implements" || token == .word "extends") = true := by
    simp only [classEnds, List.mem_cons, List.not_mem_nil, or_false] at listed
    rcases listed with rfl | rfl <;> simp [openBrace]
  have comma : token ≠ .symbol "," := by
    rintro rfl
    simp [classEnds] at listed
  have listing : Listing ctx (commaStep atHeritageEnd k.heritage) id (fun _ _ => True) rest refs := by
    refine commaStep_listing ?_ (fun r member => (reads r member).nonempty) ?_ ?_ final
      ?_ (fun pos => shown.not_eat comma)
    · intro r member pos rest fits follows
      obtain ⟨a, met, crosses⟩ := (reads r member).crosses ctx pos rest fits follows
      exact ⟨a, met, crosses, trivial⟩
    · intro r member cs follows
      obtain ⟨w, other, begins⟩ := (reads r member).begins cs follows
      refine ⟨⟨_, begins⟩, fun pos => ?_⟩
      have open_ : Sees ctx atHeritageEnd pos (r ++ cs) _ := atHeritageEnd_shown begins.shows
      simp only [heritageWords, List.mem_cons, List.not_mem_nil, or_false, not_or] at other
      have none : (Token.word w == .symbol openBrace || Token.word w == .word "implements" ||
          Token.word w == .word "extends") = false := by simp [other]
      rwa [none] at open_
    · intro cs
      have mark : (',', ",") ∈ marks := by simp [marks]
      exact ⟨apart_mark mark cs, .symbol ",", by simp [heritageEnds], (begins_mark mark cs).shows⟩
    · intro pos
      have closed : Sees ctx atHeritageEnd pos rest _ := atHeritageEnd_shown shown
      rwa [ended] at closed
  obtain ⟨rs, met, crosses, -⟩ := listing.repeated nonempty (by simpa using fits)
  rw [List.map_id] at crosses
  exact ⟨rs, met, crosses⟩

/-! ### Blocks -/

/-- The text of a block with rows between its braces, and what stands before the last one. -/
def blockChars (rows close : List Char) : List Char := ' ' :: '\x7b' :: (rows ++ (close ++ ['\x7d']))

private theorem shows_block (cs : List Char) : Shows (' ' :: '\x7b' :: cs) (.symbol openBrace) :=
  (begins_mark (s := openBrace) (by simp [marks, openBrace]) cs).shows.blank

private theorem follows_block (refs : List (List Char)) (cs : List Char) :
    Follows classEnds (heritageChars "implements" refs ++ ' ' :: '\x7b' :: cs) := by
  rw [heritageChars]
  split
  · exact ⟨apart_blank _, .symbol openBrace, by simp [classEnds, openBrace], shows_block cs⟩
  · refine ⟨apart_blank _, .word "implements", by simp [classEnds], ?_⟩
    rw [List.append_assoc, List.cons_append]
    exact (lexes_name (by decide) (apart_blank _)).shows.blank

/-- A heritage clause, if its word follows. -/
private def heritageClause {α γ : Type} (entries : Parse γ) (wrap : γ → List Reference) (w : String)
    (next : List Reference → Parse α) : Parse α := do
  if ← Parse.eatWord w then next (wrap (← entries)) else next []

private theorem heritageClause_moves {α γ : Type} {entries : Parse γ} (wrap : γ → List Reference) {w : String}
    {refs : List (List Char)} (next : List Reference → Parse α) {more : List Char} {token : Token}
    (gives : α → List Comment → Prop) (word : ∀ cs, Lexes w.toList (.word w) (' ' :: cs))
    (reads : refs ≠ [] → ∀ pos, Fits ctx pos ([',', ' '].intercalate refs ++ (more ++ rest)) →
      ∃ rs met, Crosses ctx entries false pos ([',', ' '].intercalate refs) (more ++ rest) rs met)
    (fits : Fits ctx pos (heritageChars w refs ++ (more ++ rest))) (shown : Shows (more ++ rest) token)
    (other : token ≠ .word w)
    (later : ∀ rs, ∃ a met, Moves ctx (next rs) (pos + byteLength (heritageChars w refs)) more rest a met ∧ gives a met) :
    ∃ a met passed, Moves ctx (heritageClause entries wrap w next) pos (heritageChars w refs ++ more) rest a (met ++ passed) ∧
      gives a met := by
  rw [heritageChars] at fits later ⊢
  by_cases empty : refs = []
  · rw [if_pos empty] at later
    rw [if_pos empty]
    obtain ⟨a, met, moves, given⟩ := later []
    refine ⟨a, met, [], ?_, given⟩
    rw [List.append_nil]
    exact (shown.not_eatWord other).bind_moves moves
  · rw [if_neg empty] at fits later
    rw [if_neg empty]
    rw [List.append_assoc] at fits
    obtain ⟨rs, first, listed⟩ := reads empty _ fits.drop.blank
    obtain ⟨a, met, moves, given⟩ := later (wrap rs)
    rw [Text.byteLength_append, ← Nat.add_assoc] at moves
    have clause := listed.blank.bind_moves (f := fun entries => next (wrap entries)) moves
    refine ⟨a, met, first, Crosses.moves ?_, given⟩
    rw [List.append_assoc]
    refine Takes.bind_crosses (word _).eatWord.blank ?_
    exact clause

/-- What follows the entries of an interface. -/
private theorem typeMembers_crosses {rows close : List Char} {ms : List Member} {met : List Comment}
    (blank : Text.IsBlankText close)
    (body : Moves ctx (Parse.repeated (memberStep k)) (pos + byteLength [' ', '\x7b']) rows (close ++ ['\x7d'] ++ rest)
      ms met) : Crosses ctx (typeMembers k) false pos (blockChars rows close) rest ms met := by
  have opening : ∀ cs, Lexes ['\x7b'] (.symbol openBrace) cs := lexes_mark (by simp [marks, openBrace])
  have closing : Takes ctx (Parse.expect closeBrace >>= fun _ => pure ms)
      (pos + byteLength [' ', '\x7b'] + byteLength rows) (close ++ ['\x7d']) rest ms :=
    (closes_block blank).1.bind_sees (.pure _ _ _)
  exact (opening _).expect.blank.bind_moves (body.bind_takes closing)

/-- The text of an interface up to its opening brace. -/
def interfaceHead (name : String) (gs : List GenericText) (bases : List (List Char)) : List Char :=
  Keyword.interface.text.toList ++ ((' ' :: name.toList) ++ (genericsText gs ++
    (heritageChars "extends" bases ++ [' ', '\x7b'])))

theorem apart_generics {gs : List GenericText} {cs : List Char} (apart : Apart cs) :
    Apart (genericsText gs ++ cs) := by
  rw [genericsText]
  split
  · exact apart
  · exact apart_mark (s := "<") (by simp [marks]) _

theorem apart_heritage (w : String) (refs : List (List Char)) {cs : List Char} (apart : Apart cs) :
    Apart (heritageChars w refs ++ cs) := by
  rw [heritageChars]
  split
  · exact apart
  · exact apart_blank _

private theorem shows_heritage {w : String} {cs : List Char} {token : Token}
    (word : ∀ cs, Lexes w.toList (.word w) (' ' :: cs)) (refs : List (List Char)) (shown : Shows cs token)
    (other : token ≠ .symbol "<") : ∃ token, token ≠ .symbol "<" ∧ Shows (heritageChars w refs ++ cs) token := by
  rw [heritageChars]
  split
  · exact ⟨token, other, shown⟩
  · rw [List.append_assoc, List.cons_append]
    exact ⟨.word w, by simp, (word _).shows.blank⟩

/-- An interface behind its first heritage clause. -/
private def interfaceEnd (k : Knot) (lo : Nat) (name : String) (ps : List TypeParameter) (bases : List Reference) :
    Parse Item := do
  if ← Parse.isWord "extends" then
    let skipped : Parse (Option Unit) := do
      if (← Parse.isSymbol openBrace) || (← Parse.token) == .eof then return none
      Parse.advance
      return some ()
    let _ ← Parse.repeated skipped
  return .interface lo name ps bases (← typeMembers k)

theorem interface_crosses {name : String} {gs : List GenericText} {bases : List (List Char)} {rows close : List Char}
    {ms : List Member} {met : List Comment} (named : IsWordName name) (generics : ∀ g ∈ gs, g.Reads k)
    (extended : ∀ r ∈ bases, CrossesHeritage k r) (blank : Text.IsBlankText close)
    (fits : Fits ctx pos (interfaceHead name gs bases ++ (rows ++ (close ++ ['\x7d']) ++ rest)))
    (body : Moves ctx (Parse.repeated (memberStep k)) (pos + byteLength (interfaceHead name gs bases)) rows
      (close ++ ['\x7d'] ++ rest) ms met) :
    ∃ ps rs passed, Crosses ctx (Keyword.interface.parser k lo) broken pos
      (interfaceHead name gs bases ++ (rows ++ (close ++ ['\x7d']))) rest (.interface lo name ps rs ms) (met ++ passed) := by
  have word : ∀ cs, Lexes Keyword.interface.text.toList (.word "interface") (' ' :: cs) := fun cs =>
    lexes_name (by decide) (apart_blank _)
  have extending : ∀ cs, Lexes "extends".toList (.word "extends") (' ' :: cs) := fun cs =>
    lexes_name (by decide) (apart_blank _)
  have shape : interfaceHead name gs bases ++ (rows ++ (close ++ ['\x7d'])) = Keyword.interface.text.toList ++
      ((' ' :: name.toList) ++ (genericsText gs ++ (heritageChars "extends" bases ++ blockChars rows close))) := by
    simp [interfaceHead, blockChars]
  have whole : interfaceHead name gs bases ++ (rows ++ (close ++ ['\x7d']) ++ rest) = Keyword.interface.text.toList ++
      ((' ' :: name.toList) ++ (genericsText gs ++ (heritageChars "extends" bases ++ (blockChars rows close ++ rest)))) := by
    simp [interfaceHead, blockChars]
  rw [interfaceHead, Text.byteLength_append, Text.byteLength_append, Text.byteLength_append, Text.byteLength_append,
    ← Nat.add_assoc, ← Nat.add_assoc, ← Nat.add_assoc, ← Nat.add_assoc] at body
  rw [whole] at fits
  rw [shape]
  have brace : Shows (blockChars rows close ++ rest) (.symbol openBrace) := shows_block _
  have behind : Follows classEnds (blockChars rows close ++ rest) :=
    ⟨apart_blank _, .symbol openBrace, by simp [classEnds, openBrace], brace⟩
  have members := typeMembers_crosses blank body
  obtain ⟨token, other, shown⟩ := shows_heritage extending bases brace (by simp [openBrace])
  obtain ⟨ps, first, head⟩ := typeParameters_moves generics fits.drop.drop shown other
  obtain ⟨item, inner, passed, clause, rs, rfl, rfl⟩ := heritageClause_moves id
    (interfaceEnd k lo name ps) (fun item inner => ∃ rs, item = .interface lo name ps rs ms ∧ inner = met) extending
    (fun nonempty pos fits => heritageList_crosses extended nonempty fits behind) fits.drop.drop.drop brace (by simp)
    fun rs => by
      have ending : Crosses ctx (typeMembers k >>= fun ms => pure (Item.interface lo name ps rs ms)) false _
          (blockChars rows close) rest _ met := members.bind_sees (.pure _ _ _)
      exact ⟨_, met, Crosses.moves ((brace.not_isWord (by simp)).bind_crosses ending), rs, rfl, rfl⟩
  have apart : Apart (genericsText gs ++ (heritageChars "extends" bases ++ blockChars rows close) ++ rest) := by
    rw [List.append_assoc, List.append_assoc]
    exact apart_generics (apart_heritage _ _ (apart_blank _))
  have named_ : Crosses ctx Parse.anyWord false (pos + byteLength Keyword.interface.text.toList) (' ' :: name.toList)
      (genericsText gs ++ (heritageChars "extends" bases ++ blockChars rows close) ++ rest) name [] :=
    (named _ apart).crosses_anyWord.blank
  have tail := Moves.bind (f := fun ps => heritageClause (heritageList k) id "extends" (interfaceEnd k lo name ps)) (by simpa using head) clause
  have whole : Crosses ctx (interfaceRest k lo) false (pos + byteLength Keyword.interface.text.toList) _ rest _ _ :=
    named_.bind_moves (f := fun name => typeParameters k >>= fun ps => heritageClause (heritageList k) id "extends" (interfaceEnd k lo name ps))
      tail
  have all : Crosses ctx (Parse.advance >>= fun _ => interfaceRest k lo) broken pos _ rest _ _ :=
    (word _).crosses_advance.bind whole
  exact ⟨ps, rs, passed ++ first, by simpa [Keyword.parser] using all⟩

/-! ### Classes -/

/-- The text of a class up to its opening brace. -/
def classHead (name : String) (gs : List GenericText) (bases interfaces : List (List Char)) : List Char :=
  Keyword.class.text.toList ++ ((' ' :: name.toList) ++ (genericsText gs ++ (heritageChars "extends" bases ++
    (heritageChars "implements" interfaces ++ [' ', '\x7b']))))

/-- A class behind its heritage clauses. -/
private def classEnd (k : Knot) (generics : List TypeParameter) (bases interfaces : List Reference) : Parse ClassTail := do
  if ← Parse.eatWord "implements" then
    let _ ← heritageList k
  if ← Parse.eatWord "extends" then
    let _ ← superclass k
  Parse.expect openBrace
  let members ← Parse.repeated (classStep k)
  let _ ← Parse.eat closeBrace
  return ⟨generics, bases, interfaces, members⟩

/-- A class behind the class that it extends. -/
private def classBehindBase (k : Knot) (generics : List TypeParameter) (bases : List Reference) : Parse ClassTail := do
  if ← Parse.eatWord "extends" then
    let _ ← superclass k
  heritageClause (heritageList k) id "implements" (classEnd k generics bases)

/-- A class behind its name. -/
private def classBehindName (k : Knot) (lo : Nat) (name : String) : Parse Item := do
  let c ← classTail k
  return .classDecl lo name c.generics c.bases c.interfaces c.members

private theorem classTail_eq (k : Knot) : classTail k = (typeParameters k >>= fun gs =>
    heritageClause (superclass k) (fun r => [r]) "extends" (classBehindBase k gs)) := by
  rfl

/-- What follows the heritage clauses of a class. -/
private theorem classEnd_moves {generics : List TypeParameter} {bases interfaces : List Reference} {rows close : List Char}
    {ms : List Member} {met : List Comment} (blank : Text.IsBlankText close)
    (body : Moves ctx (Parse.repeated (classStep k)) (pos + byteLength [' ', '\x7b']) rows (close ++ ['\x7d'] ++ rest)
      ms met) : Moves ctx (classEnd k generics bases interfaces) pos (blockChars rows close) rest
      ⟨generics, bases, interfaces, ms⟩ met := by
  have opening : ∀ cs, Lexes ['\x7b'] (.symbol openBrace) cs := lexes_mark (by simp [marks, openBrace])
  have brace : Shows (blockChars rows close ++ rest) (.symbol openBrace) := shows_block _
  have closing : Takes ctx (Parse.eat closeBrace >>= fun _ => pure (ClassTail.mk generics bases interfaces ms))
      (pos + byteLength [' ', '\x7b'] + byteLength rows) (close ++ ['\x7d']) rest ⟨generics, bases, interfaces, ms⟩ :=
    (closes_block blank).2.bind_sees (.pure _ _ _)
  refine (brace.not_eatWord (by simp)).bind_moves ((brace.not_eatWord (by simp)).bind_moves (Crosses.moves ?_))
  exact (opening _).expect.blank.bind_moves (body.bind_takes closing)

theorem class_crosses {name : String} {gs : List GenericText} {bases interfaces : List (List Char)}
    {rows close : List Char} {ms : List Member} {met : List Comment} (named : IsWordName name)
    (bindable : isBindable name = true) (free : name ≠ "let") (generics : ∀ g ∈ gs, g.Reads k)
    (extended : ∀ b ∈ bases, CrossesBase k b) (single : bases.length ≤ 1)
    (implemented : ∀ r ∈ interfaces, CrossesHeritage k r) (blank : Text.IsBlankText close)
    (fits : Fits ctx pos (classHead name gs bases interfaces ++ (rows ++ (close ++ ['\x7d']) ++ rest)))
    (body : Moves ctx (Parse.repeated (classStep k)) (pos + byteLength (classHead name gs bases interfaces)) rows
      (close ++ ['\x7d'] ++ rest) ms met) :
    ∃ ps bs is passed, Crosses ctx (Keyword.class.parser (level k) lo) broken pos
      (classHead name gs bases interfaces ++ (rows ++ (close ++ ['\x7d']))) rest (.classDecl lo name ps bs is ms)
      (met ++ passed) := by
  have word : ∀ cs, Lexes Keyword.class.text.toList (.word "class") (' ' :: cs) := fun cs =>
    lexes_name (by decide) (apart_blank _)
  have extending : ∀ cs, Lexes "extends".toList (.word "extends") (' ' :: cs) := fun cs =>
    lexes_name (by decide) (apart_blank _)
  have implementing : ∀ cs, Lexes "implements".toList (.word "implements") (' ' :: cs) := fun cs =>
    lexes_name (by decide) (apart_blank _)
  have shape : ∀ tail, classHead name gs bases interfaces ++ (rows ++ (close ++ ['\x7d']) ++ tail) =
      Keyword.class.text.toList ++ ((' ' :: name.toList) ++ (genericsText gs ++ (heritageChars "extends" bases ++
        (heritageChars "implements" interfaces ++ (blockChars rows close ++ tail))))) := by
    simp [classHead, blockChars]
  simp only [classHead, Text.byteLength_append, ← Nat.add_assoc] at body
  rw [shape] at fits
  have brace : Shows (blockChars rows close ++ rest) (.symbol openBrace) := shows_block _
  have last : Follows classEnds (blockChars rows close ++ rest) :=
    ⟨apart_blank _, .symbol openBrace, by simp [classEnds, openBrace], brace⟩
  have behind : Follows classEnds (heritageChars "implements" interfaces ++ blockChars rows close ++ rest) := by
    rw [List.append_assoc]
    exact follows_block interfaces _
  obtain ⟨token, listed, clauses⟩ := behind.shows
  have others : token ≠ .word "extends" ∧ token ≠ .symbol "<" := by
    simp only [classEnds, List.mem_cons, List.not_mem_nil, or_false] at listed
    rcases listed with rfl | rfl <;> simp
  obtain ⟨first, angle, shown⟩ := shows_heritage extending bases clauses others.2
  obtain ⟨ps, passed₁, head⟩ := typeParameters_moves generics fits.drop.drop (by simpa using shown) angle
  have base : bases ≠ [] → ∀ pos, Fits ctx pos ([',', ' '].intercalate bases ++
        ((heritageChars "implements" interfaces ++ blockChars rows close) ++ rest)) →
      ∃ r met, Crosses ctx (superclass k) false pos ([',', ' '].intercalate bases)
        ((heritageChars "implements" interfaces ++ blockChars rows close) ++ rest) r met := by
    intro nonempty pos fits
    obtain ⟨b, rfl⟩ := List.length_eq_one_iff.mp (Nat.le_antisymm single (List.length_pos_iff.mpr nonempty))
    rw [List.intercalate_singleton] at fits ⊢
    exact extended b (by simp) ctx pos _ fits behind
  -- the clauses of a head are crossed from the last to the first, so that each knows what follows it
  obtain ⟨tail, inner, passed₃, outer, bs, ⟨is, rfl⟩, passed₂, rfl⟩ := heritageClause_moves (fun r => [r])
    (classBehindBase k ps) (fun tail inner => ∃ bs, (∃ is, tail = ⟨ps, bs, is, ms⟩) ∧ ∃ passed, inner = met ++ passed)
    extending base (by simpa using fits.drop.drop.drop) clauses others.1 fun bs => by
      obtain ⟨tail, inner, passed, clause, is, rfl, rfl⟩ := heritageClause_moves id (classEnd k ps bs)
        (fun tail inner => ∃ is, tail = ⟨ps, bs, is, ms⟩ ∧ inner = met) implementing
        (fun nonempty pos fits => heritageList_crosses implemented nonempty fits last)
        fits.drop.drop.drop.drop brace (by simp) fun is => ⟨_, met, classEnd_moves blank body, is, rfl, rfl⟩
      exact ⟨_, _, (clauses.not_eatWord others.1).bind_moves clause, bs, ⟨is, rfl⟩, passed, rfl⟩
  have apart : Apart (genericsText gs ++ (heritageChars "extends" bases ++ (heritageChars "implements" interfaces ++
      blockChars rows close)) ++ rest) := by
    simp only [List.append_assoc]
    exact apart_generics (apart_heritage _ _ (apart_heritage _ _ (apart_blank _)))
  have bound : Crosses ctx (Parse.bindingName false) false (pos + byteLength Keyword.class.text.toList) (' ' :: name.toList)
      (genericsText gs ++ (heritageChars "extends" bases ++ (heritageChars "implements" interfaces ++
        blockChars rows close)) ++ rest) name [] :=
    (bindingName_crosses named bindable (fun _ => free) apart).blank
  have crossed := Moves.bind (f := fun ps => heritageClause (superclass k) (fun r => [r]) "extends" (classBehindBase k ps))
    (by simpa using head) outer
  rw [← classTail_eq] at crossed
  have declared := bound.bind_moves (f := classBehindName k lo) (crossed.bind_sees (.pure _ _ _))
  have all : Crosses ctx (Parse.expectWord "class" >>= fun _ => Parse.bindingName false >>= classBehindName k lo) broken pos _
      rest _ _ := (word _).crosses_expectWord.bind declared
  have chars := shape []
  rw [List.append_nil, List.append_nil] at chars
  refine ⟨ps, bs, is, passed₂ ++ (passed₃ ++ passed₁), ?_⟩
  rw [chars]
  simp only [List.append_nil, List.append_assoc] at all ⊢
  exact all

/-! ### Enums -/

/-- A text that is read as the name of an enum member. -/
structure ReadsEnumName (name : String) : Prop where
  lexes : ∃ token, ((∃ w, token = .word w) ∨ (∃ s, token = .string s) ∨ token = .number) ∧
    ∀ rest, Apart rest → Lexes name.toList token rest

private theorem ReadsEnumName.crosses {name : String} (reads : ReadsEnumName name) (apart : Apart rest) :
    ∃ n, Crosses ctx (enumMemberName k) broken pos name.toList rest n [] := by
  obtain ⟨token, kinds, lexes⟩ := reads.lexes
  have lexes := lexes rest apart
  rcases kinds with ⟨w, rfl⟩ | literal
  · exact ⟨w, lexes.crosses fun c shown => by simp [enumMemberName, Parse.position, Parse.token, shown, Parse.advance]⟩
  · refine ⟨String.ofList ((Text.slice? ctx.text pos (pos + byteLength name.toList)).getD []), inside_nil _ _ _,
      fun last comments => ?_⟩
    rcases literal with ⟨s, rfl⟩ | rfl
    all_goals
      simp only [enumMemberName, Parse.run_bind, Parse.position, Parse.token, lexes.behind]
      rfl

/-- The text of an enum member, with the comma behind it. -/
def enumMemberChars (m : EnumMember) : List Char :=
  m.name.toList ++ ((' ' :: ['=']) ++ ((' ' :: m.value.toList) ++ [',']))

/-- The grammar crosses an enum member. -/
structure CrossesEnumMember (k : Knot) (m : EnumMember) : Prop where
  named : ReadsEnumName m.name
  valued : ∀ ctx pos rest, Fits ctx pos (m.value.toList ++ ',' :: rest) →
    ∃ e met, Crosses ctx (freeAssignment k) false pos m.value.toList (',' :: rest) e met

/-- An enum member behind its name. -/
private def enumValue (k : Knot) (name : String) : Parse (String × Option String) := do
  if ← Parse.eat "=" then
    let e ← freeAssignment k
    return (name, some (← Parse.slice e.lo e.hi))
  else return (name, none)

/-- One round of the members of an enum. -/
def enumStep (k : Knot) : Parse (Option (String × Option String)) :=
  commaStep (Parse.isSymbol closeBrace) (enumMember k)

/-- One round of the members of an enum, in front of a member. -/
private def listedMember (k : Knot) : Parse (Option (String × Option String)) := do
  let m ← enumMember k
  if ← Parse.eat "," then return some m
  if ← Parse.isSymbol closeBrace then return some m
  Parse.fail

private theorem listedMember_crosses {m : EnumMember} (reads : CrossesEnumMember k m)
    (fits : Fits ctx pos (enumMemberChars m ++ rest)) :
    ∃ x met, Crosses ctx (listedMember k) broken pos (enumMemberChars m) rest (some x) met := by
  have comma : Lexes [','] (.symbol ",") rest := lexes_mark (by simp [marks]) rest
  have equals : ∀ cs, Lexes ['='] (.symbol "=") (' ' :: cs) := lexes_equals
  rw [enumMemberChars, List.append_assoc, List.append_assoc, List.append_assoc] at fits
  obtain ⟨n, name⟩ := reads.named.crosses (k := k)
    (apart_blank _)
  obtain ⟨e, met, value⟩ := reads.valued ctx _ rest fits.drop.drop.blank
  have text := value.blank.bind_sees (f := fun e => Parse.slice e.lo e.hi >>= fun v => pure (n, some v))
    (b := (n, some (String.ofList ((Text.slice? ctx.text e.lo e.hi).getD [])))) fun last comments => rfl
  have valued : Crosses ctx (enumValue k n) false _ ((' ' :: ['=']) ++ (' ' :: m.value.toList)) ([','] ++ rest) _ met :=
    Takes.bind_crosses (a := true) (equals _).eat.blank text
  have member : Crosses ctx (enumMember k) broken pos _ ([','] ++ rest) _ _ := name.bind (f := enumValue k) valued
  have whole : Crosses ctx (listedMember k) broken pos _ rest _ _ :=
    member.bind_takes (Takes.bind_sees (a := true) comma.eat (.pure (some _) _ _))
  rw [enumMemberChars]
  simp only [List.append_assoc] at whole
  exact ⟨_, _, whole⟩

/-- A row with a member of an enum. -/
theorem enumRow_reads {gap : List Char} {tags : List String} {m : EnumMember} (gapped : GapReads gap tags)
    (reads : CrossesEnumMember k m) : RowReads (enumStep k) (gap ++ enumMemberChars m) fun _ _ => True := by
  have heads : ∀ rest, ∃ token, Heads (enumMemberChars m ++ rest) token ∧ token ≠ .symbol closeBrace := by
    intro rest
    obtain ⟨token, kinds, lexes⟩ := reads.named.lexes
    rw [enumMemberChars, List.append_assoc]
    refine ⟨token, (lexes _ (apart_blank _)).heads, ?_⟩
    rintro rfl
    simp at kinds
  have ends : EndsRow (enumMemberChars m) := ⟨m.name.toList ++ ((' ' :: ['=']) ++ (' ' :: m.value.toList)), ',',
    by simp [enumMemberChars], by decide⟩
  refine rowReads_of_gap gapped ends (fun rest => ?_) fun ctx start pos rest fits => ?_
  · obtain ⟨token, heads, -⟩ := heads rest
    exact ⟨token, heads⟩
  · obtain ⟨x, met, crosses⟩ := listedMember_crosses reads fits
    obtain ⟨token, heads, other⟩ := heads rest
    refine ⟨x, met, crosses.congr fun last comments => ?_, fun hi all inside given tagged => trivial⟩
    simp [enumStep, commaStep, listedMember, Parse.isSymbol, heads.token_behind, other]

theorem enumStep_ends {close : List Char} (blank : Text.IsBlankText close) :
    Sees ctx (enumStep k) pos (close ++ '\x7d' :: rest) none :=
  (closes_isSymbol blank).bind (.pure none _ _)

/-- The text of an enum up to its opening brace. -/
def enumHead (name : String) : List Char := Keyword.enum.text.toList ++ ((' ' :: name.toList) ++ [' ', '\x7b'])

theorem enum_crosses {name : String} {rows close : List Char} {ms : List (String × Option String)} {met : List Comment}
    (named : IsWordName name) (blank : Text.IsBlankText close)
    (body : Moves ctx (Parse.repeated (enumStep k)) (pos + byteLength (enumHead name)) rows (close ++ ['\x7d'] ++ rest)
      ms met) :
    Crosses ctx (Keyword.enum.parser k lo) broken pos (enumHead name ++ (rows ++ (close ++ ['\x7d']))) rest
      (.enum lo name (enumMembers 0 ms)) met := by
  have word : ∀ cs, Lexes Keyword.enum.text.toList (.word "enum") (' ' :: cs) := fun cs =>
    lexes_name (by decide) (apart_blank _)
  have opening : ∀ cs, Lexes ['\x7b'] (.symbol openBrace) cs := lexes_mark (by simp [marks, openBrace])
  simp only [enumHead, Text.byteLength_append, ← Nat.add_assoc] at body
  have closing : ∀ pos, Takes ctx (Parse.expect closeBrace >>= fun _ => pure (Item.enum lo name (enumMembers 0 ms))) pos
      (close ++ ['\x7d']) rest (.enum lo name (enumMembers 0 ms)) := fun pos =>
    (closes_block blank).1.bind_sees (.pure _ _ _)
  have inner := (opening _).expect.blank.bind_moves
    (f := fun _ => Parse.repeated (enumStep k) >>= fun ms => Parse.expect closeBrace >>= fun _ =>
      pure (Item.enum lo name (enumMembers 0 ms))) (body.bind_takes (closing _))
  have bound : Crosses ctx Parse.anyWord false (pos + byteLength Keyword.enum.text.toList) (' ' :: name.toList)
      (' ' :: ['\x7b'] ++ (rows ++ (close ++ ['\x7d'])) ++ rest) name [] := (named _ (apart_blank _)).crosses_anyWord.blank
  have rest_ : Crosses ctx (enumRest k lo) false _ _ rest _ _ := bound.bind inner
  have all : Crosses ctx (Parse.advance >>= fun _ => enumRest k lo) broken pos _ rest _ _ :=
    (word _).crosses_advance.bind rest_
  rw [List.append_nil, List.append_nil] at all
  simp only [enumHead, Keyword.parser, List.append_assoc] at all ⊢
  exact all

/-! ### Namespaces -/

/-- One round of the items of a block. -/
def blockStep (k : Knot) : Parse (Option Item) := do
  if ← Parse.isSymbol closeBrace then return none
  if (← Parse.token) == .eof then return none
  return some (← k.statement true)

theorem blockStep_ends {close : List Char} (blank : Text.IsBlankText close) :
    Sees ctx (blockStep k) pos (close ++ '\x7d' :: rest) none :=
  (closes_isSymbol blank).bind (.pure none _ _)

/-- The text of a namespace up to its opening brace. -/
def namespaceHead (name : String) : List Char :=
  Keyword.namespace.text.toList ++ ((' ' :: name.toList) ++ [' ', '\x7b'])

theorem namespace_crosses {name : String} {rows close : List Char} {items : List Item} {met : List Comment}
    (named : IsWordName name) (blank : Text.IsBlankText close)
    (fits : Fits ctx pos (namespaceHead name ++ (rows ++ (close ++ ['\x7d']) ++ rest)))
    (body : Moves ctx (Parse.repeated (blockStep k)) (pos + byteLength (namespaceHead name)) rows
      (close ++ ['\x7d'] ++ rest) items met) :
    Crosses ctx (Keyword.namespace.parser k lo) broken pos (namespaceHead name ++ (rows ++ (close ++ ['\x7d']))) rest
      (.namespaceDecl lo name items) met := by
  have word : ∀ cs, Lexes Keyword.namespace.text.toList (.word "namespace") (' ' :: cs) := fun cs =>
    lexes_name (by decide) (apart_blank _)
  have opening : ∀ cs, Lexes ['\x7b'] (.symbol openBrace) cs := lexes_mark (by simp [marks, openBrace])
  simp only [namespaceHead, Text.byteLength_append, ← Nat.add_assoc] at body
  have brace : Shows (' ' :: ['\x7b'] ++ (rows ++ (close ++ ['\x7d'])) ++ rest) (.symbol openBrace) := shows_block _
  have closing : ∀ pos, Takes ctx (Parse.eat closeBrace >>= fun _ => pure items) pos (close ++ ['\x7d']) rest items :=
    fun pos => (closes_block blank).2.bind_sees (.pure _ _ _)
  have inner : Crosses ctx (namespaceBody k) false _ _ rest items met :=
    (opening _).expect.blank.bind_moves (f := fun _ => blockItems k true) (body.bind_takes (closing _))
  have lexes := named (' ' :: ['\x7b'] ++ (rows ++ (close ++ ['\x7d'])) ++ rest) (apart_blank _)
  have bound : Crosses ctx Parse.anyWord false (pos + byteLength Keyword.namespace.text.toList) (' ' :: name.toList)
      (' ' :: ['\x7b'] ++ (rows ++ (close ++ ['\x7d'])) ++ rest) name [] := lexes.crosses_anyWord.blank
  rw [namespaceHead, List.append_assoc, List.append_assoc, List.cons_append] at fits
  have room := fits.drop.blank.room
  obtain ⟨fuel, budget⟩ : ∃ fuel, ctx.size + 2 - (pos + byteLength Keyword.namespace.text.toList + 1) = fuel + 1 :=
    ⟨ctx.size - (pos + byteLength Keyword.namespace.text.toList), by omega⟩
  have part : Crosses ctx (namespaceRest.go k (fuel + 1) lo) false _ _ rest _ _ :=
    bound.bind ((brace.not_eat (by simp [openBrace])).bind_crosses (inner.bind_sees (.pure _ _ _)))
  have rest_ : Crosses ctx (namespaceRest k lo) false _ _ rest _ _ := part.congr fun last comments => by
    have start : (Cursor.behind last (pos + byteLength Keyword.namespace.text.toList) false comments (' ' :: name.toList ++
        (' ' :: ['\x7b'] ++ (rows ++ (close ++ ['\x7d']))) ++ rest)).lo =
          pos + byteLength Keyword.namespace.text.toList + 1 := by
      rw [List.append_assoc, List.cons_append, Cursor.behind_blank]
      exact lexes.heads.lo_behind _ _ _ _
    simp only [namespaceRest, Parse.run_bind, Parse.budget, start, budget]
  have all : Crosses ctx (Parse.advance >>= fun _ => namespaceRest k lo) broken pos _ rest _ _ :=
    (word _).crosses_advance.bind rest_
  rw [List.append_nil, List.append_nil] at all
  simp only [namespaceHead, Keyword.parser, List.append_assoc] at all ⊢
  exact all

end Grammar

end DocLocale.Source
