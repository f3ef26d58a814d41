import DocLocale.Proofs.Source.Signatures
import Mathlib.Tactic.Common

/-!
Members of printed classes, crossed by the grammar. A cursor in front of a member's name is told apart from all else
that can start a member; the modifiers in front of it are taken one by one.
-/

set_option autoImplicit false
set_option relaxedAutoImplicit false

namespace DocLocale.Source

open Text (byteLength)

namespace Grammar

variable {ctx : Context} {k : Knot} {pos : Nat} {rest : List Char}

/-! ### Names of members -/

/-- Symbols that stand behind the names of members. -/
def memberEnds : List Token := [.symbol ":", .symbol "?", .symbol "(", .symbol "<"]

theorem mem_nameEnds_of_memberEnds {token : Token} (ends : token ∈ memberEnds) : token ∈ nameEnds := by
  simp only [memberEnds, List.mem_cons, List.not_mem_nil, or_false] at ends
  rcases ends with rfl | rfl | rfl | rfl <;> simp [nameEnds]

/-- Words in front of members that are taken before modifiers are looked for. -/
def leadingWords : List String := ["declare", "static", "accessor"]

/-- Whether a token can start the name of a member. -/
def startsName : Token → Bool
  | .word w => !leadingWords.contains w
  | .string _ | .number | .bigint => true
  | .symbol s => s == "["
  | _ => false

/-- The name that a token is by itself. -/
def tokenName? : Token → Option PropertyName
  | .word w => some (.word w)
  | .string v => some (.string v)
  | .number | .bigint => some .number
  | _ => none

/-- A text that is read as the name of a member of a class: a word, a literal, or an expression in brackets. -/
inductive ReadsClassName (k : Knot) (name : String) : Prop
  | word (named : IsWordName name) (free : name ∉ "constructor" :: leadingWords)
  | literal (token : Token) (lexes : ∀ rest, Apart rest → Lexes name.toList token rest)
    (kind : token = .number ∨ token = .bigint ∨ ∃ v, token = .string v ∧ v ≠ "constructor")
  | computed (opens : ∃ more, name.toList = '[' :: more)
    (crosses : ∀ ctx broken pos rest, Fits ctx pos (name.toList ++ rest) → Follows memberEnds rest →
      ∃ met, Crosses ctx (memberName k) broken pos name.toList rest
        ⟨.computed, pos, pos + byteLength name.toList⟩ met)
    (other : ∀ last pos broken comments rest, Follows memberEnds rest →
      startsIndex (.behind last pos broken comments (name.toList ++ rest)) = false)

/-- A cursor in front of the name of a member. -/
structure AtName (c : Cursor) : Prop where
  starts : startsName c.token = true
  bare : c.next.token ∈ nameEnds ∨ ∀ w, c.token ≠ .word w
  other : startsIndex c = false

theorem memberName_eq {c : Cursor} {n : PropertyName} (name : tokenName? c.token = some n) :
    memberName k ctx c = .ok ⟨n, c.lo, c.hi⟩ c.next := by
  obtain ⟨token, lo, hi, here, after, broken, previousEnd, comments⟩ := c
  cases token with
  | word w | string v | number | bigint =>
    cases name
    rfl
  | _ => simp [tokenName?] at name

theorem memberName_crosses {front : List Char} {token : Token} {n : PropertyName} {broken : Bool}
    (lexes : Lexes front token rest) (name : tokenName? token = some n) :
    Crosses ctx (memberName k) broken pos front rest ⟨n, pos, pos + byteLength front⟩ [] := by
  refine ⟨inside_nil _ _ _, fun last comments => ?_⟩
  have shown : tokenName? (Cursor.behind last pos broken comments (front ++ rest)).token = some n := by
    rw [lexes.behind, name]
  rw [memberName_eq shown, lexes.next_behind, lexes.behind]
  rfl

/-- The name of a member is crossed, and is what its text says. -/
structure NameCrossed (k : Knot) (ctx : Context) (broken : Bool) (pos : Nat) (name : String) (rest : List Char)
    (n : NameSpan) (met : List Comment) : Prop where
  crosses : Crosses ctx (memberName k) broken pos name.toList rest n met
  text : ∀ c, n.text ctx c = .ok name c
  shown : n.isConstructor = false ∧ n.isHidden = false

theorem ReadsClassName.crosses {name : String} {broken : Bool} (reads : ReadsClassName k name)
    (fits : Fits ctx pos (name.toList ++ rest)) (follows : Follows memberEnds rest) :
    ∃ n met, NameCrossed k ctx broken pos name rest n met := by
  have cut : ∀ c, Parse.slice pos (pos + byteLength name.toList) ctx c = .ok name c := by
    intro c
    rw [Parse.slice, fits.slice, Option.getD_some, String.ofList_toList]
  cases reads with
  | word named free =>
    have crosses : Crosses ctx (memberName k) broken pos name.toList rest _ [] :=
      memberName_crosses (named rest follows.apart) (n := .word name) rfl
    refine ⟨_, [], crosses, fun c => rfl, ?_, rfl⟩
    have other : name ≠ "constructor" := fun same => free (by simp [same])
    simp [NameSpan.isConstructor, other]
  | literal token lexes kind =>
    rcases kind with rfl | rfl | ⟨v, rfl, other⟩
    · exact ⟨_, [], memberName_crosses (lexes rest follows.apart) rfl, cut, rfl, rfl⟩
    · exact ⟨_, [], memberName_crosses (lexes rest follows.apart) rfl, cut, rfl, rfl⟩
    · refine ⟨_, [], memberName_crosses (lexes rest follows.apart) rfl, cut, ?_, rfl⟩
      simp [NameSpan.isConstructor, other]
  | computed opens crosses other =>
    obtain ⟨met, crossed⟩ := crosses ctx broken pos rest fits follows
    exact ⟨_, met, crossed, cut, rfl, rfl⟩

theorem ReadsClassName.heads {name : String} (reads : ReadsClassName k name) (apart : Apart rest) :
    ∃ token, Heads (name.toList ++ rest) token ∧ startsName token = true := by
  cases reads with
  | word named free =>
    have leads : name ∉ leadingWords := fun member => free (List.mem_cons_of_mem _ member)
    exact ⟨_, (named rest apart).heads, by simpa [startsName] using leads⟩
  | literal token lexes kind =>
    refine ⟨token, (lexes rest apart).heads, ?_⟩
    rcases kind with rfl | rfl | ⟨v, rfl, -⟩ <;> rfl
  | computed opens crosses other =>
    obtain ⟨more, shape⟩ := opens
    have bracket : Lexes ['['] (.symbol "[") (more ++ rest) := lexes_mark (by simp [marks]) _
    rw [shape]
    exact ⟨_, bracket.heads, rfl⟩

theorem ReadsClassName.atName {name : String} {broken : Bool} (reads : ReadsClassName k name)
    (follows : Follows memberEnds rest) (last : Nat) (comments : List Comment) :
    AtName (.behind last pos broken comments (name.toList ++ rest)) := by
  obtain ⟨next, listed, shown⟩ := follows.shows
  obtain ⟨token, heads, starts⟩ := reads.heads follows.apart
  rw [← heads.token_behind last pos broken comments] at starts
  cases reads with
  | word named free =>
    have lexes := named rest follows.apart
    have ends : (Cursor.behind last pos broken comments (name.toList ++ rest)).next.token = next := by
      rw [lexes.next_behind, (shown _ _ _).1]
    refine ⟨starts, .inl (by rw [ends]; exact mem_nameEnds_of_memberEnds listed), ?_⟩
    simp [lexes.behind, startsIndex]
  | literal token lexes kind =>
    have lexes := lexes rest follows.apart
    rcases kind with rfl | rfl | ⟨v, rfl, -⟩
    all_goals exact ⟨starts, .inr (by simp [lexes.behind]), by simp [lexes.behind, startsIndex]⟩
  | computed opens crosses other =>
    obtain ⟨more, shape⟩ := opens
    have bracket : Lexes ['['] (.symbol "[") (more ++ rest) := lexes_mark (by simp [marks]) _
    refine ⟨starts, .inr ?_, other last pos broken comments rest follows⟩
    have first := bracket.heads.token_behind last pos broken comments
    rw [List.singleton_append] at first
    rw [shape, List.cons_append, first]
    simp

/-! ### In front of names -/

theorem AtName.modifier?_eq {c : Cursor} (at_ : AtName c) (allowed : List String) (blocks : Bool) :
    modifier? allowed blocks ctx c = .ok none c := by
  rcases at_.bare with ends | wordless
  · exact modifier?_eq_none ends allowed blocks
  · simp only [modifier?, Parse.run_bind, Parse.token]
    cases shown : c.token with
    | word w => exact absurd shown (wordless w)
    | _ => rfl

/-- The marks that printed members carry. -/
def marksOf (isStatic isReadonly : Bool) : Marks := { isStatic := isStatic, isReadonly := isReadonly }

/-- The words in front of members that are modifiers. -/
def memberModifiers : List String := ["abstract", "readonly", "override", "static"]

private theorem modifiedMember_named {c : Cursor} {words : List String} {first : Cursor} {lo : Nat} {m m' : Marks}
    (taken : Parse.repeated (modifier? memberModifiers true) ctx first = .ok words c) (at_ : AtName c)
    (marked : words.foldl Marks.add m = m') (plain : m'.isAccessor = false) :
    modifiedMember k lo m ctx first = namedMember k lo m' ctx c := by
  obtain ⟨starts, -, noIndex⟩ := at_
  have same : { m' with isAccessor := false } = m' := by rw [← plain]
  have brace : c.token ≠ .symbol openBrace ∧ c.token ≠ .symbol "*" ∧ c.token ≠ .word "accessor" ∧
      c.token ≠ .word "static" := by
    refine ⟨?_, ?_, ?_, ?_⟩
    all_goals
      intro same
      rw [same] at starts
      exact absurd starts (by decide)
  rw [memberModifiers] at taken
  simp [modifiedMember, taken, marked, plain, Parse.eatWord, Parse.cursor, Parse.eat, brace, noIndex, same]

private theorem followsModifier_of_startsName {c : Cursor} (starts : startsName c.token = true)
    (unbroken : c.lineBreak = false) : followsModifier c = true := by
  rw [followsModifier, unbroken]
  cases shown : c.token with
  | symbol s =>
    rw [shown] at starts
    simp only [startsName, beq_iff_eq] at starts
    simp [starts]
  | word | string | number | bigint => rfl
  | _ => simp [shown, startsName] at starts

private theorem modifier?_readonly {c : Cursor} (word : c.token = .word "readonly")
    (starts : startsName c.next.token = true) (unbroken : c.next.lineBreak = false) :
    modifier? memberModifiers true ctx c = .ok (some "readonly") c.next := by
  have follows := followsModifier_of_startsName starts unbroken
  simp [modifier?, Parse.token, word, Parse.peek, memberModifiers, follows, Parse.advance]

theorem modifiedMember_eq {c : Cursor} {lo : Nat} {isStatic : Bool} (at_ : AtName c) :
    modifiedMember k lo (marksOf isStatic false) ctx c = namedMember k lo (marksOf isStatic false) ctx c :=
  modifiedMember_named (repeated_eq_nil (at_.modifier?_eq memberModifiers true)) at_ rfl rfl

theorem modifiedMember_readonly {c : Cursor} {lo : Nat} {isStatic : Bool} (word : c.token = .word "readonly")
    (unbroken : c.next.lineBreak = false) (at_ : AtName c.next) (room : c.lo ≤ ctx.size) :
    modifiedMember k lo (marksOf isStatic false) ctx c = namedMember k lo (marksOf isStatic true) ctx c.next := by
  have first : modifier? memberModifiers true ctx c = .ok (some "readonly") c.next :=
    modifier?_readonly word at_.starts unbroken
  have second : modifier? memberModifiers true ctx c.next = .ok none c.next := at_.modifier?_eq memberModifiers true
  obtain ⟨fuel, budget⟩ : ∃ fuel, ctx.size + 2 - c.lo = fuel + 2 := ⟨ctx.size - c.lo, by omega⟩
  have taken : Parse.repeated (modifier? memberModifiers true) ctx c = .ok ["readonly"] c.next := by
    simp [Parse.repeated, Parse.budget, budget, Parse.repeatN, first, second]
  exact modifiedMember_named taken at_ rfl rfl

theorem classMember_eq {c : Cursor} (starts : startsName c.token = true)
    (free : modifier? accessWords false ctx c = .ok none c) :
    classMember k ctx c = modifiedMember k c.lo (marksOf false false) ctx c := by
  have other : c.token ≠ .symbol ";" ∧ c.token ≠ .word "declare" ∧ c.token ≠ .word "static" ∧
      c.token ≠ .word "accessor" := by
    refine ⟨?_, ?_, ?_, ?_⟩
    all_goals
      intro same
      rw [same] at starts
      exact absurd starts (by decide)
  simp [classMember, Parse.position, Parse.eat, Parse.eatWord, other, free, marksOf]

theorem classMember_static {c : Cursor} (word : c.token = .word "static") (starts : startsName c.next.token = true) :
    classMember k ctx c = modifiedMember k c.lo (marksOf true false) ctx c.next := by
  have other : c.next.token ≠ .word "accessor" ∧ c.next.token ≠ .symbol "?" ∧
      ∀ s ∈ ["(", "<", "!", ":", "=", ";", closeBrace], c.next.token ≠ .symbol s := by
    refine ⟨?_, ?_, ?_⟩
    · intro same
      rw [same] at starts
      exact absurd starts (by decide)
    · intro same
      rw [same] at starts
      exact absurd starts (by decide)
    · intro s listed same
      rw [same] at starts
      simp only [startsName, beq_iff_eq] at starts
      rw [starts] at listed
      exact absurd listed (by decide)
  have noneOf : ∀ ss, (∀ s ∈ ss, s ∈ ["(", "<", "!", ":", "=", ";", closeBrace]) →
      Parse.isOneOf ss ctx c.next = .ok false c.next := by
    intro ss listed
    rw [Parse.isOneOf]
    cases shown : c.next.token with
    | symbol s =>
      have unlisted : s ∉ ss := fun member => other.2.2 s (listed s member) shown
      simp [unlisted]
    | _ => rfl
  have method := noneOf ["(", "<"] (by simp)
  have property := noneOf ["!", ":", "=", ";", closeBrace] (by simp)
  simp [classMember, wordMember?, startsMethod, startsProperty, Parse.position, Parse.eat, Parse.eatWord, word, other,
    modifier?, Parse.token, Parse.peek, accessWords, marksOf, Parse.previousEnd, Parse.isSymbol, method, property]

/-! ### Members behind their modifiers -/

theorem annotated_follows (optional : Bool) (cs : List Char) :
    Follows memberEnds ((if optional then ['?'] else []) ++ ':' :: cs) := by
  cases optional with
  | false =>
    have mark : (':', ":") ∈ marks := by simp [marks]
    exact ⟨apart_mark mark cs, .symbol ":", by simp [memberEnds], (begins_mark mark cs).shows⟩
  | true => exact ⟨apart_question _, .symbol "?", by simp [memberEnds], (lexes_question cs).shows⟩

/-- The mark of an optional name is taken if it is there. -/
theorem eat_mark (optional : Bool) (cs : List Char) :
    Goes ctx (Parse.eat "?") pos (if optional then ['?'] else []) (':' :: cs) optional := by
  cases optional with
  | false => exact ((begins_mark (s := ":") (by simp [marks]) cs).shows.not_eat (by simp)).goes
  | true => exact (lexes_question cs).eat.goes

private theorem propertyRest_moves {name : String} {optional isStatic isReadonly : Bool} {type : List Char}
    {lo : Nat} {n : NameSpan} (reads : CrossesType k type) (named : ∀ c, n.text ctx c = .ok name c)
    (shown : n.isConstructor = false ∧ n.isHidden = false)
    (fits : Fits ctx pos (':' :: ' ' :: type ++ ';' :: rest)) :
    ∃ t met, Moves ctx (propertyRest k lo (marksOf isStatic isReadonly) n optional) pos
      (':' :: ' ' :: type ++ [';']) rest
      (.property lo name t optional (marksOf isStatic isReadonly).ofProperty) met := by
  have colon : Shows (':' :: ' ' :: type ++ [';'] ++ rest) (.symbol ":") := (begins_mark (by simp [marks]) _).shows
  have semicolon : ∀ cs, Shows (';' :: cs) (.symbol ";") := fun cs => (begins_mark (by simp [marks]) cs).shows
  obtain ⟨t, met, annotated⟩ := annotation?_crosses reads fits (follows_mark (s := ";") (by simp [stopMarks]) rest)
  have unmarked : Sees ctx (Parse.eat "!") pos (':' :: ' ' :: type ++ [';'] ++ rest) false := colon.not_eat (by simp)
  have text : Sees ctx n.text pos (':' :: ' ' :: type ++ [';'] ++ rest) name := fun last comments => named _
  have ending : ∀ property : Member, Takes ctx (Parse.eatSemicolon >>= fun _ => pure property)
      (pos + byteLength (':' :: ' ' :: type)) [';'] rest property :=
    fun _ => eatSemicolon_takes.bind_sees (.pure _ _ _)
  refine ⟨t, met, Crosses.moves ?_⟩
  simp only [propertyRest, shown.1, shown.2, Bool.false_eq_true, if_false, marksOf, Bool.or_self]
  refine text.bind_crosses ?_
  have unassigned : Sees ctx (Parse.eat "=") (pos + byteLength (':' :: ' ' :: type)) ([';'] ++ rest) false :=
    (semicolon rest).not_eat (by simp)
  cases optional with
  | false =>
    simp only [Bool.not_false, if_true]
    refine unmarked.bind_crosses (annotated.bind_takes (unassigned.bind_takes ?_))
    exact ending _
  | true =>
    simp only [Bool.not_true, Bool.false_eq_true, if_false]
    refine annotated.bind_takes (unassigned.bind_takes ?_)
    exact ending _

private theorem startsProperty_colon {lines : Bool} {cs : List Char} (colon : Shows cs (.symbol ":")) :
    Sees ctx (startsProperty lines) pos cs true :=
  (colon.isOneOf _).bind (.pure true _ _)

/-- A property behind its modifiers. -/
theorem namedMember_property {name : String} {optional isStatic isReadonly broken : Bool} {type : List Char} {lo : Nat}
    (named : ReadsClassName k name) (reads : CrossesType k type)
    (fits : Fits ctx pos (typedChars name optional type ++ ';' :: rest)) :
    ∃ t met, Crosses ctx (namedMember k lo (marksOf isStatic isReadonly)) broken pos
      (typedChars name optional type ++ [';']) rest
      (.property lo name t optional (marksOf isStatic isReadonly).ofProperty) met := by
  have shape : typedChars name optional type ++ [';'] =
      name.toList ++ ((if optional then ['?'] else []) ++ (':' :: ' ' :: type ++ [';'])) := by
    simp [typedChars]
  have whole : typedChars name optional type ++ ';' :: rest =
      name.toList ++ ((if optional then ['?'] else []) ++ (':' :: ' ' :: type ++ ';' :: rest)) := by
    simp [typedChars]
  rw [whole] at fits
  rw [shape]
  obtain ⟨n, first, crossed⟩ := named.crosses fits (annotated_follows optional _)
  obtain ⟨t, second, body⟩ := propertyRest_moves
    reads crossed.text crossed.shown fits.drop.drop
  have mark : Moves ctx (Parse.eat "?") (pos + byteLength name.toList) (if optional then ['?'] else [])
      ((':' :: ' ' :: type ++ [';']) ++ rest) optional [] := (eat_mark optional _).moves
  have colon : Shows ((':' :: ' ' :: type ++ [';']) ++ rest) (.symbol ":") := (begins_mark (by simp [marks]) _).shows
  refine ⟨t, second ++ [] ++ first, ?_⟩
  rw [namedMember]
  refine Crosses.bind_moves (by simpa using crossed.crosses) (mark.bind ?_)
  refine (colon.isOneOf _).bind_moves ?_
  refine colon.sees_lineBreak.bind_moves ((colon.not_isSymbol (by simp)).bind_moves ?_)
  refine (startsProperty_colon colon).bind_moves ?_
  rw [Bool.not_true, Bool.and_false, Bool.false_and]
  refine (startsProperty_colon colon).bind_moves ?_
  exact body

/-- What a signature starts with: a bracket. -/
theorem SignatureText.opens (s : SignatureText) (cs : List Char) :
    Apart (s.chars ++ cs) ∧ ∃ m ∈ ["(", "<"], Shows (s.chars ++ cs) (.symbol m) := by
  rw [chars, genericsText]
  split
  · rw [List.nil_append]
    exact ⟨apart_mark (s := "(") (by simp [marks]) _, "(", by simp, (begins_mark (by simp [marks]) _).shows⟩
  · exact ⟨apart_mark (s := "<") (by simp [marks]) _, "<", by simp, (begins_mark (by simp [marks]) _).shows⟩

theorem SignatureText.follows (s : SignatureText) (cs : List Char) : Follows memberEnds (s.chars ++ cs) := by
  obtain ⟨apart, m, listed, shown⟩ := s.opens cs
  refine ⟨apart, .symbol m, ?_, shown⟩
  simp only [List.mem_cons, List.not_mem_nil, or_false] at listed
  rcases listed with rfl | rfl <;> simp [memberEnds]

theorem namedMember_method {name : String} {isStatic broken : Bool} {s : SignatureText} {lo : Nat}
    (named : ReadsClassName k name) (reads : s.Reads k) (fits : Fits ctx pos (name.toList ++ (s.chars ++ ';' :: rest))) :
    ∃ f met, Crosses ctx (namedMember k lo (marksOf isStatic false)) broken pos (name.toList ++ (s.chars ++ [';'])) rest
      (.method lo name f false (marksOf isStatic false).ofMethod) met ∧ s.Given f := by
  obtain ⟨-, m, listed, shown⟩ := s.opens ([';'] ++ rest)
  rw [← List.append_assoc] at shown
  have question : Token.symbol m ≠ .symbol "?" := by
    simp only [List.mem_cons, List.not_mem_nil, or_false] at listed
    rcases listed with rfl | rfl <;> simp
  have opens : ["(", "<"].contains m = true := List.contains_iff_mem.mpr listed
  obtain ⟨n, first, crossed⟩ : ∃ n met, NameCrossed k ctx broken pos name (s.chars ++ ';' :: rest) n met :=
    named.crosses fits (s.follows (';' :: rest))
  obtain ⟨f, second, tail, given⟩ := functionTail_moves false reads fits.drop
  have text : Sees ctx n.text (pos + byteLength name.toList) (s.chars ++ [';'] ++ rest) name :=
    fun last comments => crossed.text _
  refine ⟨f, second ++ first, ?_, given⟩
  rw [namedMember]
  refine Crosses.bind_moves (by simpa using crossed.crosses) ((shown.not_eat question).bind_moves ?_)
  refine (shown.isOneOf _).bind_moves ?_
  simp only [opens, if_true, marksOf, Bool.false_eq_true, if_false, crossed.shown.1, methodRest, crossed.shown.2]
  exact text.bind_moves (tail.bind_sees (.pure _ _ _))

/-- The word that stands for the name of a constructor. -/
def constructorWord : List Char := "constructor".toList

private theorem lexes_constructorWord {cs : List Char} (apart : Apart cs) :
    Lexes constructorWord (.word "constructor") cs :=
  lexes_name (by decide) apart

theorem namedMember_constructor {isStatic broken : Bool} {ps : List ParameterText} {lo : Nat}
    (targets : ReadsTargets k) (reads : ∀ p ∈ ps, p.Reads k)
    (fits : Fits ctx pos (constructorWord ++ (['('] ++ (parametersText ps ++ ';' :: rest)))) :
    ∃ qs met, Crosses ctx (namedMember k lo (marksOf isStatic false)) broken pos
      (constructorWord ++ (['('] ++ (parametersText ps ++ [';']))) rest (.constructor lo qs) met ∧
      List.Forall₂ ParameterText.Given qs ps := by
  have opening : ∀ cs, Lexes ['('] (.symbol "(") cs := lexes_mark (by simp [marks])
  have semicolon : Shows ([';'] ++ rest) (.symbol ";") := (begins_mark (by simp [marks]) rest).shows
  have word : Lexes constructorWord (.word "constructor") (['('] ++ (parametersText ps ++ [';']) ++ rest) :=
    lexes_constructorWord (apart_mark (s := "(") (by simp [marks]) _)
  obtain ⟨qs, met, list, given⟩ := constructorParameters_crosses targets reads fits.drop.drop
  have body : ∀ pos, Takes ctx (functionBody k false) pos [';'] rest () := fun pos =>
    (semicolon.not_isSymbol (by simp [openBrace])).bind_takes expectSemicolon_takes
  refine ⟨qs, met ++ [], ?_, given⟩
  rw [namedMember]
  refine (memberName_crosses word (n := .word "constructor") rfl).bind_moves ?_
  have shown : Shows (['('] ++ (parametersText ps ++ [';']) ++ rest) (.symbol "(") := (begins_mark (by simp [marks]) _).shows
  have constructor_ : ∀ lo hi, (NameSpan.mk (.word "constructor") lo hi).isConstructor = true := fun _ _ => rfl
  refine (shown.not_eat (by simp)).bind_moves ((shown.isOneOf _).bind_moves ?_)
  simp only [List.contains_cons, beq_self_eq_true, Bool.true_or, if_true, marksOf, Bool.false_eq_true, if_false,
    constructor_, constructorRest]
  have list : Crosses ctx (constructorParameters k) false _ (parametersText ps) ([';'] ++ rest) qs met := list
  refine Crosses.moves ((opening _).expect.bind_crosses (list.bind_takes ?_))
  exact (annotation?_none semicolon (by simp)).bind_takes ((body _).bind_sees (.pure _ _ _))

/-! ### Members -/

/-- A member behind its modifiers: names, marks, and the texts of types. -/
inductive MemberForm
  | property (name : String) (isOptional : Bool) (type : List Char)
  | method (name : String) (signature : SignatureText)
  | constructor (parameters : List ParameterText)

/-- The text of a member behind its modifiers. -/
def MemberForm.chars : MemberForm → List Char
  | .property name isOptional type => typedChars name isOptional type ++ [';']
  | .method name signature => name.toList ++ (signature.chars ++ [';'])
  | .constructor parameters => constructorWord ++ (['('] ++ (parametersText parameters ++ [';']))

/-- What is read from a member at a place is one of its kind with its name. -/
inductive MemberForm.Given (lo : Nat) : MemberForm → Member → Prop
  | property {name : String} {isOptional : Bool} {type : List Char} (t : TypeExpr) (marked : Bool)
    (modifiers : List Modifier) : Given lo (.property name isOptional type) (.property lo name t marked modifiers)
  | method {name : String} {s : SignatureText} {f : Function} (marked : Bool) (modifiers : List Modifier)
    (given : s.Given f) : Given lo (.method name s) (.method lo name f marked modifiers)
  | constructor {ps : List ParameterText} {qs : List Parameter} (given : List.Forall₂ ParameterText.Given qs ps) :
    Given lo (.constructor ps) (.constructor lo qs)

/-- A member of a class whose parts are crossed, read-only or not; only properties are read-only. -/
inductive MemberForm.ReadsInClass (k : Knot) : Bool → MemberForm → Prop
  | property {isReadonly : Bool} {name : String} {type : List Char} (isOptional : Bool) (named : ReadsClassName k name)
    (typed : CrossesType k type) : ReadsInClass k isReadonly (.property name isOptional type)
  | method {name : String} {s : SignatureText} (named : ReadsClassName k name) (signed : s.Reads k) :
    ReadsInClass k false (.method name s)
  | constructor {ps : List ParameterText} (targets : ReadsTargets k) (listed : ∀ p ∈ ps, p.Reads k) :
    ReadsInClass k false (.constructor ps)

section
variable {form : MemberForm} {isReadonly broken : Bool}

private theorem MemberForm.ReadsInClass.crosses {lo : Nat} (isStatic : Bool) (reads : form.ReadsInClass k isReadonly)
    (fits : Fits ctx pos (form.chars ++ rest)) :
    ∃ x met, Crosses ctx (namedMember k lo (marksOf isStatic isReadonly)) broken pos form.chars rest x met ∧
      form.Given lo x := by
  cases reads with
  | property isOptional named typed =>
    rw [MemberForm.chars, List.append_assoc] at fits
    obtain ⟨t, met, crosses⟩ := namedMember_property
      named typed fits
    exact ⟨_, met, crosses, .property t isOptional _⟩
  | method named signed =>
    rw [MemberForm.chars, List.append_assoc, List.append_assoc] at fits
    obtain ⟨f, met, crosses, given⟩ := namedMember_method named
      signed fits
    exact ⟨_, met, crosses, .method false _ given⟩
  | constructor targets listed =>
    rw [MemberForm.chars, List.append_assoc, List.append_assoc, List.append_assoc] at fits
    obtain ⟨qs, met, crosses, given⟩ := namedMember_constructor
      targets listed fits
    exact ⟨_, met, crosses, .constructor given⟩

private theorem MemberForm.ReadsInClass.heads (reads : form.ReadsInClass k isReadonly) :
    ∃ token, Heads (form.chars ++ rest) token ∧ startsName token = true := by
  cases reads with
  | property isOptional named typed =>
    rw [MemberForm.chars, typedChars, List.append_assoc, List.append_assoc, List.append_assoc]
    exact named.heads (annotated_follows isOptional _).apart
  | method named signed =>
    rw [MemberForm.chars, List.append_assoc, List.append_assoc]
    exact named.heads (SignatureText.follows _ _).apart
  | constructor targets listed =>
    rw [MemberForm.chars, List.append_assoc]
    exact ⟨_, (lexes_constructorWord (apart_mark (s := "(") (by simp [marks]) _)).heads, rfl⟩

private theorem MemberForm.ReadsInClass.atName (reads : form.ReadsInClass k isReadonly) (last : Nat)
    (comments : List Comment) : AtName (.behind last pos broken comments (form.chars ++ rest)) := by
  cases reads with
  | property isOptional named typed =>
    rw [MemberForm.chars, typedChars, List.append_assoc, List.append_assoc, List.append_assoc]
    exact named.atName (annotated_follows isOptional _) last comments
  | method named signed =>
    rw [MemberForm.chars, List.append_assoc, List.append_assoc]
    exact named.atName (SignatureText.follows _ _) last comments
  | @constructor ps targets listed =>
    have word : Lexes constructorWord (.word "constructor") (['('] ++ (parametersText ps ++ [';']) ++ rest) :=
      lexes_constructorWord (apart_mark (s := "(") (by simp [marks]) _)
    have opening : Shows (['('] ++ (parametersText ps ++ [';']) ++ rest) (.symbol "(") :=
      (begins_mark (by simp [marks]) _).shows
    rw [MemberForm.chars, List.append_assoc]
    refine ⟨?_, .inl ?_, ?_⟩
    · rw [word.behind]
      simp [startsName, leadingWords]
    · rw [word.next_behind, (opening _ _ _).1]
      simp [nameEnds]
    · rw [word.behind]
      rfl

end

/-- A member with its modifiers. -/
structure MemberText where
  isStatic : Bool
  isReadonly : Bool
  form : MemberForm

namespace MemberText

/-- The text of a member behind the word that binds it to its class. -/
def ownChars (m : MemberText) : List Char :=
  if m.isReadonly then "readonly".toList ++ ' ' :: m.form.chars else m.form.chars

/-- The text of a member. -/
def chars (m : MemberText) : List Char :=
  if m.isStatic then "static".toList ++ ' ' :: m.ownChars else m.ownChars

variable {m : MemberText} {broken : Bool}

private theorem modified {lo : Nat} (reads : m.form.ReadsInClass k m.isReadonly)
    (fits : Fits ctx pos (m.ownChars ++ rest)) :
    ∃ x met, Crosses ctx (modifiedMember k lo (marksOf m.isStatic false)) broken pos m.ownChars rest x met ∧
      m.form.Given lo x := by
  rw [ownChars] at fits ⊢
  cases isReadonly : m.isReadonly with
  | false =>
    rw [isReadonly] at reads
    rw [isReadonly, if_neg Bool.false_ne_true] at fits
    rw [if_neg Bool.false_ne_true]
    obtain ⟨x, met, crosses, given⟩ := reads.crosses m.isStatic fits
    exact ⟨x, met, crosses.congr fun last comments => modifiedMember_eq (reads.atName last comments), given⟩
  | true =>
    rw [isReadonly] at reads
    rw [isReadonly, if_pos rfl, List.append_assoc] at fits
    rw [if_pos rfl]
    have word : Lexes "readonly".toList (.word "readonly") (' ' :: (m.form.chars ++ rest)) :=
      lexes_name (by decide) (apart_blank _)
    have room := fits.room
    obtain ⟨x, met, crosses, given⟩ := reads.crosses m.isStatic fits.drop.blank
    refine ⟨x, met, Crosses.behind_word word crosses fun last comments => ?_, given⟩
    have at_ : AtName (Cursor.behind last pos broken comments ("readonly".toList ++ ' ' :: (m.form.chars ++ rest))).next := by
      rw [word.next_behind, Cursor.facing_blank]
      exact reads.atName _ comments
    refine modifiedMember_readonly (word.heads.token_behind _ _ _ _) ?_ at_ ?_
    · obtain ⟨token, heads, -⟩ := reads.heads
      rw [word.next_behind, Cursor.facing_blank]
      exact heads.lineBreak_behind _ _ _ _
    · rw [word.heads.lo_behind]
      omega

private theorem ownHeads (reads : m.form.ReadsInClass k m.isReadonly) :
    ∃ token, Heads (m.ownChars ++ rest) token ∧ startsName token = true := by
  rw [ownChars]
  split
  · rw [List.append_assoc]
    exact ⟨_, (lexes_name (by decide) (apart_blank _)).heads, rfl⟩
  · exact reads.heads

/-- A member of a class starts with a word, a literal or a bracket. -/
theorem classMember_heads (reads : m.form.ReadsInClass k m.isReadonly) (rest : List Char) :
    ∃ token, Heads (m.chars ++ rest) token ∧ token ≠ .symbol closeBrace ∧ token ≠ .eof := by
  rw [chars]
  split
  · rw [List.append_assoc]
    exact ⟨_, (lexes_name (by decide) (apart_blank _)).heads, by simp, by simp⟩
  · obtain ⟨token, heads, starts⟩ := ownHeads reads
    refine ⟨token, heads, ?_, ?_⟩
    all_goals
      rintro rfl
      exact absurd starts (by decide)

private theorem modifier?_other {c : Cursor} {w : String} {allowed : List String} (word : c.token = .word w)
    (other : w ∉ allowed) (blocks : Bool) : modifier? allowed blocks ctx c = .ok none c := by
  simp [modifier?, Parse.token, word, Parse.peek, other]

private theorem own_unmodified (reads : m.form.ReadsInClass k m.isReadonly) (last : Nat) (comments : List Comment) :
    modifier? accessWords false ctx (.behind last pos broken comments (m.ownChars ++ rest)) =
      .ok none (.behind last pos broken comments (m.ownChars ++ rest)) := by
  rw [ownChars]
  split
  · have word : Lexes "readonly".toList (.word "readonly") (' ' :: (m.form.chars ++ rest)) :=
      lexes_name (by decide) (apart_blank _)
    rw [List.append_assoc, List.cons_append]
    exact modifier?_other (word.heads.token_behind _ _ _ _) (by simp [accessWords]) false
  · exact (reads.atName last comments).modifier?_eq accessWords false

/-- The grammar crosses a member of a class. -/
theorem classMember_crosses (reads : m.form.ReadsInClass k m.isReadonly) (fits : Fits ctx pos (m.chars ++ rest)) :
    ∃ x met, Crosses ctx (classMember k) broken pos m.chars rest x met ∧ m.form.Given pos x := by
  rw [chars] at fits ⊢
  obtain ⟨token, heads, starts⟩ := ownHeads reads
  cases isStatic : m.isStatic with
  | false =>
    rw [isStatic, if_neg Bool.false_ne_true] at fits
    rw [if_neg Bool.false_ne_true]
    obtain ⟨x, met, crosses, given⟩ := modified reads fits
    rw [isStatic] at crosses
    refine ⟨x, met, crosses.congr fun last comments => ?_, given⟩
    refine (classMember_eq ?_ ?_).trans ?_
    · rw [heads.token_behind]
      exact starts
    · exact own_unmodified reads last comments
    · rw [heads.lo_behind]
  | true =>
    rw [isStatic, if_pos rfl, List.append_assoc] at fits
    rw [if_pos rfl]
    have word : Lexes "static".toList (.word "static") (' ' :: (m.ownChars ++ rest)) :=
      lexes_name (by decide) (apart_blank _)
    obtain ⟨x, met, crosses, given⟩ := modified reads fits.drop.blank
    rw [isStatic] at crosses
    refine ⟨x, met, Crosses.behind_word word crosses fun last comments => ?_, given⟩
    refine (classMember_static (word.heads.token_behind _ _ _ _) ?_).trans ?_
    · rw [word.next_behind, Cursor.facing_blank]
      exact (heads.token_behind _ _ _ _).symm ▸ starts
    · rw [word.heads.lo_behind]

end MemberText

end Grammar

end DocLocale.Source
