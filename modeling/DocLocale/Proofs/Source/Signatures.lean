import DocLocale.Proofs.Source.Crossing
import DocLocale.Proofs.Source.TypeFunctions
import DocLocale.Source.Grammar.Modules
import Mathlib.Tactic.Common

/-!
Generic parameters, parameters and results of printed declarations, crossed by the grammar. Of a type it is only asked
that the grammar takes it for one type, whatever comes of it.
-/

set_option autoImplicit false
set_option relaxedAutoImplicit false

namespace DocLocale.Source

open Text (byteLength)

/-- A name that is read as one word, wherever nothing that could belong to it follows. -/
def IsWordName (name : String) : Prop := ∀ rest, Apart rest → Lexes name.toList (.word name) rest

theorem IsWordName.ne_nil {name : String} (named : IsWordName name) : name.toList ≠ [] := by
  intro empty
  have piece := (named [] (by simp [Apart])).piece
  rw [empty] at piece
  cases piece

theorem IsWordName.ne_empty {name : String} (named : IsWordName name) : name ≠ "" := by
  simpa using named.ne_nil

/-- Whether a word can be the name of a parameter. -/
def isBindable (w : String) : Bool :=
  !((keywords.contains w && !Parse.bindingKeywords.contains w) || literalWords.contains w)

namespace Grammar

variable {ctx : Context} {k : Knot} {pos : Nat} {rest : List Char}

/-- The grammar crosses a text as one type. -/
structure CrossesType (k : Knot) (text : List Char) : Prop where
  nonempty : text ≠ []
  crosses : ∀ ctx pos rest, Fits ctx pos (text ++ rest) → Follows stopTokens rest →
    ∃ span met, Crosses ctx k.type false pos text rest span met

/-- Names are read as targets. -/
def ReadsTargets (k : Knot) : Prop :=
  ∀ letAllowed ctx pos (name : String) rest, IsWordName name → isBindable name = true →
    (letAllowed = false → name ≠ "let") → Apart rest →
    Takes ctx (k.target letAllowed) pos name.toList rest (.name name)

theorem bindingName_crosses {name : String} {letAllowed broken : Bool} (named : IsWordName name)
    (bindable : isBindable name = true) (free : letAllowed = false → name ≠ "let") (apart : Apart rest) :
    Crosses ctx (Parse.bindingName letAllowed) broken pos name.toList rest name [] := by
  have lexes := named rest apart
  have lets : (name == "let" && !letAllowed) = false := by
    cases letAllowed with
    | true => simp
    | false => simpa using free rfl
  rw [isBindable, Bool.not_eq_true', Bool.or_eq_false_iff] at bindable
  refine lexes.crosses fun c shown => ?_
  simp only [Parse.bindingName, shown, bindable.1, bindable.2, lets, Bool.or_false]
  rfl

theorem readsTargets_level (k : Knot) : ReadsTargets (level k) := by
  intro letAllowed ctx pos name rest named bindable free apart
  have lexes := named rest apart
  have taken : Crosses ctx (Parse.bindingName letAllowed) false pos name.toList rest name [] :=
    bindingName_crosses named bindable free apart
  exact lexes.shows.sees_token.bind_takes (Takes.bind_sees (a := name) taken.run (.pure _ _ _))

/-! ### Annotations -/

theorem annotation?_crosses {text : List Char} (type : CrossesType k text)
    (fits : Fits ctx pos (':' :: ' ' :: text ++ rest)) (follows : Follows stopTokens rest) :
    ∃ t met, Crosses ctx (annotation? k) false pos (':' :: ' ' :: text) rest (some t) met := by
  have colon : ∀ cs, Lexes [':'] (.symbol ":") cs := lexes_mark (by simp [marks])
  obtain ⟨span, met, crosses⟩ := type.crosses ctx _ rest fits.tail.blank follows
  exact ⟨span.type, met, Takes.bind_crosses (colon _).eat (crosses.blank.bind_sees (.pure _ _ _))⟩

theorem annotation?_none {token : Token} {cs : List Char} (shown : Shows cs token) (other : token ≠ .symbol ":") :
    Sees ctx (annotation? k) pos cs none :=
  (shown.not_eat other).bind (.pure none _ _)

/-- A name with its mark and the text of its type. -/
def typedChars (name : String) (isOptional : Bool) (type : List Char) : List Char :=
  name.toList ++ ((if isOptional then ['?'] else []) ++ ':' :: ' ' :: type)

theorem typedChars_marked (name : String) (isOptional : Bool) (type cs : List Char) :
    ∃ more, typedChars name isOptional type ++ cs = name.toList ++ more ∧ Marked isOptional more := by
  rw [typedChars]
  cases isOptional with
  | false => exact ⟨':' :: ' ' :: (type ++ cs), by simp, .plain _⟩
  | true => exact ⟨'?' :: ':' :: ' ' :: (type ++ cs), by simp, .optional _⟩

/-! ### Generic parameters -/

/-- A generic parameter: its name and the text of its bound. -/
structure GenericText where
  name : String
  bound : Option (List Char)

/-- The text of a generic parameter. -/
def GenericText.chars (g : GenericText) : List Char :=
  match g.bound with
  | none => g.name.toList
  | some c => g.name.toList ++ ((' ' :: "extends".toList) ++ ' ' :: c)

/-- A generic parameter whose name is no modifier and whose bound is crossed. -/
structure GenericText.Reads (k : Knot) (g : GenericText) : Prop where
  named : IsWordName g.name
  free : genericWords.contains g.name = false
  bound : ∀ c ∈ g.bound, CrossesType k c

private theorem modifiers_sees {g : String} {cs : List Char} (named : IsWordName g)
    (free : genericWords.contains g = false) (apart : Apart cs) :
    Sees ctx (Parse.repeated (modifier? genericWords false)) pos (g.toList ++ cs) [] := by
  have lexes := named cs apart
  refine Sees.repeated (lexes.shows.sees_token.bind ?_)
  intro last comments
  simp [Parse.peek, -List.contains_eq_mem, free]

private theorem GenericText.front {g : GenericText} {cs : List Char} (follows : Follows stopTokens cs) :
    ∃ more, g.chars ++ cs = g.name.toList ++ more ∧ Apart more := by
  rw [chars]
  cases g.bound with
  | none => exact ⟨cs, rfl, follows.apart⟩
  | some c => exact ⟨(' ' :: "extends".toList) ++ ' ' :: c ++ cs, by simp, apart_blank _⟩

private theorem typeParameter_crosses {g : GenericText} (reads : g.Reads k) (fits : Fits ctx pos (g.chars ++ rest))
    (follows : Follows stopTokens rest) :
    ∃ p met, Crosses ctx (typeParameter k) false pos g.chars rest p met := by
  obtain ⟨next, listed, ends⟩ := follows.shows
  have equals : next ≠ .symbol "=" := by
    rintro rfl
    simp [stopTokens] at listed
  have extends_ : next ≠ .word "extends" := by
    rintro rfl
    simp [stopTokens] at listed
  have name : ∀ cs, Apart cs → ∀ pos, Crosses ctx Parse.anyWord false pos g.name.toList cs g.name [] :=
    fun cs apart pos => (reads.named cs apart).crosses_anyWord
  rw [GenericText.chars] at fits ⊢
  cases bound : g.bound with
  | none =>
    refine ⟨⟨g.name, none⟩, [], Takes.crosses ?_⟩
    refine (modifiers_sees reads.named reads.free follows.apart).bind_takes
      ((reads.named _ follows.apart).anyWord.bind_sees ?_)
    exact (ends.not_eatWord extends_).bind ((Sees.pure _ _ _).bind ((ends.not_eat equals).bind (.pure _ _ _)))
  | some c =>
    simp only [bound] at fits ⊢
    rw [List.append_assoc, List.append_assoc] at fits
    obtain ⟨span, met, type⟩ := (reads.bound c bound).crosses ctx _ rest fits.drop.drop.blank follows
    have word : ∀ pos, Takes ctx (Parse.eatWord "extends") pos (' ' :: "extends".toList) (' ' :: c ++ rest) true :=
      fun pos => (lexes_name (by decide) (apart_blank _)).eatWord.blank
    refine ⟨⟨g.name, some span.type⟩, met, Sees.bind_crosses_append
      (modifiers_sees reads.named reads.free (apart_blank _)) ?_⟩
    refine (reads.named _ (apart_blank _)).anyWord.bind_crosses ?_
    exact (word _).bind_crosses (type.blank.bind_sees
      ((Sees.pure _ _ _).bind ((ends.not_eat equals).bind (.pure _ _ _))))

/-- The text of generic parameters in angle brackets; nothing when there are none. -/
def genericsText (gs : List GenericText) : List Char :=
  if gs = [] then [] else '<' :: ([',', ' '].intercalate (gs.map GenericText.chars) ++ ['>'])

theorem typeParameters_moves {gs : List GenericText} {token : Token} (reads : ∀ g ∈ gs, g.Reads k)
    (fits : Fits ctx pos (genericsText gs ++ rest)) (shown : Shows rest token) (other : token ≠ .symbol "<") :
    ∃ ps met, Moves ctx (typeParameters k) pos (genericsText gs) rest ps met := by
  rw [genericsText] at fits ⊢
  by_cases empty : gs = []
  · rw [if_pos empty]
    exact ⟨[], [], (typeParameters_none shown other).moves⟩
  rw [if_neg empty] at fits ⊢
  rw [List.cons_append, List.append_assoc] at fits
  have opening : ∀ cs, Lexes ['<'] (.symbol "<") cs := lexes_mark (by simp [marks])
  have closing : Lexes ['>'] (.symbol ">") rest := lexes_mark (by simp [marks]) rest
  have listing : Listing ctx (commaStep (Parse.isSymbol ">") (typeParameter k)) GenericText.chars
      (fun _ _ => True) ('>' :: rest) gs := by
    refine commaStep_listing ?_ ?_ ?_ follows_comma
      (follows_mark (s := ">") (by simp [stopMarks]) rest) ?_ ?_
    · intro g member pos rest fits follows
      obtain ⟨p, met, crosses⟩ := typeParameter_crosses (reads g member) fits follows
      exact ⟨p, met, crosses, trivial⟩
    · intro g member
      have nonempty := (reads g member).named.ne_nil
      rw [GenericText.chars]
      split <;> simp [nonempty]
    · intro g member cs follows
      obtain ⟨more, shape, apart⟩ := g.front follows
      have begins := ((reads g member).named more apart).begins
      rw [shape]
      exact ⟨⟨_, begins⟩, fun pos => begins.shows.not_isSymbol (by simp)⟩
    · exact fun pos => closing.shows.isSymbol
    · exact fun pos => closing.shows.not_eat (by simp)
  obtain ⟨ps, met, crosses, -⟩ := listing.repeated empty fits.tail
  have list : Crosses ctx (Parse.repeated (commaStep (Parse.isSymbol ">") (typeParameter k)) >>= fun ps =>
      Parse.expect ">" >>= fun _ => pure ps) false (pos + byteLength ['<'])
      ([',', ' '].intercalate (gs.map GenericText.chars) ++ ['>']) rest ps met :=
    crosses.bind_takes (closing.expect.bind_sees (.pure _ _ _))
  have whole : Crosses ctx (typeParameters k) false pos _ rest ps met := (opening _).eat.bind_crosses list
  exact ⟨ps, met, whole.moves⟩

/-! ### Parameters -/

/-- A parameter: its name, its marks and the text of its type. -/
structure ParameterText where
  isRest : Bool
  name : String
  isOptional : Bool
  type : List Char

namespace ParameterText

/-- The text of a parameter behind its dots. -/
def bare (p : ParameterText) : List Char := typedChars p.name p.isOptional p.type

/-- The text of a parameter. -/
def chars (p : ParameterText) : List Char := if p.isRest then ['.', '.', '.'] ++ p.bare else p.bare

/-- A parameter whose name can be one and whose type is crossed. -/
structure Reads (k : Knot) (p : ParameterText) : Prop where
  named : IsWordName p.name
  bindable : isBindable p.name = true
  single : p.isRest = true → p.isOptional = false
  type : CrossesType k p.type

/-- What is read from a parameter is one with its name. -/
def Given (q : Parameter) (p : ParameterText) : Prop := q.name = some p.name ∧ q.hasDefault = false

variable {p : ParameterText}

theorem Reads.begins (reads : p.Reads k) (cs : List Char) :
    ∃ token, Begins (p.chars ++ cs) token ∧ token ≠ .symbol ")" := by
  rw [chars]
  split
  · rw [List.append_assoc]
    exact ⟨_, (lexes_dots _).begins, by simp⟩
  · obtain ⟨more, shape, marked⟩ := typedChars_marked p.name p.isOptional p.type cs
    rw [bare, shape]
    exact ⟨_, (reads.named _ marked.lexes.1).begins, by simp⟩

theorem Reads.ne_nil (reads : p.Reads k) : p.chars ≠ [] := by
  have nonempty := reads.named.ne_nil
  rw [chars, bare, typedChars]
  split <;> simp [nonempty]

end ParameterText

theorem plainParameter_crosses {p : ParameterText} (targets : ReadsTargets k) (reads : p.Reads k)
    (fits : Fits ctx pos (p.bare ++ rest)) (follows : Follows stopTokens rest) :
    ∃ q met, Crosses ctx (plainParameter k) false pos p.bare rest q met ∧ ParameterText.Given q p := by
  obtain ⟨next, listed, ends⟩ := follows.shows
  have equals : next ≠ .symbol "=" := by
    rintro rfl
    simp [stopTokens] at listed
  have unmodified : Sees ctx eatParameterModifier pos (p.bare ++ rest) false := by
    obtain ⟨more, shape, marked⟩ := typedChars_marked p.name p.isOptional p.type rest
    rw [ParameterText.bare, shape]
    intro last comments
    refine eatParameterModifier_eq_false ?_
    rw [(reads.named _ marked.lexes.1).next_facing]
    exact marked.mem_nameEnds _ _ comments
  have name : ∀ cs, Apart cs → Takes ctx (k.target true) pos p.name.toList cs (.name p.name) := fun cs apart =>
    targets true ctx pos p.name cs reads.named reads.bindable (by simp) apart
  rw [ParameterText.bare, typedChars] at fits unmodified ⊢
  cases optional : p.isOptional with
  | false =>
    simp only [optional] at fits unmodified ⊢
    rw [List.append_assoc] at fits
    have colon : Shows (':' :: ' ' :: p.type ++ rest) (.symbol ":") := (begins_mark (by simp [marks]) _).shows
    obtain ⟨t, met, annotated⟩ := annotation?_crosses reads.type fits.drop follows
    refine ⟨_, met, unmodified.bind_crosses ((name _ (apart_mark (s := ":") (by simp [marks]) _)).bind_crosses
      ((colon.not_eat (by simp)).bind_crosses (annotated.bind_sees ((ends.not_eat equals).bind (.pure _ _ _))))), ?_⟩
    exact ⟨rfl, rfl⟩
  | true =>
    simp only [optional] at fits unmodified ⊢
    rw [List.append_assoc] at fits
    obtain ⟨t, met, annotated⟩ := annotation?_crosses reads.type fits.drop.tail follows
    refine ⟨_, met, unmodified.bind_crosses ((name _ (apart_question _)).bind_crosses
      (Takes.bind_crosses (lexes_question _).eat
        (annotated.bind_sees ((ends.not_eat equals).bind (.pure _ _ _))))), ?_⟩
    exact ⟨rfl, rfl⟩

theorem restParameter_crosses {p : ParameterText} (targets : ReadsTargets k) (reads : p.Reads k)
    (single : p.isOptional = false) (fits : Fits ctx pos (p.bare ++ rest)) (follows : Follows stopTokens rest) :
    ∃ q met, Crosses ctx (restParameter k) false pos p.bare rest q met ∧ ParameterText.Given q p := by
  obtain ⟨next, listed, ends⟩ := follows.shows
  have question : next ≠ .symbol "?" := by
    rintro rfl
    simp [stopTokens] at listed
  rw [ParameterText.bare, typedChars] at fits ⊢
  simp only [single] at fits ⊢
  rw [List.append_assoc] at fits
  have colon : Shows (':' :: ' ' :: p.type ++ rest) (.symbol ":") := (begins_mark (by simp [marks]) _).shows
  have name : Takes ctx (k.target true) pos p.name.toList (':' :: ' ' :: p.type ++ rest) (.name p.name) :=
    targets true ctx pos p.name _ reads.named reads.bindable (by simp) (apart_mark (s := ":") (by simp [marks]) _)
  obtain ⟨t, met, annotated⟩ := annotation?_crosses reads.type fits.drop follows
  refine ⟨_, met, name.bind_crosses ((colon.not_eat (by simp)).bind_crosses
    (annotated.bind_sees ((ends.not_eat question).bind (.pure _ _ _)))), ?_⟩
  exact ⟨rfl, rfl⟩

section
variable {plain : Parse Parameter} {ps : List ParameterText}

/-- The text of parameters with the closing parenthesis. -/
def parametersText (ps : List ParameterText) : List Char :=
  [',', ' '].intercalate (ps.map ParameterText.chars) ++ [')']

private theorem parameter_crosses {p : ParameterText} (targets : ReadsTargets k) (reads : p.Reads k)
    (crosses : Fits ctx pos (p.bare ++ rest) →
      ∃ q met, Crosses ctx plain false pos p.bare rest q met ∧ ParameterText.Given q p)
    (fits : Fits ctx pos (p.chars ++ rest)) (follows : Follows stopTokens rest) :
    ∃ q met, Crosses ctx (parameter plain (restParameter k)) false pos p.chars rest q met ∧ ParameterText.Given q p := by
  rw [ParameterText.chars] at fits ⊢
  cases isRest : p.isRest with
  | false =>
    rw [isRest, if_neg Bool.false_ne_true] at fits
    rw [if_neg Bool.false_ne_true]
    obtain ⟨q, met, taken, given⟩ := crosses fits
    obtain ⟨more, shape, marked⟩ := typedChars_marked p.name p.isOptional p.type rest
    have word : Shows (p.bare ++ rest) (.word p.name) := by
      rw [ParameterText.bare, shape]
      exact (reads.named _ marked.lexes.1).shows
    exact ⟨q, met, (word.not_eat (by simp)).bind_crosses taken, given⟩
  | true =>
    rw [isRest, if_pos rfl, List.append_assoc] at fits
    rw [if_pos rfl]
    obtain ⟨q, met, taken, given⟩ := restParameter_crosses targets reads (reads.single isRest) fits.drop follows
    exact ⟨q, met, (lexes_dots _).eat.bind_crosses taken, given⟩

/-- Parameters up to the closing parenthesis, each of which `plain` crosses if it has no dots. -/
theorem parametersOf_crosses (targets : ReadsTargets k) (reads : ∀ p ∈ ps, p.Reads k)
    (crosses : ∀ p ∈ ps, ∀ pos rest, Fits ctx pos (p.bare ++ rest) → Follows stopTokens rest →
      ∃ q met, Crosses ctx plain false pos p.bare rest q met ∧ ParameterText.Given q p)
    (fits : Fits ctx pos (parametersText ps ++ rest)) :
    ∃ qs met, Crosses ctx (parametersOf plain (restParameter k)) false pos (parametersText ps) rest qs met ∧
      List.Forall₂ ParameterText.Given qs ps := by
  rw [parametersText, List.append_assoc] at fits
  rw [parametersOf_eq, parametersText]
  have closing : Lexes [')'] (.symbol ")") rest := lexes_mark (by simp [marks]) rest
  have ends : ∀ pos, Sees ctx (parameterStep plain (restParameter k)) pos (')' :: rest) none := fun pos =>
    closing.shows.isSymbol.bind (.pure _ _ _)
  by_cases empty : ps = []
  · subst empty
    have none : Takes ctx (Parse.repeated (parameterStep plain (restParameter k)) >>= fun ps =>
        Parse.expect ")" >>= fun _ => pure ps) pos [')'] rest [] :=
      (Sees.repeated (ends pos)).bind_takes (closing.expect.bind_sees (.pure _ _ _))
    exact ⟨[], [], none.crosses, .nil⟩
  have listing : Listing ctx (parameterStep plain (restParameter k)) ParameterText.chars ParameterText.Given
      (')' :: rest) ps := by
    constructor
    · exact fun p member => (reads p member).ne_nil
    · intro p member
      obtain ⟨token, begins, -⟩ := (reads p member).begins (')' :: rest)
      refine ⟨⟨token, begins⟩, fun cs => ?_⟩
      obtain ⟨token, begins, -⟩ := (reads p member).begins (',' :: cs)
      exact ⟨token, begins⟩
    · intro p member pos fits
      have follows : Follows stopTokens (')' :: rest) := follows_mark (s := ")") (by simp [stopMarks]) rest
      obtain ⟨q, met, taken, given⟩ := parameter_crosses targets (reads p member)
        (fun fits => crosses p member pos _ fits follows) fits follows
      obtain ⟨token, begins, open_⟩ := (reads p member).begins (')' :: rest)
      exact ⟨q, met, (begins.shows.not_isSymbol open_).bind_crosses
        (taken.bind_sees (closing.shows.isSymbol.bind (.pure _ _ _))), given⟩
    · intro p member pos cs fits
      obtain ⟨q, met, taken, given⟩ := parameter_crosses targets (reads p member)
        (fun fits => crosses p member pos _ fits (follows_comma cs)) fits (follows_comma cs)
      obtain ⟨token, begins, open_⟩ := (reads p member).begins (',' :: cs)
      have comma : Lexes [','] (.symbol ",") cs := lexes_mark (by simp [marks]) cs
      refine ⟨q, met, Sees.bind_crosses_append (begins.shows.not_isSymbol open_)
        (taken.bind_takes (Sees.bind_takes (comma.shows.not_isSymbol (by simp)) ?_)), given⟩
      exact comma.expect.bind_sees (.pure _ _ _)
    · exact ends
  obtain ⟨qs, met, taken, given⟩ := listing.repeated empty fits
  exact ⟨qs, met, taken.bind_takes (closing.expect.bind_sees (.pure _ _ _)), given⟩

theorem parameters_crosses (targets : ReadsTargets k) (reads : ∀ p ∈ ps, p.Reads k)
    (fits : Fits ctx pos (parametersText ps ++ rest)) :
    ∃ qs met, Crosses ctx (parameters k) false pos (parametersText ps) rest qs met ∧
      List.Forall₂ ParameterText.Given qs ps :=
  parametersOf_crosses targets reads
    (fun p member _ _ fits follows => plainParameter_crosses targets (reads p member) fits follows) fits

private theorem hasDefault_of_given {qs : List Parameter} (given : List.Forall₂ ParameterText.Given qs ps) :
    (qs.any fun q => q.hasDefault) = false := by
  induction given with
  | nil => rfl
  | cons first later ih => rw [List.any_cons, first.2, Bool.false_or, ih]

theorem signatureParameters_crosses (targets : ReadsTargets k) (reads : ∀ p ∈ ps, p.Reads k)
    (fits : Fits ctx pos (parametersText ps ++ rest)) :
    ∃ qs met, Crosses ctx (signatureParameters k) false pos (parametersText ps) rest qs met ∧
      List.Forall₂ ParameterText.Given qs ps := by
  obtain ⟨qs, met, crosses, given⟩ := parameters_crosses targets reads fits
  refine ⟨qs, met, crosses.bind_sees ?_, given⟩
  rw [hasDefault_of_given given]
  exact .pure _ _ _

theorem constructorParameters_crosses (targets : ReadsTargets k) (reads : ∀ p ∈ ps, p.Reads k)
    (fits : Fits ctx pos (parametersText ps ++ rest)) :
    ∃ qs met, Crosses ctx (constructorParameters k) false pos (parametersText ps) rest qs met ∧
      List.Forall₂ ParameterText.Given qs ps := by
  refine parametersOf_crosses targets reads (fun p member pos rest fits follows => ?_) fits
  obtain ⟨q, met, crosses, given⟩ := plainParameter_crosses targets (reads p member) fits follows
  have unmodified : ∀ allowed, Sees ctx (modifier? allowed false) pos (p.bare ++ rest) none := by
    obtain ⟨more, shape, marked⟩ := typedChars_marked p.name p.isOptional p.type rest
    rw [ParameterText.bare, shape]
    intro allowed last comments
    refine modifier?_eq_none ?_ allowed false
    rw [((reads p member).named _ marked.lexes.1).next_facing]
    exact marked.mem_nameEnds _ _ comments
  exact ⟨q, met, (unmodified _).bind_crosses ((unmodified _).bind_crosses ((unmodified _).bind_crosses
    (crosses.bind_sees (.pure _ _ _)))), given⟩

end

/-! ### Signatures -/

/-- The grammar crosses a text behind a colon as the type of a result. -/
structure CrossesResult (k : Knot) (text : List Char) : Prop where
  nonempty : text ≠ []
  crosses : ∀ ctx pos rest, Fits ctx pos (':' :: ' ' :: text ++ rest) → Follows stopTokens rest →
    ∃ span met, Crosses ctx (resultType k ":") false pos (':' :: ' ' :: text) rest span met

/-- Generic parameters, parameters and the text of a result. -/
structure SignatureText where
  generics : List GenericText
  parameters : List ParameterText
  result : List Char

namespace SignatureText

/-- The text of a signature. -/
def chars (s : SignatureText) : List Char :=
  genericsText s.generics ++ '(' :: (parametersText s.parameters ++ ':' :: ' ' :: s.result)

/-- A signature whose parts are crossed. -/
structure Reads (k : Knot) (s : SignatureText) : Prop where
  targets : ReadsTargets k
  generics : ∀ g ∈ s.generics, g.Reads k
  parameters : ∀ p ∈ s.parameters, p.Reads k
  result : CrossesResult k s.result

end SignatureText

/-- What is read from a signature has its parameters. -/
def SignatureText.Given (f : Function) (s : SignatureText) : Prop :=
  List.Forall₂ ParameterText.Given f.parameters s.parameters

/-- A signature and what ends it, with the parameters read in a given way. -/
def signatureThen {α : Type} (k : Knot) (parse : Parse (List Parameter)) (finish : Parse Unit) (wrap : Function → α) :
    Parse α := do
  let generics ← typeParameters k
  Parse.expect "("
  let ps ← parse
  let returns ← if ← Parse.isSymbol ":" then pure (some (← resultType k ":").type) else pure none
  finish
  return wrap ⟨generics, ps, returns⟩

theorem signatureThen_moves {α : Type} {s : SignatureText} {parse : Parse (List Parameter)} {finish : Parse Unit}
    (wrap : Function → α) (reads : s.Reads k) (listed : ∀ pos rest, Fits ctx pos (parametersText s.parameters ++ rest) →
      ∃ qs met, Crosses ctx parse false pos (parametersText s.parameters) rest qs met ∧
        List.Forall₂ ParameterText.Given qs s.parameters)
    (finishes : ∀ pos, Takes ctx finish pos [';'] rest ()) (fits : Fits ctx pos (s.chars ++ ';' :: rest)) :
    ∃ f met, Moves ctx (signatureThen k parse finish wrap) pos (s.chars ++ [';']) rest (wrap f) met ∧ s.Given f := by
  have opening : ∀ cs, Lexes ['('] (.symbol "(") cs := lexes_mark (by simp [marks])
  have colon : ∀ cs, Shows (':' :: cs) (.symbol ":") := fun cs => (begins_mark (by simp [marks]) cs).shows
  have follows : Follows stopTokens (';' :: rest) := follows_mark (s := ";") (by simp [stopMarks]) rest
  have shape : s.chars ++ [';'] = genericsText s.generics ++
      (['('] ++ (parametersText s.parameters ++ ((':' :: ' ' :: s.result) ++ [';']))) := by
    simp [SignatureText.chars]
  have whole : s.chars ++ ';' :: rest = genericsText s.generics ++
      (['('] ++ (parametersText s.parameters ++ ((':' :: ' ' :: s.result) ++ ';' :: rest))) := by
    simp [SignatureText.chars]
  rw [whole] at fits
  obtain ⟨generics, first, head⟩ := typeParameters_moves reads.generics fits (opening _).shows (by simp)
  obtain ⟨ps, second, list, given⟩ := listed _ _ fits.drop.drop
  obtain ⟨span, third, result⟩ := reads.result.crosses ctx _ _ fits.drop.drop.drop follows
  rw [shape]
  refine ⟨⟨generics, ps, some span.type⟩, third ++ second ++ first, ?_, given⟩
  refine Moves.bind (by simpa using head) (Crosses.moves (Takes.bind_crosses (opening _).expect ?_))
  refine Crosses.bind (by simpa using list) (Sees.bind_crosses ((colon _).isSymbol) ?_)
  exact result.bind_takes ((finishes _).bind_sees (.pure _ _ _))

theorem functionTail_moves {s : SignatureText} (generator : Bool) (reads : s.Reads k)
    (fits : Fits ctx pos (s.chars ++ ';' :: rest)) :
    ∃ f met, Moves ctx (functionTail k generator) pos (s.chars ++ [';']) rest f met ∧ s.Given f := by
  have semicolon : Shows (';' :: rest) (.symbol ";") := (begins_mark (by simp [marks]) rest).shows
  refine signatureThen_moves (fun f => f) reads
    (fun pos rest fits => parameters_crosses reads.targets reads.parameters fits) (fun pos => ?_) fits
  exact (semicolon.not_isSymbol (by simp [openBrace])).bind_takes expectSemicolon_takes

end Grammar

end DocLocale.Source
