import DocLocale.Proofs.Source.TypeObjects
import Mathlib.Tactic.Common

/-!
Function types read from their texts by the grammar: generic parameters, parameters and the result.
-/

set_option autoImplicit false
set_option relaxedAutoImplicit false

namespace DocLocale.Source

open Text (byteLength)
open Render (isPlainName typeChars slotChars genericChars)

namespace Grammar

variable {ctx : Context} {k : Knot} {pos : Nat} {rest : List Char}

/-! ### Generic parameters -/

/-- A generic parameter whose name is no modifier and whose bound is read. -/
structure ReadsGeneric (k : Knot) (name : String) (constraint : Option TypeExpr) : Prop where
  plain : isPlainName name.toList = true
  free : genericWords.contains name = false
  reads : ∀ c ∈ constraint, Reads k c

private theorem genericChars_front {name : String} {constraint : Option TypeExpr} (follows : Follows stopTokens rest) :
    ∃ cs, genericChars (.mk name constraint) ++ rest = name.toList ++ cs ∧ Apart cs := by
  cases constraint with
  | none => exact ⟨rest, by rw [genericChars], follows.apart⟩
  | some c => exact ⟨" extends ".toList ++ (typeChars c ++ rest), by simp [genericChars], apart_blank _⟩

private theorem genericModifier_sees {name : String} {cs : List Char} (plain : isPlainName name.toList = true)
    (free : genericWords.contains name = false) (apart : Apart cs) :
    Sees ctx (modifier? genericWords false) pos (name.toList ++ cs) none := by
  have lexes := lexes_name plain apart
  refine lexes.shows.sees_token.bind ?_
  intro last comments
  simp [Parse.peek, -List.contains_eq_mem, free]

theorem typeParameter_takes {name : String} {constraint : Option TypeExpr} (generic : ReadsGeneric k name constraint)
    (fits : Fits ctx pos (genericChars (.mk name constraint) ++ rest)) (follows : Follows stopTokens rest) :
    Takes ctx (typeParameter k) pos (genericChars (.mk name constraint)) rest ⟨name, constraint⟩ := by
  obtain ⟨plain, free, reads⟩ := generic
  obtain ⟨next, listed, ends⟩ := follows.shows
  have equals : next ≠ .symbol "=" := by
    rintro rfl
    simp [stopTokens] at listed
  have bound : next ≠ .word "extends" := by
    rintro rfl
    simp [stopTokens] at listed
  have unmodified : ∀ cs, Apart cs → Sees ctx (Parse.repeated (modifier? genericWords false)) pos (name.toList ++ cs) [] :=
    fun cs apart => Sees.repeated (genericModifier_sees plain free apart)
  cases constraint with
  | none =>
    rw [genericChars]
    refine (unmodified rest follows.apart).bind_takes ((lexes_name plain follows.apart).anyWord.bind_sees ?_)
    exact (ends.not_eatWord bound).bind ((Sees.pure _ _ _).bind ((ends.not_eat equals).bind (.pure _ _ _)))
  | some c =>
    have shape : genericChars (.mk name (some c)) = name.toList ++ ((' ' :: "extends".toList) ++ ' ' :: typeChars c) := by
      simp [genericChars]
    rw [shape] at fits ⊢
    rw [List.append_assoc, List.append_assoc] at fits
    have type := (reads c rfl ctx _ rest fits.drop.drop.blank follows).blank
    have word : ∀ pos, Takes ctx (Parse.eatWord "extends") pos (' ' :: "extends".toList) (' ' :: typeChars c ++ rest) true :=
      fun pos => (lexes_name (by decide) (apart_blank _)).eatWord.blank
    refine Sees.bind_takes_append (unmodified _ (apart_blank _)) ((lexes_name plain (apart_blank _)).anyWord.bind ?_)
    exact (word _).bind (type.bind_sees ((Sees.pure _ _ _).bind ((ends.not_eat equals).bind (.pure _ _ _))))

/-- Generic parameters whose names are no modifiers and whose bounds are read. -/
def ReadsGenerics (k : Knot) (gs : List Generic) : Prop :=
  ∀ name constraint, Generic.mk name constraint ∈ gs → ReadsGeneric k name constraint

private def parameterOfGeneric : Generic → TypeParameter
  | .mk name constraint => ⟨name, constraint⟩

private theorem genericsOf_map (gs : List Generic) : genericsOf (gs.map parameterOfGeneric) = gs := by
  induction gs with
  | nil => rfl
  | cons g gs ih =>
    obtain ⟨name, constraint⟩ := g
    rw [genericsOf] at ih ⊢
    rw [List.map_cons, List.map_cons, ih]
    rfl

/-- The text of generic parameters in angle brackets, if there are any. -/
def genericsChars (gs : List Generic) : List Char :=
  if gs = [] then [] else '<' :: ([',', ' '].intercalate (gs.map genericChars) ++ ['>'])

theorem typeParameters_none {token : Token} {cs : List Char} (shown : Shows cs token) (other : token ≠ .symbol "<") :
    Sees ctx (typeParameters k) pos cs [] :=
  (shown.not_eat other).bind (.pure [] _ _)

theorem typeParameters_takes {gs : List Generic} (generics : ReadsGenerics k gs) 
    (fits : Fits ctx pos ('<' :: ([',', ' '].intercalate (gs.map genericChars) ++ ['>']) ++ rest)) :
    ∃ ps, Takes ctx (typeParameters k) pos ('<' :: ([',', ' '].intercalate (gs.map genericChars) ++ ['>'])) rest ps ∧
      genericsOf ps = gs := by
  have opening : ∀ cs, Lexes ['<'] (.symbol "<") cs := lexes_mark (by simp [marks])
  have items : ReadsItems ctx (typeParameter k) genericChars (fun p g => p = parameterOfGeneric g) gs := by
    rintro ⟨name, constraint⟩ member pos rest fits follows
    exact ⟨_, typeParameter_takes (generics name constraint member) fits follows, rfl⟩
  have starts : StartsOff genericChars ">" gs := by
    rintro ⟨name, constraint⟩ member
    have plain := (generics name constraint member).plain
    refine ⟨?_, fun rest follows => ?_⟩
    · obtain ⟨c, cs, shape, -⟩ := Render.nameChars_of_isPlainName plain
      cases constraint <;> simp [genericChars, shape]
    · obtain ⟨cs, shape, apart⟩ := genericChars_front follows
      exact ⟨.word name, by simp, shape ▸ (lexes_name plain apart).begins⟩
  have rounds := commaStep_rounds (c := '>') (by simp [stopMarks]) (by decide) items starts rest
  rw [List.cons_append, List.append_assoc] at fits
  refine ⟨gs.map parameterOfGeneric, ?_, genericsOf_map gs⟩
  refine Takes.bind_cons (opening _).eat (rounds.closed (by simp [marks]) fits.drop fun ps given _ _ _ => ?_)
  rw [← List.forall₂_map_right_iff, List.forall₂_eq_eq_eq] at given
  rw [given]
  rfl

/-! ### Parameters -/

/-- Plain names that refer to bindings are read as targets. -/
def ReadsNames (k : Knot) : Prop :=
  ∀ letAllowed ctx pos (name : String) rest, isPlainName name.toList = true → isReference name = true → Apart rest →
    Takes ctx (k.target letAllowed) pos name.toList rest (.name name)

/-- A parameter with a name that the grammar takes for one, and with a type that is read. -/
structure ReadsParameter (k : Knot) (name : String) (t : TypeExpr) (optional : Bool) : Prop where
  plain : Render.isParameterName name.toList = true
  free : isFreeParameter name.toList optional = true
  reads : Reads k t

/-- The parameter that a slot stands for. -/
def parameterOf : Slot → Parameter
  | .mk name type optional =>
    match after? "...".toList name.toList with
    | some bare => { name := some (String.ofList bare), type := type, isRest := true }
    | none => { name := some name, type := type, isOptional := optional }

theorem slotsOf_map {ss : List Slot} (parameters : ∀ name t optional, Slot.mk name t optional ∈ ss →
    isFreeParameter name.toList optional = true) (index : Nat) : slotsOf index (ss.map parameterOf) = ss := by
  induction ss generalizing index with
  | nil => rfl
  | cons s ss ih =>
    obtain ⟨name, t, optional⟩ := s
    have free := parameters name t optional (by simp)
    rw [List.map_cons, slotsOf, ih (fun name t optional member => parameters name t optional (by simp [member]))]
    rw [isFreeParameter] at free
    rw [parameterOf]
    cases dots : after? "...".toList name.toList with
    | none => simp [Parameter.nameAt]
    | some bare =>
      simp only [dots, Bool.and_eq_true, Bool.not_eq_true'] at free
      have dotted : "..." ++ String.ofList bare = name := by
        rw [← String.toList_inj, eq_append_of_after? dots]
        simp
      simp [Parameter.nameAt, free.2, dotted]

theorem eatParameterModifier_marked {name : String} {optional : Bool} {cs : List Char}
    (plain : isPlainName name.toList = true) (marked : Marked optional cs) :
    Sees ctx eatParameterModifier pos (name.toList ++ cs) false := by
  have lexes := lexes_name plain marked.lexes.1
  intro last comments
  refine eatParameterModifier_eq_false ?_
  rw [lexes.next_facing]
  exact marked.mem_nameEnds _ _ comments

private theorem plainParameter_takes {name : String} {t : TypeExpr} {optional : Bool} (names : ReadsNames k)
    (plain : isPlainName name.toList = true) (free : isReference name = true) (reads : Reads k t)
    (fits : Fits ctx pos (slotChars (.mk name t optional) ++ rest)) (follows : Follows stopTokens rest) :
    Takes ctx (plainParameter k) pos (slotChars (.mk name t optional)) rest
      { name := some name, type := t, isOptional := optional } := by
  obtain ⟨next, listed, ends⟩ := follows.shows
  have equals : next ≠ .symbol "=" := by
    rintro rfl
    simp [stopTokens] at listed
  obtain ⟨cs, shape, marked⟩ := slotChars_marked name t optional rest
  have unmodified : Sees ctx eatParameterModifier pos (slotChars (.mk name t optional) ++ rest) false := by
    rw [shape]
    exact eatParameterModifier_marked plain marked
  refine unmodified.bind_takes ?_
  cases optional with
  | false =>
    have text : slotChars (.mk name t false) = name.toList ++ ':' :: ' ' :: typeChars t := by simp [slotChars]
    have colon : Begins (':' :: ' ' :: typeChars t ++ rest) (.symbol ":") := begins_mark (by simp [marks]) _
    rw [text, List.append_assoc] at fits
    rw [text]
    refine (names true ctx pos name _ plain free (apart_mark (s := ":") (by simp [marks]) _)).bind ?_
    refine (colon.shows.not_eat (by simp)).bind_takes ((annotation?_takes reads fits.drop follows).bind_sees ?_)
    exact (ends.not_eat equals).bind (.pure _ _ _)
  | true =>
    have text : slotChars (.mk name t true) = name.toList ++ '?' :: ':' :: ' ' :: typeChars t := by simp [slotChars]
    rw [text, List.append_assoc] at fits
    rw [text]
    refine (names true ctx pos name _ plain free (apart_question _)).bind (Takes.bind_cons (lexes_question _).eat ?_)
    exact (annotation?_takes reads fits.drop.tail follows).bind_sees ((ends.not_eat equals).bind (.pure _ _ _))

private theorem restParameter_takes {name : String} {t : TypeExpr} (names : ReadsNames k)
    (plain : isPlainName name.toList = true) (free : isReference name = true) (reads : Reads k t)
    (fits : Fits ctx pos (slotChars (.mk name t false) ++ rest)) (follows : Follows stopTokens rest) :
    Takes ctx (restParameter k) pos (slotChars (.mk name t false)) rest
      { name := some name, type := t, isRest := true } := by
  obtain ⟨next, listed, ends⟩ := follows.shows
  have question : next ≠ .symbol "?" := by
    rintro rfl
    simp [stopTokens] at listed
  have text : slotChars (.mk name t false) = name.toList ++ ':' :: ' ' :: typeChars t := by simp [slotChars]
  have colon : Begins (':' :: ' ' :: typeChars t ++ rest) (.symbol ":") := begins_mark (by simp [marks]) _
  rw [text, List.append_assoc] at fits
  rw [text]
  refine (names true ctx pos name _ plain free (apart_mark (s := ":") (by simp [marks]) _)).bind ?_
  refine (colon.shows.not_eat (by simp)).bind_takes ((annotation?_takes reads fits.drop follows).bind_sees ?_)
  exact (ends.not_eat question).bind (.pure _ _ _)

/-- One parameter, behind its dots if it has any. -/
def parameter (plain rest : Parse Parameter) : Parse Parameter := do
  if ← Parse.eat "..." then rest else plain

/-- A parameter starts with its name or with dots. -/
private theorem parameter_begins {name : String} {t : TypeExpr} {optional : Bool} (param : ReadsParameter k name t optional)
    (cs : List Char) : ∃ token, token ≠ .symbol ")" ∧ Begins (slotChars (.mk name t optional) ++ cs) token := by
  have plain := param.plain
  rw [Render.isParameterName] at plain
  cases dots : after? "...".toList name.toList with
  | none =>
    rw [dots, Option.getD_none] at plain
    obtain ⟨more, shape, marked⟩ := slotChars_marked name t optional cs
    rw [shape]
    exact ⟨.word name, by simp, (lexes_name plain marked.lexes.1).begins⟩
  | some bare =>
    have shape : slotChars (.mk name t optional) ++ cs =
        ['.', '.', '.'] ++ (slotChars (.mk (String.ofList bare) t optional) ++ cs) := by
      simp [slotChars, eq_append_of_after? dots]
    rw [shape]
    exact ⟨.symbol "...", by simp, (lexes_dots _).begins⟩

private theorem parameter_takes {name : String} {t : TypeExpr} {optional : Bool} (names : ReadsNames k)
    (param : ReadsParameter k name t optional) (fits : Fits ctx pos (slotChars (.mk name t optional) ++ rest))
    (follows : Follows stopTokens rest) :
    Takes ctx (parameter (plainParameter k) (restParameter k)) pos (slotChars (.mk name t optional)) rest (parameterOf (.mk name t optional)) := by
  obtain ⟨plain, free, reads⟩ := param
  rw [Render.isParameterName] at plain
  rw [isFreeParameter] at free
  rw [parameterOf]
  cases dots : after? "...".toList name.toList with
  | none =>
    simp only [dots, Option.getD_none, String.ofList_toList] at plain free
    obtain ⟨cs, shape, marked⟩ := slotChars_marked name t optional rest
    have begins : Begins (slotChars (.mk name t optional) ++ rest) (.word name) := by
      rw [shape]
      exact (lexes_name plain marked.lexes.1).begins
    exact (begins.shows.not_eat (by simp)).bind_takes (plainParameter_takes names plain free reads fits follows)
  | some bare =>
    simp only [dots, Option.getD_some, Bool.and_eq_true, Bool.not_eq_true'] at plain free
    obtain ⟨free, rfl⟩ := free
    have text : slotChars (.mk name t false) = ['.', '.', '.'] ++ slotChars (.mk (String.ofList bare) t false) := by
      simp [slotChars, eq_append_of_after? dots]
    rw [text, List.append_assoc] at fits
    rw [text]
    have named : isPlainName (String.ofList bare).toList = true := by rwa [String.toList_ofList]
    exact (lexes_dots _).eat.bind (restParameter_takes names named free reads fits.drop follows)

/-- One round of the parameters of a function. -/
def parameterStep (plain rest : Parse Parameter) : Parse (Option Parameter) := do
  if ← Parse.isSymbol ")" then return none
  let p ← parameter plain rest
  if ← Parse.isSymbol ")" then return some p
  Parse.expect ","
  return some p

theorem parametersOf_eq (plain rest : Parse Parameter) : parametersOf plain rest =
    Parse.repeated (parameterStep plain rest) >>= fun ps => Parse.expect ")" >>= fun _ => pure ps := by
  have step : ∀ f : Parameter → Parse (Option Parameter),
      (Parse.eat "..." >>= fun b => if b then rest >>= f else plain >>= f) =
        (Parse.eat "..." >>= fun b => if b then rest else plain) >>= f := by
    intro f
    funext ctx c
    by_cases dots : (c.token == .symbol "...") = true <;> simp [Parse.eat, dots]
  rw [parametersOf]
  simp only [parameterStep, parameter, ← step]

/-- Parameters with names that the grammar takes for them, and with types that are read. -/
def ReadsParameters (k : Knot) (ss : List Slot) : Prop :=
  ∀ name t optional, Slot.mk name t optional ∈ ss → ReadsParameter k name t optional

theorem parameterStep_rounds {ss : List Slot} (names : ReadsNames k) (params : ReadsParameters k ss) (rest : List Char) :
    Rounds ctx (parameterStep (plainParameter k) (restParameter k)) slotChars (fun p s => p = parameterOf s) ',' (')' :: rest) ss where
  nonempty s _ := slotChars_ne_nil s
  begins := by
    rintro ⟨name, t, optional⟩ member
    have first := parameter_begins (params name t optional member)
    obtain ⟨token, -, begins⟩ := first (')' :: rest)
    refine ⟨⟨token, begins⟩, fun cs => ?_⟩
    obtain ⟨token, -, begins⟩ := first (',' :: cs)
    exact ⟨token, begins⟩
  last := by
    rintro ⟨name, t, optional⟩ member pos fits
    have closes : Shows (')' :: rest) (.symbol ")") := (begins_mark (by simp [marks]) rest).shows
    have follows : Follows stopTokens (')' :: rest) := follows_mark (s := ")") (by simp [stopMarks]) rest
    have taken := parameter_takes names (params name t optional member) fits follows
    obtain ⟨token, opens, begins⟩ := parameter_begins (params name t optional member) (')' :: rest)
    exact ⟨_, (begins.shows.not_isSymbol opens).bind_takes
      (taken.bind_sees (closes.isSymbol.bind (.pure _ _ _))), rfl⟩
  more := by
    rintro ⟨name, t, optional⟩ member pos cs fits
    have comma : Lexes [','] (.symbol ",") cs := lexes_mark (by simp [marks]) cs
    have taken := parameter_takes names (params name t optional member) fits (follows_comma cs)
    obtain ⟨token, opens, begins⟩ := parameter_begins (params name t optional member) (',' :: cs)
    rw [← List.singleton_append, ← List.append_assoc] at begins
    have unclosed : ∀ pos, Sees ctx (Parse.isSymbol ")") pos (',' :: cs) false := fun pos =>
      comma.shows.not_isSymbol (by simp)
    exact ⟨_, (begins.shows.not_isSymbol opens).bind_takes
      (taken.bind (Sees.bind_takes (unclosed _) (comma.expect.bind_sees (.pure _ _ _)))), rfl⟩
  ends pos := (begins_mark (by simp [marks]) rest).shows.isSymbol.bind (.pure _ _ _)

theorem signatureParameters_takes {ss : List Slot} (names : ReadsNames k) (params : ReadsParameters k ss)
    (fits : Fits ctx pos ([',', ' '].intercalate (ss.map slotChars) ++ ')' :: rest)) :
    ∃ ps, Takes ctx (signatureParameters k) pos ([',', ' '].intercalate (ss.map slotChars) ++ [')']) rest ps ∧
      slotsOf 0 ps = ss := by
  refine ⟨ss.map parameterOf, ?_, slotsOf_map (fun name t optional member => (params name t optional member).free) 0⟩
  have listed : Takes ctx (parameters k) pos ([',', ' '].intercalate (ss.map slotChars) ++ [')']) rest (ss.map parameterOf) := by
    rw [parameters, parametersOf_eq]
    refine (parameterStep_rounds names params rest).closed (s := ")") (by simp [marks]) fits fun ps given _ _ _ => ?_
    rw [← List.forall₂_map_right_iff, List.forall₂_eq_eq_eq] at given
    rw [given]
    rfl
  have given : ((ss.map parameterOf).any fun p => p.hasDefault) = false := by
    simp only [List.any_map, List.any_eq_false, Function.comp_apply]
    rintro ⟨name, t, optional⟩ -
    rw [parameterOf]
    split <;> simp
  refine listed.bind_sees ?_
  rw [given]
  exact .pure _ _ _

/-! ### Functions -/

/-- What starts as a type does is no statement about a parameter. -/
private theorem resultType_type {c : Cursor} {mark : String} (marked : c.token = .symbol mark)
    (plain : ∀ w, c.next.token = .word w → w ≠ "asserts" ∧ c.next.next.token ≠ .word "is") :
    resultType k mark ctx c = k.type ctx c.next := by
  cases first : c.next.token with
  | word w =>
    obtain ⟨asserts, states⟩ := plain w first
    simp [resultType, Parse.expect, Parse.position, Parse.cursor, marked, first, asserts, states]
  | _ => simp [resultType, Parse.expect, Parse.position, Parse.cursor, marked, first]

private theorem startsAs_plain {cs : List Char} (starts : StartsAs stopTokens cs) (last pos : Nat) (comments : List Comment) :
    ∀ w, (Cursor.facing last pos comments cs).token = .word w →
      w ≠ "asserts" ∧ (Cursor.facing last pos comments cs).next.token ≠ .word "is" := by
  intro w word
  rcases starts with ⟨v, after, rfl, plain, known, follows⟩ | ⟨front, token, after, rfl, lexes, first, wordless⟩
  · have lexes := lexes_name plain follows.apart
    rw [lexes.token_facing, Token.word.injEq] at word
    subst word
    obtain ⟨next, listed, ends⟩ := follows.shows
    rw [lexes.next_facing, (ends _ _ _).1]
    refine ⟨isTypeWord.ne known (by decide), ?_⟩
    rintro rfl
    simp [operatorTokens, stopTokens] at listed
  · rw [lexes.token_facing] at word
    exact absurd word (wordless w)

/-- A result is read behind its mark. -/
theorem resultType_behind {t : TypeExpr} {front : List Char} {mark : String} (readable : Readable t) (reads : Reads k t)
    (marked : Lexes front (.symbol mark) (' ' :: (typeChars t ++ rest)))
    (fits : Fits ctx pos (front ++ ' ' :: (typeChars t ++ rest))) (follows : Follows stopTokens rest) :
    Takes ctx (resultType k mark) pos (front ++ ' ' :: typeChars t) rest
      ⟨t, pos + byteLength front + 1, pos + byteLength front + 1 + byteLength (typeChars t)⟩ := by
  have starts := startsAs_typeChars readable follows
  have type := (reads ctx _ rest fits.drop.blank follows).blank
  have advanced : Takes ctx Parse.advance pos front (' ' :: (typeChars t ++ rest)) () := marked.advance
  have taken : Takes ctx (Parse.advance >>= fun _ => k.type) pos (front ++ ' ' :: typeChars t) rest
      ⟨t, pos + byteLength front + 1, pos + byteLength front + 1 + byteLength (typeChars t)⟩ := advanced.bind type
  intro last comments
  rw [← taken last comments, List.append_assoc, List.cons_append]
  refine (resultType_type (marked.token_facing last pos comments) ?_).trans ?_
  · rw [marked.next_facing, Cursor.facing_blank]
    exact startsAs_plain starts _ _ comments
  · rfl

theorem resultType_takes {t : TypeExpr} (readable : Readable t) (reads : Reads k t)
    (fits : Fits ctx pos (' ' :: (['=', '>'] ++ ' ' :: (typeChars t ++ rest)))) (follows : Follows stopTokens rest) :
    ∃ span, Takes ctx (resultType k "=>") pos (' ' :: (['=', '>'] ++ ' ' :: typeChars t)) rest span ∧ span.type = t :=
  ⟨_, (resultType_behind readable reads (lexes_arrow _) fits.blank follows).blank, rfl⟩

/-- The parts of a function are read. -/
structure ReadsFunction (k : Knot) (gs : List Generic) (ps : List Slot) (r : TypeExpr) : Prop where
  names : ReadsNames k
  generics : ReadsGenerics k gs
  params : ReadsParameters k ps
  readable : Readable r
  reads : Reads k r

/-- The text of a function behind its generic parameters. -/
private def signatureChars (ps : List Slot) (r : TypeExpr) : List Char :=
  '(' :: (([',', ' '].intercalate (ps.map slotChars) ++ [')']) ++ ' ' :: (['=', '>'] ++ ' ' :: typeChars r))

private theorem functionChars (gs : List Generic) (ps : List Slot) (r : TypeExpr) :
    typeChars (.function gs ps r) = genericsChars gs ++ signatureChars ps r := by
  rw [Render.typeChars_function, genericsChars, signatureChars]
  simp

/-- A function behind its generic parameters. -/
private def signatureType (k : Knot) (lo : Nat) (generics : List TypeParameter) : Parse TypeSpan := do
  Parse.expect "("
  let ps ← signatureParameters k
  let returns ← resultType k "=>"
  spanning lo (.function (genericsOf generics) (slotsOf 0 ps) returns.type)

private theorem signatureType_takes {lo : Nat} {generics : List TypeParameter} {gs : List Generic} {ps : List Slot}
    {r : TypeExpr} (parts : ReadsFunction k gs ps r) (given : genericsOf generics = gs)
    (fits : Fits ctx pos (signatureChars ps r ++ rest)) (follows : Follows stopTokens rest) :
    Takes ctx (signatureType k lo generics) pos (signatureChars ps r) rest
      ⟨.function gs ps r, lo, pos + byteLength (signatureChars ps r)⟩ := by
  have opening : ∀ cs, Lexes ['('] (.symbol "(") cs := lexes_mark (by simp [marks])
  rw [signatureChars] at fits ⊢
  rw [List.cons_append, List.append_assoc] at fits
  have inside := fits.tail
  rw [List.append_assoc] at inside
  obtain ⟨params, listed, slots⟩ : ∃ params, Takes ctx (signatureParameters k) (pos + byteLength ['('])
      ([',', ' '].intercalate (ps.map slotChars) ++ [')']) ((' ' :: (['=', '>'] ++ ' ' :: typeChars r)) ++ rest) params ∧
      slotsOf 0 params = ps := signatureParameters_takes parts.names parts.params inside
  obtain ⟨span, returns, same⟩ := resultType_takes parts.readable parts.reads fits.tail.drop follows
  refine Takes.bind_cons (opening _).expect (listed.bind (returns.bind_stay fun comments => ?_))
  rw [slots, same, given, Nat.add_assoc, Nat.add_assoc, ← Text.byteLength_append, ← Text.byteLength_append]
  rfl

theorem functionType_takes {gs : List Generic} {ps : List Slot} {r : TypeExpr} (parts : ReadsFunction k gs ps r)
    (fits : Fits ctx pos (typeChars (.function gs ps r) ++ rest)) (follows : Follows stopTokens rest) :
    Takes ctx (functionType k) pos (typeChars (.function gs ps r)) rest
      ⟨.function gs ps r, pos, pos + byteLength (typeChars (.function gs ps r))⟩ := by
  have opening : ∀ cs, Lexes ['('] (.symbol "(") cs := lexes_mark (by simp [marks])
  rw [functionChars] at fits ⊢
  have start : ∃ token, Begins (genericsChars gs ++ signatureChars ps r ++ rest) (.symbol token) := by
    rw [genericsChars]
    split
    · exact ⟨"(", begins_mark (by simp [marks]) _⟩
    · exact ⟨"<", begins_mark (by simp [marks]) _⟩
  obtain ⟨token, begins⟩ := start
  refine begins.sees_position.bind_takes ((begins.shows.not_eatWord (by simp)).bind_takes
    ((begins.shows.not_eatWord (by simp)).bind_takes ?_))
  rw [genericsChars] at begins fits ⊢
  by_cases plain : gs = []
  · rw [if_pos plain, List.nil_append] at begins fits ⊢
    have parenthesis : Shows (signatureChars ps r ++ rest) (.symbol "(") := (opening _).shows
    refine (typeParameters_none parenthesis (by simp)).bind_takes (signatureType_takes parts ?_ fits follows)
    rw [plain]
    rfl
  · rw [if_neg plain] at begins fits ⊢
    rw [List.append_assoc] at fits
    obtain ⟨generics, listed, given⟩ := typeParameters_takes parts.generics fits
    rw [Text.byteLength_append, ← Nat.add_assoc]
    exact listed.bind (signatureType_takes parts given fits.drop follows)

end Grammar

end DocLocale.Source
