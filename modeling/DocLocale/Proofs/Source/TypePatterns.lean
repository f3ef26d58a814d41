import DocLocale.Proofs.Source.Straying
import DocLocale.Proofs.Source.TypeObjects
import DocLocale.Source.Grammar.Modules
import Mathlib.Tactic.Common

/-!
Types in place of patterns. A pattern that is read where a type stands ends where the type does or at an operator
inside it.
-/

set_option autoImplicit false
set_option relaxedAutoImplicit false

namespace DocLocale.Source

open Text (byteLength)
open Render (isPlainName typeChars slotChars)

namespace Grammar

variable {ctx : Context} {k : Knot} {pos : Nat} {rest : List Char}

/-- Where a pattern is looked for in front of a type, what is read ends where the type does or at an operator. -/
def PatternsStray (k : Knot) : Prop :=
  ∀ ctx pos t rest, Readable t → Fits ctx pos (typeChars t ++ rest) → Follows (operatorTokens ++ stopTokens) rest →
    Strays ctx (k.target true) pos (typeChars t) rest

/-! ### Names -/

theorem target_name {name : String} (plain : isPlainName name.toList = true) (apart : Apart rest) :
    Fails ctx (target k true) pos (name.toList ++ rest) ∨
      ∃ a, Takes ctx (target k true) pos name.toList rest a := by
  have lexes := lexes_name plain apart
  by_cases bound : ((keywords.contains name && !Parse.bindingKeywords.contains name) || literalWords.contains name) = true
  · left
    refine lexes.shows.sees_token.bind_fails (Fails.bind fun last comments => ⟨.facing last pos comments (name.toList ++ rest), ?_⟩)
    rw [Parse.bindingName, lexes.token_facing]
    simp only [bound, Bool.true_or, if_true]
  · right
    refine ⟨.name name, lexes.shows.sees_token.bind_takes (Takes.bind_sees (a := name) (fun last comments => ?_) (.pure _ _ _))⟩
    rw [Parse.bindingName, lexes.token_facing]
    simp only [bound, Bool.not_true, Bool.and_false, Bool.or_false, lexes.next_facing]
    rfl

/-! ### Lists -/

private theorem bindingElement_strays {front : List Char} {token : Token} (strays : Strays ctx (k.target true) pos front rest)
    (shown : Shows rest token) (other : token ≠ .symbol "=") : Strays ctx (bindingElement k) pos front rest := by
  rcases strays with fails | ⟨a, taken⟩ | stops
  · exact .inl fails.bind
  · exact .inr (.inl ⟨(), taken.bind_sees ((shown.not_eat other).bind (.pure () _ _))⟩)
  · refine .inr (.inr (stops.bind_stay (b := ()) fun a c operator => ?_))
    have unequal : (c.token == .symbol "=") = false := by
      simp only [operatorTokens, List.mem_cons, List.not_mem_nil, or_false] at operator
      rcases operator with bar | bracket | angle <;> simp [*]
    simp [Parse.eat, unequal]

/-- What follows an element of a list pattern. -/
private def elementEnd : Parse (Option Unit) := do
  if ← Parse.isSymbol "]" then return some ()
  Parse.expect ","
  return some ()

/-- One round of a list pattern. -/
private def elementStep (k : Knot) : Parse (Option Unit) := do
  if ← Parse.isSymbol "]" then return none
  if (← Parse.token) == .eof then return none
  if ← Parse.eat "," then return some ()
  if ← Parse.eat "..." then
    let _ ← k.target true
  else bindingElement k
  if ← Parse.isSymbol "]" then return some ()
  Parse.expect ","
  return some ()

private theorem listPattern_eq (k : Knot) : listPattern k =
    Parse.repeated (elementStep k) >>= fun _ => Parse.expect "]" >>= fun _ => Parse.eat "?" >>= fun marked =>
      pure (.pattern marked) := rfl

private theorem elementStep_first {c : Cursor} (first : isFirst c.token = true) :
    elementStep k ctx c = (bindingElement k >>= fun _ => elementEnd) ctx c := by
  have other : ∀ token ∈ [Token.symbol "]", .symbol ",", .symbol "...", .eof], c.token ≠ token := by
    rintro token listed rfl
    have excluded : ∀ token ∈ [Token.symbol "]", .symbol ",", .symbol "...", .eof], isFirst token = false := by decide
    simp [excluded c.token listed] at first
  simp [elementStep, elementEnd, Parse.isSymbol, Parse.token, Parse.eat, other (.symbol "]") (by simp),
    other (.symbol ",") (by simp), other (.symbol "...") (by simp), other .eof (by simp)]

private theorem elementEnd_operators : FailsAtOperators ctx elementEnd := by
  intro c operator
  simp only [operatorTokens, List.mem_cons, List.not_mem_nil, or_false] at operator
  rcases operator with bar | bracket | angle <;>
    exact ⟨c, by simp [elementEnd, Parse.isSymbol, Parse.expect, *]⟩

private theorem elementStep_tries (ending : List Char) {t : TypeExpr} (readable : Readable t)
    (strays : Strays ctx (k.target true) pos (typeChars t) (ending ++ rest)) (follows : Follows stopTokens (ending ++ rest))
    (ends : ∀ pos, Goes ctx elementEnd pos ending rest (some ())) :
    Tries ctx (elementStep k) pos (typeChars t ++ ending) rest (some ()) := by
  obtain ⟨token, first, begins⟩ := (startsAs_typeChars readable follows).first
  obtain ⟨next, listed, shown⟩ := follows.shows
  have equals : next ≠ .symbol "=" := by
    rintro rfl
    simp [stopTokens] at listed
  have tries := (bindingElement_strays strays shown equals).bind_tries (f := fun _ => elementEnd)
    (fun _ => elementEnd_operators) (fun _ => ends)
  refine tries.congr fun last comments => ?_
  rw [List.append_assoc]
  exact elementStep_first (by rwa [(begins.shows last pos comments).1])

private theorem elementEnd_comma : Goes ctx elementEnd pos [','] rest (some ()) := by
  have comma : Lexes [','] (.symbol ",") rest := lexes_mark (by simp [marks]) rest
  have unclosed : Sees ctx (Parse.isSymbol "]") pos (',' :: rest) false := comma.shows.not_isSymbol (by simp)
  have taken : Takes ctx elementEnd pos [','] rest (some ()) :=
    Sees.bind_takes unclosed (comma.expect.bind_sees (.pure _ _ _))
  exact taken.goes

private theorem elementEnd_bracket : Goes ctx elementEnd pos [] (']' :: rest) (some ()) := by
  have bracket : Begins (']' :: rest) (.symbol "]") := begins_mark (by simp [marks]) rest
  have seen : Sees ctx elementEnd pos (']' :: rest) (some ()) := bracket.shows.isSymbol.bind (.pure _ _ _)
  exact seen.goes

/-- The elements of a tuple in place of a list pattern are all taken, or one of them fails. -/
private theorem elements_try (patterns : PatternsStray k) : ∀ {es : List TypeExpr} {pos : Nat}, es ≠ [] →
    (∀ t ∈ es, Readable t) → Fits ctx pos ([',', ' '].intercalate (es.map typeChars) ++ ']' :: rest) →
    (∃ as, Pieces ctx (elementStep k) (']' :: rest) pos ([',', ' '].intercalate (es.map typeChars)) as) ∨
      Breaks ctx (elementStep k) pos ([',', ' '].intercalate (es.map typeChars) ++ ']' :: rest)
  | [], _, nonempty, _, _ => absurd rfl nonempty
  | [t], pos, _, readable, fits => by
    rw [List.map_singleton, List.intercalate_singleton] at fits ⊢
    obtain ⟨c, cs, shape, -⟩ := Render.typeChars_cons (readable t (by simp)).plain
    have follows : Follows stopTokens (']' :: rest) := follows_mark (s := "]") (by simp [stopMarks]) rest
    have bracket : Shows (']' :: rest) (.symbol "]") := (begins_mark (by simp [marks]) rest).shows
    have strays := patterns ctx pos t _ (readable t (by simp)) fits (follows.mono fun _ => List.mem_append_right _)
    have tries := elementStep_tries [] (readable t (by simp)) strays follows fun _ => elementEnd_bracket
    rw [List.append_nil] at tries
    rcases tries with fails | taken
    · exact .inr (.here fails)
    · exact .inl ⟨_, .last (by simp [shape]) taken (bracket.isSymbol.bind (.pure _ _ _))⟩
  | t :: u :: es, pos, _, readable, fits => by
    have shape : [',', ' '].intercalate ((t :: u :: es).map typeChars) =
        (typeChars t ++ [',']) ++ ' ' :: [',', ' '].intercalate ((u :: es).map typeChars) := by
      simp [List.intercalate_cons_cons]
    rw [shape] at fits ⊢
    rw [List.append_assoc] at fits
    have follows := follows_comma (' ' :: ([',', ' '].intercalate ((u :: es).map typeChars) ++ ']' :: rest))
    have strays := patterns ctx pos t _ (readable t (by simp)) (by simpa using fits)
      (follows.mono fun _ => List.mem_append_right _)
    have tries := elementStep_tries [','] (readable t (by simp)) strays follows fun _ => elementEnd_comma
    have later := elements_try patterns (by simp) (fun v member => readable v (List.mem_cons_of_mem t member))
      fits.drop.blank
    rcases tries with fails | taken
    · exact .inr (.here (by rwa [List.append_assoc]))
    · rcases later with ⟨as, pieces⟩ | breaks
      · exact .inl ⟨_, .cons (by simp) taken pieces.blank⟩
      · exact .inr (by rw [List.append_assoc]; exact .later (by simp) taken breaks.blank)

private theorem listPattern_tuple (patterns : PatternsStray k) {es : List TypeExpr} (readable : ∀ t ∈ es, Readable t)
    {token : Token} (shown : Shows rest token) (other : token ≠ .symbol "?")
    (fits : Fits ctx pos ([',', ' '].intercalate (es.map typeChars) ++ ']' :: rest)) :
    Tries ctx (listPattern k) pos ([',', ' '].intercalate (es.map typeChars) ++ [']']) rest (.pattern false) := by
  have closing : Lexes [']'] (.symbol "]") rest := lexes_mark (by simp [marks]) rest
  have ends : ∀ pos, Takes ctx (Parse.expect "]" >>= fun _ => Parse.eat "?" >>= fun marked =>
      pure (Target.pattern marked)) pos [']'] rest (.pattern false) := fun pos =>
    closing.expect.bind_sees ((shown.not_eat other).bind (.pure _ _ _))
  rw [listPattern_eq]
  by_cases empty : es = []
  · subst empty
    have none : Sees ctx (elementStep k) pos (']' :: rest) none := closing.shows.isSymbol.bind (.pure _ _ _)
    exact .inr (none.repeated.bind_takes (ends pos))
  · have starts : StartsOff typeChars "]" es := startsOff_of_readable readable rfl
    obtain ⟨token, begins⟩ := (starts.begins (c := ']') (by simp [stopMarks]) rest).first empty
    have room := fits.room
    rw [Text.byteLength_append] at room
    rcases elements_try patterns empty readable fits with ⟨as, pieces⟩ | breaks
    · exact .inr ((pieces.repeated begins.near (by omega)).bind (ends _))
    · refine .inl ?_
      rw [List.append_assoc]
      exact (breaks.repeated begins.near fits).bind

/-- A tuple in place of a pattern is taken whole, or the pattern fails. -/
private theorem target_tuple (patterns : PatternsStray k) {es : List TypeExpr} (readable : ∀ t ∈ es, Readable t)
    {token : Token} (shown : Shows rest token) (other : token ≠ .symbol "?")
    (fits : Fits ctx pos (typeChars (.tuple es) ++ rest)) :
    Tries ctx (target k true) pos (typeChars (.tuple es)) rest (.pattern false) := by
  have opening : ∀ cs, Lexes ['['] (.symbol "[") cs := lexes_mark (by simp [marks])
  rw [Render.typeChars_tuple] at fits ⊢
  rw [List.cons_append, List.append_assoc] at fits
  rcases listPattern_tuple patterns readable shown other fits.tail with fails | taken
  · exact .inl ((opening _).shows.sees_token.bind_fails ((opening _).advance.bind_fails fails))
  · exact .inr (Sees.bind_takes (opening _).shows.sees_token (Takes.bind_cons (opening _).advance taken))

/-! ### Objects -/

/-- A property of an object pattern. -/
private def patternProperty (k : Knot) : Parse Unit := do
  if ← Parse.eat "..." then
    let _ ← k.target true
  else
    let name ← propertyName k
    if ← Parse.eat ":" then bindingElement k
    else
      match name.name with
      | .word w =>
        if (keywords.contains w && !Parse.bindingKeywords.contains w) || literalWords.contains w then Parse.fail
        if ← Parse.eat "=" then
          let _ ← freeAssignment k
      | _ => Parse.fail

private theorem objectPattern_eq (k : Knot) : objectPattern k =
    Parse.repeated (commaStep (Parse.isSymbol closeBrace) (patternProperty k)) >>= fun _ => Parse.expect closeBrace >>= fun _ =>
      Parse.eat "?" >>= fun marked => pure (.pattern marked) := rfl

private theorem propertyName_takes {name : String} (plain : isPlainName name.toList = true) (apart : Apart rest) :
    Takes ctx (propertyName k) pos name.toList rest ⟨.word name, pos, pos + byteLength name.toList⟩ := by
  have lexes := lexes_name plain apart
  exact lexes.begins.sees_position.bind_takes (lexes.shows.sees_token.bind_takes
    (lexes.advance.bind_stay fun comments => rfl))

/-- What follows a property of an object pattern. -/
private def propertyEnd : Parse (Option Unit) := do
  if ← Parse.eat "," then return some ()
  if ← Parse.isSymbol closeBrace then return some ()
  Parse.fail

private theorem propertyEnd_operators : FailsAtOperators ctx propertyEnd := by
  intro c operator
  simp only [operatorTokens, List.mem_cons, List.not_mem_nil, or_false] at operator
  rcases operator with bar | bracket | angle <;>
    exact ⟨c, by simp [propertyEnd, closeBrace, Parse.isSymbol, Parse.eat, Parse.fail, *]⟩

private theorem patternProperty_strays {name : String} {t : TypeExpr} (plain : isPlainName name.toList = true)
    (strays : ∀ pos, Fits ctx pos (typeChars t ++ rest) → Strays ctx (k.target true) pos (typeChars t) rest)
    (follows : Follows stopTokens rest) (fits : Fits ctx pos (slotChars (.mk name t false) ++ rest)) :
    Strays ctx (patternProperty k) pos (slotChars (.mk name t false)) rest := by
  have text : slotChars (.mk name t false) = name.toList ++ ':' :: ' ' :: typeChars t := by simp [slotChars]
  rw [text, List.append_assoc] at fits
  rw [text]
  have colon : ∀ cs, Lexes [':'] (.symbol ":") cs := lexes_mark (by simp [marks])
  have apart : ∀ cs, Apart (':' :: cs) := apart_mark (s := ":") (by simp [marks])
  obtain ⟨next, listed, shown⟩ := follows.shows
  have equals : next ≠ .symbol "=" := by
    rintro rfl
    simp [stopTokens] at listed
  have element := bindingElement_strays (strays _ fits.drop.tail.blank).blank shown equals
  have word : Begins (name.toList ++ ':' :: ' ' :: typeChars t ++ rest) (.word name) := by
    rw [List.append_assoc]
    exact (lexes_name plain (apart _)).begins
  refine (word.shows.not_eat (by simp)).bind_strays ((propertyName_takes plain (apart _)).bind_strays ?_)
  exact Takes.bind_strays (colon _).eat element

/-- What may be left out is no property of a pattern: its mark follows the name. -/
private theorem patternProperty_optional {name : String} {cs : List Char} (plain : isPlainName name.toList = true) :
    Tries ctx (patternProperty k) pos name.toList ('?' :: ':' :: cs) () := by
  have question : Shows ('?' :: ':' :: cs) (.symbol "?") := (lexes_question cs).shows
  have word : Begins (name.toList ++ '?' :: ':' :: cs) (.word name) := (lexes_name plain (apart_question _)).begins
  have named : Takes ctx (propertyName k) pos name.toList _ _ := propertyName_takes plain (apart_question (':' :: cs))
  by_cases bound : ((keywords.contains name && !Parse.bindingKeywords.contains name) || literalWords.contains name) = true
  · refine .inl ((word.shows.not_eat (by simp)).bind_fails (named.bind_fails ((question.not_eat (by simp)).bind_fails ?_)))
    simp only [bound, if_true]
    exact (Fails.fail _ _).bind
  · refine .inr ((word.shows.not_eat (by simp)).bind_takes (named.bind_sees ((question.not_eat (by simp)).bind ?_)))
    simp only [bound]
    exact (question.not_eat (by simp)).bind (.pure _ _ _)

private theorem slot_begins {name : String} (plain : isPlainName name.toList = true) (t : TypeExpr) (optional : Bool)
    (cs : List Char) : Sees ctx (Parse.isSymbol closeBrace) pos (slotChars (.mk name t optional) ++ cs) false :=
  (slotChars_begins plain t optional cs).shows.not_isSymbol (by simp)

private theorem slot_optional {name : String} {t : TypeExpr} (plain : isPlainName name.toList = true) (cs : List Char) :
    Fails ctx (commaStep (Parse.isSymbol closeBrace) (patternProperty k)) pos (slotChars (.mk name t true) ++ cs) := by
  have question : ∀ cs, Shows ('?' :: ':' :: cs) (.symbol "?") := fun cs => (lexes_question cs).shows
  have ends : ∀ pos cs, Fails ctx propertyEnd pos ('?' :: ':' :: cs) := fun pos cs =>
    ((question cs).not_eat (by simp)).bind_fails (((question cs).not_isSymbol (by simp [closeBrace])).bind_fails
      (.fail _ _))
  refine (slot_begins plain t true cs).bind_fails ?_
  have text : slotChars (.mk name t true) ++ cs = name.toList ++ '?' :: ':' :: (' ' :: typeChars t ++ cs) := by
    simp [slotChars]
  rw [text]
  rcases patternProperty_optional plain with fails | taken
  · exact fails.bind
  · exact taken.bind_fails (ends _ _)

/-- An object of one slot in place of a pattern. -/
private theorem slot_last {name : String} {t : TypeExpr} {optional : Bool} (plain : isPlainName name.toList = true)
    (readable : Readable t) (patterns : PatternsStray k)
    (fits : Fits ctx pos (slotChars (.mk name t optional) ++ ' ' :: '\x7d' :: rest)) :
    Tries ctx (commaStep (Parse.isSymbol closeBrace) (patternProperty k)) pos (slotChars (.mk name t optional)) (' ' :: '\x7d' :: rest)
      (some ()) := by
  have follows : Follows stopTokens (' ' :: '\x7d' :: rest) := .blank_mark (s := "\x7d") (by simp [stopMarks]) rest
  have brace : Shows (' ' :: '\x7d' :: rest) (.symbol closeBrace) :=
    (begins_mark (by simp [marks, closeBrace]) rest).shows.blank
  cases optional with
  | true => exact .inl (slot_optional plain _)
  | false =>
    have ends : ∀ pos, Sees ctx propertyEnd pos (' ' :: '\x7d' :: rest) (some ()) := fun pos =>
      (brace.not_eat (by simp [closeBrace])).bind (brace.isSymbol.bind (.pure _ _ _))
    have strays := patternProperty_strays (k := k) plain (fun pos fits => patterns ctx pos t _ readable fits
      (follows.mono fun _ => List.mem_append_right _)) follows fits
    have tries : Tries ctx (patternProperty k >>= fun _ => propertyEnd) pos (slotChars (.mk name t false) ++ [])
        (' ' :: '\x7d' :: rest) (some ()) := strays.bind_tries (fun _ => propertyEnd_operators) fun _ pos => (ends pos).goes
    rw [List.append_nil] at tries
    rcases tries with fails | taken
    · exact .inl ((slot_begins plain t false _).bind_fails fails)
    · exact .inr ((slot_begins plain t false _).bind_takes taken)

/-- Slots have semicolons between them, and a pattern has not. -/
private theorem slot_more {name : String} {t : TypeExpr} {optional : Bool} {cs : List Char}
    (plain : isPlainName name.toList = true) (readable : Readable t) (patterns : PatternsStray k)
    (fits : Fits ctx pos (slotChars (.mk name t optional) ++ ';' :: cs)) :
    Fails ctx (commaStep (Parse.isSymbol closeBrace) (patternProperty k)) pos (slotChars (.mk name t optional) ++ ';' :: cs) := by
  have follows : Follows stopTokens (';' :: cs) := follows_mark (s := ";") (by simp [stopMarks]) cs
  have semicolon : Shows (';' :: cs) (.symbol ";") := (begins_mark (by simp [marks]) cs).shows
  cases optional with
  | true => exact slot_optional plain _
  | false =>
    have ends : ∀ pos, Fails ctx propertyEnd pos (';' :: cs) := fun pos =>
      (semicolon.not_eat (by simp)).bind_fails ((semicolon.not_isSymbol (by simp [closeBrace])).bind_fails (.fail _ _))
    have strays := patternProperty_strays (k := k) plain (fun pos fits => patterns ctx pos t _ readable fits
      (follows.mono fun _ => List.mem_append_right _)) follows fits
    exact (slot_begins plain t false _).bind_fails
      (strays.bind_fails (f := fun _ => propertyEnd) (fun _ => propertyEnd_operators) fun _ => ends)

private theorem objectPattern_object (patterns : PatternsStray k) {ss : List Slot} (readable : Readable (.object ss))
    {token : Token} (shown : Shows rest token) (other : token ≠ .symbol "?") {body : List Char}
    (text : typeChars (.object ss) = '\x7b' :: body) (fits : Fits ctx pos (body ++ rest)) :
    Tries ctx (objectPattern k) pos body rest (.pattern false) := by
  have closing : Lexes ['\x7d'] (.symbol closeBrace) rest := lexes_mark (by simp [marks, closeBrace]) rest
  have ends : ∀ pos, Takes ctx (Parse.expect closeBrace >>= fun _ => Parse.eat "?" >>= fun marked =>
      pure (Target.pattern marked)) pos ['\x7d'] rest (.pattern false) := fun pos =>
    closing.expect.bind_sees ((shown.not_eat other).bind (.pure _ _ _))
  rw [objectPattern_eq]
  rw [Render.typeChars_object] at text
  obtain _ | ⟨⟨name, t, optional⟩, _ | ⟨s, ss⟩⟩ := ss
  · obtain rfl : body = ['\x7d'] := by simpa using text.symm
    have none : Sees ctx (commaStep (Parse.isSymbol closeBrace) (patternProperty k)) pos ('\x7d' :: rest) none :=
      closing.shows.isSymbol.bind (.pure _ _ _)
    exact .inr (none.repeated.bind_takes (ends pos))
  · obtain rfl : body = ' ' :: slotChars (.mk name t optional) ++ [' ', '\x7d'] := by simpa using text.symm
    obtain ⟨plain, type⟩ := readable.object (List.mem_singleton.mpr rfl)
    have near := (slotChars_begins plain t optional (' ' :: '\x7d' :: rest)).near_blank
    have brace : Shows (' ' :: '\x7d' :: rest) (.symbol closeBrace) := closing.shows.blank
    rw [List.append_assoc] at fits
    have room := fits.room
    rw [Text.byteLength_append] at room
    rcases slot_last plain type patterns fits.blank with fails | taken
    · refine .inl ?_
      rw [List.append_assoc]
      exact (Breaks.blank (.here fails)).repeated near fits |>.bind
    · have pieces := Pieces.last (slotChars_ne_nil _) taken (brace.isSymbol.bind (.pure none _ _))
      exact .inr ((pieces.blank.repeated near (by omega)).bind (ends _).blank)
  · obtain ⟨plain, type⟩ := readable.object List.mem_cons_self
    obtain ⟨cs, shape⟩ : ∃ cs, body ++ rest = ' ' :: (slotChars (.mk name t optional) ++ ';' :: cs) := by
      rw [if_neg (by simp), List.map_cons, List.map_cons, List.intercalate_cons_cons, List.cons.injEq] at text
      rw [← text.2]
      exact ⟨_, by simp; rfl⟩
    refine .inl ?_
    rw [shape] at fits ⊢
    have near := (slotChars_begins plain t optional (';' :: cs)).near_blank
    exact ((Breaks.here (slot_more plain type patterns fits.blank)).blank.repeated near fits).bind

/-- An object in place of a pattern is taken whole, or the pattern fails. -/
private theorem target_object (patterns : PatternsStray k) {ss : List Slot} (readable : Readable (.object ss))
    {token : Token} (shown : Shows rest token) (other : token ≠ .symbol "?")
    (fits : Fits ctx pos (typeChars (.object ss) ++ rest)) :
    Tries ctx (target k true) pos (typeChars (.object ss)) rest (.pattern false) := by
  have opening : ∀ cs, Lexes ['\x7b'] (.symbol openBrace) cs := lexes_mark (by simp [marks, openBrace])
  obtain ⟨body, text⟩ : ∃ body, typeChars (.object ss) = '\x7b' :: body := by
    rw [Render.typeChars_object]
    split
    · exact ⟨_, rfl⟩
    · exact ⟨_, rfl⟩
  rw [text] at fits ⊢
  rcases objectPattern_object patterns readable shown other text fits.tail with fails | taken
  · exact .inl ((opening _).shows.sees_token.bind_fails ((opening _).advance.bind_fails fails))
  · exact .inr (Sees.bind_takes (opening _).shows.sees_token (Takes.bind_cons (opening _).advance taken))

/-! ### Types -/

private theorem target_symbol {c : Char} {s : String} (mark : (c, s) ∈ marks) (bracket : s ≠ "[") (brace : s ≠ openBrace)
    (cs : List Char) : Fails ctx (target k true) pos (c :: cs) := by
  refine (begins_mark mark cs).shows.sees_token.bind_fails ?_
  have one : (s == "[") = false := by simpa using bracket
  have two : (s == openBrace) = false := by simpa using brace
  simp only [one, two]
  exact .fail _ _

/-- The first operand of an operator. -/
private theorem target_operand {t : TypeExpr} {wanted : Bool} {cs more : List Char} {token : Token}
    (strays : wanted = false → Strays ctx (target k true) pos (typeChars t) (more ++ rest))
    (shown : Shows (more ++ rest) token) (operator : token ∈ operatorTokens)
    (text : cs = Render.wrappedChars wanted t ++ more) : Strays ctx (target k true) pos cs rest := by
  rw [text, Strays, List.append_assoc]
  cases wanted with
  | true => exact .inl (target_symbol (s := "(") (by simp [marks]) (by simp) (by simp [openBrace]) _)
  | false =>
    rcases strays rfl with fails | ⟨a, taken⟩ | stops
    · exact .inl fails
    · refine .inr (.inr fun last comments => ⟨a, _, taken last comments, ?_⟩)
      rwa [(shown _ _ _).1]
    · exact .inr (.inr stops)

private theorem strays_of_tries {p : Parse Target} {front : List Char} {a : Target} (tries : Tries ctx p pos front rest a) :
    Strays ctx p pos front rest := by
  rcases tries with fails | taken
  · exact .inl fails
  · exact .inr (.inl ⟨a, taken⟩)

private theorem strays_name {name : String} (plain : isPlainName name.toList = true) (apart : Apart rest) :
    Strays ctx (target k true) pos name.toList rest := by
  rcases target_name plain apart with fails | taken
  · exact .inl fails
  · exact .inr (.inl taken)

/-- One level of the grammar keeps the property. The first operand of an operator is read before the operator, so the
induction is on the type at the same level. -/
private theorem target_strays (patterns : PatternsStray k) : ∀ (t : TypeExpr) (pos : Nat) (rest : List Char), Readable t →
    Fits ctx pos (typeChars t ++ rest) → Follows (operatorTokens ++ stopTokens) rest →
    Strays ctx (target k true) pos (typeChars t) rest
  | .basic b, pos, rest, _, _, follows => by
    rw [Render.typeChars_basic]
    exact strays_name (by cases b <;> decide) follows.apart
  | .literal text, pos, rest, readable, _, follows => by
    obtain ⟨plain, free⟩ := readable
    rw [Render.legible] at plain
    rw [unreserved] at free
    rw [Render.typeChars_literal]
    obtain ⟨token, lexes, kind⟩ := lexes_literal plain free follows.apart
    refine .inl (lexes.shows.sees_token.bind_fails ?_)
    have nameless : Fails ctx (Parse.bindingName true) pos (text.toList ++ rest) := by
      intro last comments
      rw [Parse.bindingName, lexes.token_facing]
      rcases kind with rfl | ⟨v, rfl⟩ <;> exact ⟨_, rfl⟩
    rcases kind with rfl | ⟨v, rfl⟩ <;> exact nameless.bind
  | .function gs ps r, pos, rest, _, _, _ => by
    rw [Render.typeChars_function]
    split
    · exact .inl (target_symbol (s := "(") (by simp [marks]) (by simp) (by simp [openBrace]) _)
    · exact .inl (target_symbol (s := "<") (by simp [marks]) (by simp) (by simp [openBrace]) _)
  | .union [], _, _, readable, _, _ => by simpa using readable.union.1
  | .union [_], _, _, readable, _, _ => by simpa using readable.union.1
  | .union (m :: m' :: ms), pos, rest, readable, fits, _ => by
    have text : typeChars (.union (m :: m' :: ms)) = Render.wrappedChars (Render.isFunction m) m ++ (" | ".toList ++
        " | ".toList.intercalate ((m' :: ms).map fun t => Render.wrappedChars (Render.isFunction t) t)) := by
      rw [Render.typeChars_union, List.map_cons, List.map_cons, List.intercalate_cons_cons, List.append_assoc]
    rw [text, List.append_assoc, List.append_assoc] at fits
    have listed : Token.symbol "|" ∈ operatorTokens := by simp [operatorTokens]
    refine target_operand (fun loose => ?_) (((lexes_bar _).shows.blank)) listed text
    rw [loose] at fits
    exact target_strays patterns m pos _ (readable.union.2 m (by simp)).2 fits (follows_bar (by simp [operatorTokens]) _)
  | .array e, pos, rest, readable, fits, _ => by
    have text := Render.typeChars_array e
    rw [text, List.append_assoc] at fits
    have listed : Token.symbol "[" ∈ operatorTokens := by simp [operatorTokens]
    refine target_operand (fun loose => ?_) (begins_mark (by simp [marks]) _).shows listed text
    rw [loose] at fits
    exact target_strays patterns e pos _ readable.array fits (follows_brackets (by simp [operatorTokens]) rest)
  | .tuple es, pos, rest, readable, fits, follows => by
    obtain ⟨token, listed, shown⟩ := follows.shows
    have other : token ≠ .symbol "?" := by
      rintro rfl
      simp [operatorTokens, stopTokens] at listed
    exact strays_of_tries (target_tuple patterns readable.tuple shown other fits)
  | .reference name args, pos, rest, readable, _, follows => by
    obtain ⟨plain, -⟩ := readable.reference
    rw [Render.typeChars_reference]
    by_cases bare : args = []
    · rw [if_pos bare, List.append_nil]
      exact strays_name plain follows.apart
    · have angle : ('<', "<") ∈ marks := by simp [marks]
      rw [if_neg bare, Strays, List.append_assoc]
      rcases target_name plain (apart_mark angle _) with fails | ⟨a, taken⟩
      · exact .inl fails
      · refine .inr (.inr fun last comments => ⟨a, _, taken last comments, ?_⟩)
        rw [((begins_mark angle _).shows _ _ _).1]
        simp [operatorTokens]
  | .object ss, pos, rest, readable, fits, follows => by
    obtain ⟨token, listed, shown⟩ := follows.shows
    have other : token ≠ .symbol "?" := by
      rintro rfl
      simp [operatorTokens, stopTokens] at listed
    exact strays_of_tries (target_object patterns readable shown other fits)

theorem patternsStray_knot : ∀ depth, PatternsStray (knot depth)
  | 0 => fun _ _ _ _ _ _ _ => .inl (.fail _ _)
  | depth + 1 => fun _ pos t rest readable fits follows =>
    target_strays (patternsStray_knot depth) t pos rest readable fits follows

end Grammar

end DocLocale.Source
