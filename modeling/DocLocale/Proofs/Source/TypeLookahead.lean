import DocLocale.Proofs.Source.TypeFunctions
import DocLocale.Proofs.Source.TypePatterns
import Mathlib.Tactic.Common

/-!
The lookahead that tells functions from types in parentheses. Where a parenthesis opens, the grammar looks for a first
parameter, and a tuple or an object in its place may be read as a pattern. Neither a name nor such a pattern is
followed by what follows a parameter.
-/

set_option autoImplicit false
set_option relaxedAutoImplicit false

namespace DocLocale.Source

open Text (byteLength)
open Render (isPlainName typeChars slotChars)

namespace Grammar

variable {ctx : Context} {k : Knot} {pos : Nat} {rest : List Char}

/-! ### Parentheses -/

/-- What is looked for behind a parenthesis: the start of parameters. -/
private def parametersStart (k : Knot) : Parse Unit := do
  if ← Parse.isOneOf [")", "..."] then return ()
  let _ ← eatParameterModifier
  if (← Parse.isReferenceWord) || (← Parse.isWord "this") then Parse.advance
  else if ← Parse.isOneOf ["[", openBrace] then
    let _ ← k.target true
  else Parse.fail
  if ← Parse.isOneOf [":", ",", "?", "="] then return ()
  Parse.expect ")"
  Parse.expect "=>"

private theorem startsFunction_eq (k : Knot) : startsFunction k = (do
    if ← Parse.isSymbol "<" then return true
    if !(← Parse.isSymbol "(") then return false
    Parse.wouldParse (Parse.advance >>= fun _ => parametersStart k)) := rfl

/-- What is looked for behind the first parameter. -/
private def parameterEnd : Parse Unit := do
  if ← Parse.isOneOf [":", ",", "?", "="] then return ()
  Parse.expect ")"
  Parse.expect "=>"

private theorem parameterEnd_operators : FailsAtOperators ctx parameterEnd := by
  intro c operator
  simp only [operatorTokens, List.mem_cons, List.not_mem_nil, or_false] at operator
  rcases operator with bar | bracket | angle <;>
    exact ⟨c, by simp [parameterEnd, Parse.isOneOf, Parse.expect, *]⟩

private theorem parametersStart_wordless {cs : List Char} {token : Token} (shown : Shows cs token)
    (wordless : ∀ w, token ≠ .word w) (opens : ∀ s ∈ [")", "..."], token ≠ .symbol s)
    (later : Fails ctx (Parse.isOneOf ["[", openBrace] >>= fun pattern =>
      if pattern then k.target true >>= fun _ => parameterEnd else Parse.fail >>= fun _ : Unit => parameterEnd) pos cs) :
    Fails ctx (parametersStart k) pos cs :=
  (shown.not_isOneOf opens).bind_fails ((eatParameterModifier_sees shown fun w _ => wordless w).bind_fails
    ((shown.not_isReferenceWord wordless).bind_fails ((shown.not_isWord (wordless "this")).bind_fails later)))

private theorem parametersStart_other {cs : List Char} {token : Token} (shown : Shows cs token)
    (wordless : ∀ w, token ≠ .word w) (other : ∀ s ∈ [")", "...", "[", openBrace], token ≠ .symbol s) :
    Fails ctx (parametersStart k) pos cs :=
  parametersStart_wordless shown wordless (fun s listed => other s (List.mem_append_left ["[", openBrace] listed))
    ((shown.not_isOneOf fun s listed => other s (List.mem_append_right [")", "..."] listed)).bind_fails
      (Fails.fail _ _).bind)

private theorem parametersStart_pattern {s : String} {front : List Char} {token : Token} (bracket : s ∈ ["[", openBrace])
    (shown : Shows (front ++ rest) (.symbol s)) (strays : Strays ctx (k.target true) pos front rest)
    (ends : Shows rest token) (operator : token ∈ operatorTokens) :
    Fails ctx (parametersStart k) pos (front ++ rest) := by
  have pattern : Fails ctx (k.target true >>= fun _ => parameterEnd) pos (front ++ rest) :=
    strays.bind_fails (fun _ => parameterEnd_operators) fun _ _ => parameterEnd_operators.fails ends operator
  refine parametersStart_wordless shown (by simp) ?_ ((shown.isOneOf _).bind_fails ?_)
  · rintro x listed same
    injection same with same
    subst same
    revert bracket listed
    simp only [openBrace, List.mem_cons, List.not_mem_nil, or_false]
    rintro (rfl | rfl) (same | same) <;> simp at same
  · rw [List.contains_iff_mem.mpr bracket]
    exact pattern

/-- A type in parentheses does not start as parameters do. -/
private theorem parametersStart_opens {cs : List Char} (patterns : PatternsStray k) (opens : Opens [] cs)
    (fits : Fits ctx pos cs) : Fails ctx (parametersStart k) pos cs := by
  cases opens with
  | @word w after plain known follows =>
    have lexes := lexes_name plain follows.apart
    obtain ⟨token, listed, shown⟩ := follows.shows
    rw [List.append_nil] at listed
    have plainly : Token.word w ≠ .word "this" := by simpa using isTypeWord.ne known (x := "this") (by decide)
    refine (lexes.shows.not_isOneOf (by simp)).bind_fails
      ((eatParameterModifier_sees lexes.shows (not_modifier known)).bind_fails
        (lexes.shows.isReferenceWord.bind_fails ((lexes.shows.not_isWord plainly).bind_fails ?_)))
    cases isReference w with
    | true => exact lexes.advance.bind_fails (parameterEnd_operators.fails shown listed)
    | false => exact (lexes.shows.not_isOneOf (by simp)).bind_fails (Fails.fail _ _).bind
  | @literal front after token lexes kind =>
    refine parametersStart_other lexes.shows ?_ ?_
    all_goals rcases kind with rfl | ⟨v, rfl⟩ <;> simp
  | tuple readable follows =>
    obtain ⟨token, listed, shown⟩ := follows.shows
    rw [List.append_nil] at listed
    have strays := patterns ctx pos _ _ readable fits (follows.mono fun _ here => by simp_all)
    refine parametersStart_pattern (s := "[") (by simp) ?_ strays shown listed
    rw [Render.typeChars_tuple]
    exact (begins_mark (by simp [marks]) _).shows
  | object readable follows =>
    obtain ⟨token, listed, shown⟩ := follows.shows
    rw [List.append_nil] at listed
    have strays := patterns ctx pos _ _ readable fits (follows.mono fun _ here => by simp_all)
    refine parametersStart_pattern (s := openBrace) (by simp) ?_ strays shown listed
    rw [Render.typeChars_object]
    split
    · exact (begins_mark (by simp [marks, openBrace]) _).shows
    · exact (begins_mark (by simp [marks, openBrace]) _).shows
  | group readable compound after =>
    exact parametersStart_other (begins_mark (s := "(") (by simp [marks]) _).shows (by simp) (by simp [openBrace])

private theorem parametersStart_compound {t : TypeExpr} (patterns : PatternsStray k) (readable : Readable t)
    (compound : Render.isCompound t = true) (fits : Fits ctx pos (typeChars t ++ rest)) :
    Fails ctx (parametersStart k) pos (typeChars t ++ rest) := by
  cases t with
  | union ms => exact parametersStart_opens patterns (opens_union readable rest) fits
  | function gs ps r =>
    rw [Render.typeChars_function]
    split
    · exact parametersStart_other (begins_mark (s := "(") (by simp [marks]) _).shows (by simp) (by simp [openBrace])
    · exact parametersStart_other (begins_mark (s := "<") (by simp [marks]) _).shows (by simp) (by simp [openBrace])
  | _ => simp [Render.isCompound] at compound

private theorem startsFunction_other {cs : List Char} {token : Token} (shown : Shows cs token) (angle : token ≠ .symbol "<")
    (parenthesis : token ≠ .symbol "(") : Sees ctx (startsFunction k) pos cs false :=
  (shown.not_isSymbol angle).bind ((shown.not_isSymbol parenthesis).bind (.pure false _ _))

/-- What starts as no function does is not taken for one. -/
theorem startsFunction_opens {tokens : List Token} {cs : List Char} (patterns : PatternsStray k) (opens : Opens tokens cs)
    (fits : Fits ctx pos cs) : Sees ctx (startsFunction k) pos cs false := by
  cases opens with
  | word plain known follows => exact startsFunction_other (lexes_name plain follows.apart).shows (by simp) (by simp)
  | literal lexes kind =>
    refine startsFunction_other lexes.shows ?_ ?_
    all_goals rcases kind with rfl | ⟨v, rfl⟩ <;> simp
  | tuple readable follows =>
    rw [Render.typeChars_tuple]
    exact startsFunction_other (begins_mark (s := "[") (by simp [marks]) _).shows (by simp) (by simp)
  | object readable follows =>
    rw [Render.typeChars_object]
    split
    all_goals exact startsFunction_other (begins_mark (s := "\x7b") (by simp [marks]) _).shows (by simp) (by simp)
  | @group t readable compound after =>
    have opening : Lexes ['('] (.symbol "(") (typeChars t ++ ')' :: after) := lexes_mark (by simp [marks]) _
    have inside := parametersStart_compound patterns readable compound fits.tail
    rw [startsFunction_eq]
    refine Sees.bind (opening.shows.not_isSymbol (by simp)) (Sees.bind opening.shows.isSymbol ?_)
    exact Fails.wouldParse (opening.advance.bind_fails inside)

/-- A first parameter is known by its dots, or by the mark behind its name. -/
private theorem parametersStart_parameter {name : String} {t : TypeExpr} {optional : Bool}
    (param : ReadsParameter k name t optional) (ctx : Context) (cs : List Char) :
    ∃ front more, slotChars (.mk name t optional) ++ cs = front ++ more ∧
      ∀ pos, Goes ctx (parametersStart k) pos front more () := by
  have plain := param.plain
  have free := param.free
  rw [Render.isParameterName] at plain
  rw [isFreeParameter] at free
  cases dots : after? "...".toList name.toList with
  | some bare =>
    have dotted : slotChars (.mk name t optional) ++ cs =
        ['.', '.', '.'] ++ (slotChars (.mk (String.ofList bare) t optional) ++ cs) := by
      simp [slotChars, eq_append_of_after? dots]
    refine ⟨[], _, dotted, fun pos => Sees.goes ?_⟩
    exact ((lexes_dots _).shows.isOneOf _).bind (.pure () _ _)
  | none =>
    simp only [dots, Option.getD_none, String.ofList_toList] at plain free
    obtain ⟨more, shape, marked⟩ := slotChars_marked name t optional cs
    obtain ⟨apart, token, kind, begins⟩ := marked.lexes
    have lexes := lexes_name plain apart
    have ends : ∀ pos, Sees ctx parameterEnd pos more () := by
      intro pos
      rcases kind with rfl | rfl
      all_goals exact (begins.shows.isOneOf _).bind (.pure () _ _)
    refine ⟨name.toList, more, shape, fun pos => Takes.goes ?_⟩
    have named : Sees ctx (Parse.isWord "this") pos (name.toList ++ more) (Token.word name == .word "this") :=
      fun last comments => by rw [Parse.isWord, lexes.token_facing]
    refine (lexes.shows.not_isOneOf (by simp)).bind_takes ((eatParameterModifier_marked plain marked).bind_takes
      (lexes.shows.isReferenceWord.bind_takes (named.bind_takes ?_)))
    rw [free]
    exact lexes.advance.bind_sees (ends _)

/-- A function is taken for one by its generic parameters or by what follows its parenthesis. -/
theorem startsFunction_function {gs : List Generic} {ps : List Slot} {r : TypeExpr} (params : ReadsParameters k ps) :
    Sees ctx (startsFunction k) pos (typeChars (.function gs ps r) ++ rest) true := by
  rw [Render.typeChars_function]
  split
  · have opening : ∀ cs, Lexes ['('] (.symbol "(") cs := lexes_mark (by simp [marks])
    obtain ⟨front, more, shape, starts⟩ : ∃ front more, [',', ' '].intercalate (ps.map slotChars) ++
        (") => ".toList ++ typeChars r) ++ rest = front ++ more ∧ ∀ pos, Goes ctx (parametersStart k) pos front more () := by
      cases ps with
      | nil =>
        have closing : ∀ cs, Shows (')' :: cs) (.symbol ")") := fun cs => (begins_mark (by simp [marks]) cs).shows
        exact ⟨[], _, rfl, fun pos => (((closing _).isOneOf _).bind (.pure () _ _)).goes⟩
      | cons s ps =>
        obtain ⟨name, t, optional⟩ := s
        have first := parametersStart_parameter (params name t optional (by simp)) ctx
        cases ps with
        | nil => simpa using first _
        | cons s ps =>
          rw [List.map_cons, List.map_cons, List.intercalate_cons_cons, List.append_assoc, List.append_assoc,
            List.append_assoc]
          exact first _
    rw [startsFunction_eq, List.nil_append, List.cons_append, shape]
    refine Sees.bind ((opening _).shows.not_isSymbol (by simp)) (Sees.bind (opening _).shows.isSymbol ?_)
    exact ((opening _).advance.bind_goes (starts _)).wouldParse
  · have angle : ∀ cs, Shows ('<' :: cs) (.symbol "<") := fun cs => (begins_mark (by simp [marks]) cs).shows
    exact (angle _).isSymbol.bind (.pure true _ _)

end Grammar

end DocLocale.Source
