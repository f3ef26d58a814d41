import DocLocale.Proofs.Render.SharedTexts
import DocLocale.Proofs.Source.TypeLookahead
import DocLocale.Proofs.Source.TypeOperators
import DocLocale.Source.File
import Mathlib.Tactic.Common

/-!
Types read back. The grammar reads the text of a type as that type, up to the kinds of numbers and to unions directly
inside unions, which the text does not show.
-/

set_option autoImplicit false
set_option relaxedAutoImplicit false

namespace DocLocale.Source

open Text (byteLength)
open Render (typeChars slotChars genericChars wrappedChars isCompound)

namespace Grammar

variable {ctx : Context} {k : Knot} {pos : Nat} {rest : List Char}

/-! ## One level -/

private theorem readsFunction_below {gs : List Generic} {ps : List Slot} {r : TypeExpr} (names : ReadsNames k)
    (readable : Readable (.function gs ps r)) (below : ReadsBelow k (byteLength (typeChars (.function gs ps r)))) :
    ReadsFunction k gs ps r where
  names := names
  generics := by
    intro name constraint member
    obtain ⟨plain, free, bounds⟩ := readable.generic member
    refine ⟨plain, free, fun c bound => below c ?_ (bounds c bound)⟩
    obtain rfl : constraint = some c := bound
    have listed := byteLength_le_intercalate [',', ' '] (List.mem_map_of_mem (f := genericChars) member)
    have angle := '<'.utf8Size_pos
    rw [Render.typeChars_function, if_neg (List.ne_nil_of_mem member)]
    simp only [genericChars, Text.byteLength_append, byteLength] at listed ⊢
    omega
  params := by
    intro name t optional member
    obtain ⟨plain, free, type⟩ := readable.parameter member
    refine ⟨plain, free, below t ?_ type⟩
    have listed := byteLength_le_intercalate [',', ' '] (List.mem_map_of_mem (f := slotChars) member)
    have parenthesis := '('.utf8Size_pos
    rw [Render.typeChars_function]
    simp only [slotChars, Text.byteLength_append, byteLength] at listed ⊢
    omega
  readable := readable.returns
  reads := by
    refine below r ?_ readable.returns
    have parenthesis := '('.utf8Size_pos
    rw [Render.typeChars_function]
    simp only [Text.byteLength_append, byteLength]
    omega

theorem nonConditionalType_function {gs : List Generic} {ps : List Slot} {r : TypeExpr} (depth : Nat)
    (parts : ReadsFunction k gs ps r) (fits : Fits ctx pos (typeChars (.function gs ps r) ++ rest))
    (follows : Follows stopTokens rest) :
    Takes ctx (nonConditionalType k (depth + 1)) pos (typeChars (.function gs ps r)) rest
      ⟨.function gs ps r, pos, pos + byteLength (typeChars (.function gs ps r))⟩ := by
  have function := functionType_takes parts fits follows
  intro last comments
  rw [← function last comments, nonConditionalType]
  simp only [Parse.run_bind, Parse.cursor, startsFunction_function parts.params last comments]
  rfl

theorem nonConditionalType_union {t : TypeExpr} {depth : Nat} (patterns : PatternsStray k)
    (readable : Readable t) (other : Render.isFunction t = false)
    (fits : Fits ctx pos (typeChars t ++ rest)) (follows : Follows stopTokens rest)
    (taken : Takes ctx (unionType k (nonConditionalType k depth)) pos (typeChars t) rest
      ⟨t, pos, pos + byteLength (typeChars t)⟩) :
    Takes ctx (nonConditionalType k (depth + 1)) pos (typeChars t) rest ⟨t, pos, pos + byteLength (typeChars t)⟩ := by
  have opens := opens_typeChars t rest readable other (follows.mono fun _ => List.mem_append_right _)
  obtain ⟨token, begins, -, known⟩ := opens.startsAs.known
  have starts := startsFunction_opens patterns opens fits
  have constructs : ∀ w, isTypeWord w = false → token ≠ .word w := fun w reserved same =>
    isTypeWord.ne (known w same) reserved rfl
  intro last comments
  rw [← taken last comments, nonConditionalType]
  simp only [Parse.run_bind, Parse.cursor, starts last comments, (begins.shows last pos comments).1]
  have new := constructs "new" (by decide)
  have abstract := constructs "abstract" (by decide)
  simp [new, abstract]

theorem nonConditionalType_takes {t : TypeExpr} (depth : Nat) (names : ReadsNames k) (patterns : PatternsStray k)
    (readable : Readable t) (below : ReadsBelow k (byteLength (typeChars t))) (fits : Fits ctx pos (typeChars t ++ rest))
    (follows : Follows stopTokens rest) :
    Takes ctx (nonConditionalType k (depth + 1)) pos (typeChars t) rest ⟨t, pos, pos + byteLength (typeChars t)⟩ := by
  cases compound : isCompound t with
  | false =>
    have other : Render.isFunction t = false := by cases t <;> simp_all [isCompound, Render.isFunction]
    have text : wrappedChars (isCompound t) t = typeChars t := by rw [compound, wrappedChars, if_neg Bool.false_ne_true]
    have operand : ReadsBelow k (byteLength (wrappedChars (isCompound t) t)) →
        Fits ctx pos (wrappedChars (isCompound t) t ++ rest) →
        Takes ctx (unionType k (nonConditionalType k depth)) pos (wrappedChars (isCompound t) t) rest
          ⟨t, pos, pos + byteLength (wrappedChars (isCompound t) t)⟩ := fun below fits =>
      unionType_operand readable below fits follows
    rw [text] at operand
    exact nonConditionalType_union patterns readable other fits follows (operand below fits)
  | true =>
    cases t with
    | function gs ps r => exact nonConditionalType_function depth (readsFunction_below names readable below) fits follows
    | union ms =>
      exact nonConditionalType_union patterns readable rfl fits follows (unionType_union readable below fits follows)
    | _ => simp [isCompound] at compound

/-- One level of the grammar reads a type if the level below reads the types inside it. -/
theorem reads_level {t : TypeExpr} (names : ReadsNames k) (patterns : PatternsStray k) (readable : Readable t)
    (below : ReadsBelow k (byteLength (typeChars t))) : Reads (level k) t := by
  intro ctx pos rest fits follows last comments
  obtain ⟨token, first, begins⟩ := (startsAs_typeChars readable follows).first
  obtain ⟨next, listed, shown⟩ := follows.shows
  have ends : next ≠ .word "extends" := by
    rintro rfl
    simp [stopTokens] at listed
  have room := fits.room
  obtain ⟨depth, budget⟩ : ∃ depth, ctx.size + 2 - pos = depth + 1 := ⟨ctx.size + 1 - pos, by omega⟩
  have inside : Fits { ctx with inExtends := false } pos (typeChars t ++ rest) := ⟨fits.text, fits.room⟩
  have taken := nonConditionalType_takes depth names patterns readable below inside follows
  simp only [Knot.type, level, type, Parse.within, Parse.run_bind, Parse.budget, begins.lo_facing, budget,
    taken last comments, shown.not_isWord ends _ comments]
  simp [Parse.lineBreak]

/-! ## All levels -/

theorem readsNames_level (k : Knot) : ReadsNames (level k) := by
  intro letAllowed ctx pos name rest plain free apart
  have lexes := lexes_name plain apart
  have unbound : (keywords.contains name || literalWords.contains name) = false := by
    rw [isReference, Bool.not_eq_true', Bool.or_eq_false_iff] at free
    exact free.1
  have lets : (name == "let") = false := by
    rw [beq_eq_false_iff_ne]
    rintro rfl
    simp [keywords] at unbound
  rw [Bool.or_eq_false_iff] at unbound
  refine lexes.shows.sees_token.bind_takes (Takes.bind_sees (a := name) (fun last comments => ?_) (.pure _ _ _))
  rw [Parse.bindingName, lexes.token_facing]
  simp only [unbound.1, unbound.2, lets, Bool.or_false, Bool.false_and, lexes.next_facing]
  rfl

/-- The grammar reads a type from its text, if it goes as deep as the text is long. -/
theorem reads_knot : ∀ (depth : Nat) (t : TypeExpr), byteLength (typeChars t) < depth → Readable t → Reads (knot depth) t
  | 0, _, short, _ => absurd short (Nat.not_lt_zero _)
  | 1, t, short, readable => by
    obtain ⟨c, cs, shape, -⟩ := Render.typeChars_cons readable.plain
    have size := c.utf8Size_pos
    rw [shape, byteLength] at short
    omega
  | depth + 2, t, short, readable =>
    reads_level (readsNames_level (knot depth)) (patternsStray_knot (depth + 1)) readable fun u smaller inner =>
      reads_knot (depth + 1) u (by omega) inner

/-! ## Declarations -/

private theorem binding_takes {name : String} {t : TypeExpr} {letAllowed : Bool} (names : ReadsNames k)
    (plain : Render.isPlainName name.toList = true) (free : isReference name = true) (reads : Reads k t)
    (fits : Fits ctx pos (name.toList ++ ':' :: ' ' :: typeChars t ++ ';' :: rest)) :
    Takes ctx (binding k letAllowed) pos (name.toList ++ ':' :: ' ' :: typeChars t) (';' :: rest) (.named name t) := by
  have semicolon : Begins (';' :: rest) (.symbol ";") := begins_mark (by simp [marks]) rest
  have follows : Follows stopTokens (';' :: rest) := follows_mark (s := ";") (by simp [stopMarks]) rest
  have colon : ∀ cs, Begins (':' :: cs) (.symbol ":") := begins_mark (by simp [marks])
  have apart : ∀ cs, Apart (':' :: cs) := apart_mark (s := ":") (by simp [marks])
  rw [List.append_assoc] at fits
  have word := (lexes_name plain (apart (' ' :: typeChars t ++ ';' :: rest))).begins
  refine word.sees_position.bind_takes_append ((names letAllowed ctx pos name _ plain free (apart _)).bind ?_)
  refine ((colon _).shows.not_eat (by simp)).bind_takes ((annotation?_takes reads fits.drop follows).bind_sees ?_)
  exact (semicolon.shows.not_eat (by simp)).bind (.pure _ _ _)

private theorem bindings_takes {front : List Char} {b : Binding} {letAllowed : Bool} {token : Token}
    (taken : Takes ctx (binding k letAllowed) pos front (';' :: rest) b) (begins : Begins (front ++ ';' :: rest) token)
    (other : token ≠ .symbol ";") (room : pos ≤ ctx.size) :
    Takes ctx (bindings k letAllowed) pos front (';' :: rest) [b] := by
  have semicolon : Begins (';' :: rest) (.symbol ";") := begins_mark (by simp [marks]) rest
  have go : ∀ fuel, Takes ctx (bindings.go k letAllowed (fuel + 1)) pos front (';' :: rest) [b] := fun fuel =>
    (begins.shows.not_isSymbol other).bind_takes (taken.bind_sees ((semicolon.shows.not_eat (by simp)).bind (.pure _ _ _)))
  obtain ⟨fuel, budget⟩ : ∃ fuel, ctx.size + 2 - pos = fuel + 1 := ⟨ctx.size + 1 - pos, by omega⟩
  intro last comments
  simp only [bindings, Parse.run_bind, Parse.budget, begins.lo_facing, budget]
  exact go fuel last comments

theorem varEnd_semicolon : Takes ctx (varEnd k) pos [';'] rest () :=
  eatSemicolon_takes.bind_sees (.pure () _ _)

/-- The word in front of a constant. -/
def constantWord : List Char := "const".toList

private theorem lexes_constantWord (cs : List Char) : Lexes constantWord (.word "const") (' ' :: cs) :=
  lexes_name (by decide) (apart_blank cs)

/-- The text of a constant with its type. -/
def constantChars (name : String) (t : TypeExpr) : List Char :=
  constantWord ++ (' ' :: (name.toList ++ ':' :: ' ' :: typeChars t) ++ [';'])

private theorem varDeclaration_takes {name : String} {t : TypeExpr} {lo : Nat} (names : ReadsNames k)
    (plain : Render.isPlainName name.toList = true) (free : isReference name = true) (reads : Reads k t)
    (fits : Fits ctx pos (constantChars name t ++ rest)) :
    Takes ctx (varDeclaration k lo) pos (constantChars name t) rest (.vars lo true [.named name t]) := by
  have apart : ∀ cs, Apart (':' :: cs) := apart_mark (s := ":") (by simp [marks])
  rw [constantChars] at fits ⊢
  rw [List.append_assoc, List.append_assoc] at fits
  have inside := fits.drop.blank
  have word : Begins (name.toList ++ ':' :: ' ' :: typeChars t ++ ';' :: rest) (.word name) := by
    rw [List.append_assoc]
    exact (lexes_name plain (apart _)).begins
  have room := inside.room
  have bound : Takes ctx (binding k ("const" == "var")) _ _ (';' :: rest) _ := binding_takes names plain free reads inside
  have listed := bindings_takes bound word (by simp) (by omega)
  have constant : Item.vars lo true [.named name t] = .vars lo ("const" == "const") [.named name t] := by
    rw [beq_self_eq_true]
  rw [constant]
  have keyword : Takes ctx Parse.anyWord pos constantWord
      (' ' :: (name.toList ++ ':' :: ' ' :: typeChars t) ++ [';'] ++ rest) "const" := (lexes_constantWord _).anyWord
  have ended := listed.blank.bind (f := fun bs => varEnd k >>= fun _ => pure (Item.vars lo ("const" == "const") bs))
    (varEnd_semicolon.bind_sees (.pure _ _ _))
  exact keyword.bind ended

private theorem statement_constant {c : Cursor} (constant : c.token = .word "const") (other : c.next.token ≠ .word "enum") :
    statement k true ctx c = varDeclaration k c.lo ctx c := by
  have keyword : keywordStatement? k "const" ctx c = .ok none c := rfl
  simp [statement, plainStatement, Parse.cursor, constant, other, keyword]

private theorem statement_takes {name : String} {t : TypeExpr} (names : ReadsNames k)
    (plain : Render.isPlainName name.toList = true) (free : isReference name = true) (reads : Reads k t)
    (fits : Fits ctx pos (constantChars name t ++ rest)) :
    Takes ctx (statement k true) pos (constantChars name t) rest (.vars pos true [.named name t]) := by
  have taken : Takes ctx (varDeclaration k pos) pos (constantChars name t) rest _ :=
    varDeclaration_takes names plain free reads fits
  have shape : constantChars name t ++ rest =
      constantWord ++ ' ' :: (name.toList ++ ':' :: (' ' :: typeChars t ++ ';' :: rest)) := by
    rw [constantChars, List.append_assoc, List.append_assoc, List.cons_append, List.append_assoc]
    rfl
  have keyword := lexes_constantWord (name.toList ++ ':' :: (' ' :: typeChars t ++ ';' :: rest))
  have word : Lexes name.toList (.word name) (':' :: (' ' :: typeChars t ++ ';' :: rest)) :=
    lexes_name plain (apart_mark (s := ":") (by simp [marks]) _)
  have enumerates : name ≠ "enum" := by
    rintro rfl
    exact absurd free (by decide)
  intro last comments
  rw [← taken last comments, shape, statement_constant (keyword.token_facing last pos comments), keyword.lo_facing]
  rw [keyword.next_facing, (word.shows.blank _ _ _).1]
  simpa using enumerates

end Grammar

namespace File

open Grammar

/-- One round of the items of a file. -/
private def itemStep (k : Knot) : Parse (Option Item) := do
  if (← Parse.token) == .eof then return none
  return some (← k.statement true)

private theorem file_takes {ctx : Context} {depth : Nat} {name : String} {t : TypeExpr}
    (plain : Render.isPlainName name.toList = true) (free : isReference name = true) (readable : Readable t)
    (deep : byteLength (typeChars t) ≤ depth) (fits : Fits ctx 0 (constantChars name t ++ [])) :
    Takes ctx (file (knot (depth + 2))) 0 (constantChars name t) [] [.vars 0 true [.named name t]] := by
  have reads : Reads (knot (depth + 1)) t := reads_knot (depth + 1) t (by omega) readable
  have taken := statement_takes (readsNames_level (knot depth)) plain free reads fits
  have begins : Begins (constantChars name t ++ []) (.word "const") := by
    rw [constantChars, List.append_assoc]
    exact (lexes_constantWord _).begins
  have step : Takes ctx (itemStep (knot (depth + 2))) 0 (constantChars name t) [] (some (.vars 0 true [.named name t])) :=
    begins.shows.sees_token.bind_takes (taken.bind_sees (.pure _ _ _))
  have ends : ∀ pos, Sees ctx (itemStep (knot (depth + 2))) pos [] none := fun pos =>
    shows_nil.sees_token.bind (.pure none _ _)
  have nonempty : constantChars name t ≠ [] := by simp [constantChars, constantWord]
  have room := fits.room
  rw [List.append_nil] at room
  exact (Pieces.last nonempty step (ends _)).repeated begins.near room

/-- A constant is read from its declaration with the type that is written there. -/
theorem parse?_constant {name : String} {t : TypeExpr} (plain : Render.isPlainName name.toList = true)
    (free : isReference name = true) (readable : Readable t) {text : String} (written : text.toList = constantChars name t) :
    (File.parse? text).map File.items = some [.vars 0 true [.named name t]] := by
  have unmarked : withoutMark (constantChars name t) = constantChars name t := by
    simp [constantChars, constantWord, withoutMark, byteOrderMark]
  have start : Cursor.start (constantChars name t) = .facing 0 0 [] (constantChars name t ++ []) := by
    rw [List.append_nil]
    simp [constantChars, constantWord, Cursor.start, Cursor.facing]
  have size : byteLength (typeChars t) ≤ byteLength (constantChars name t) := by
    simp only [constantChars, Text.byteLength_append, byteLength]
    omega
  obtain ⟨depth, deep, levels⟩ : ∃ depth, byteLength (typeChars t) ≤ depth ∧
      File.depth (byteLength (constantChars name t)) = depth + 2 :=
    ⟨File.depth (byteLength (constantChars name t)) - 2, by rw [File.depth]; omega, by rw [File.depth]; omega⟩
  have fits : Fits { text := constantChars name t, size := byteLength (constantChars name t) } 0 (constantChars name t ++ []) :=
    ⟨⟨[], by simp, rfl⟩, by simp⟩
  have taken := file_takes plain free readable deep fits 0 []
  simp only [parse?, written, unmarked, levels, start, taken]
  rfl

/-- The text of a type is read back as the type that it stands for. -/
theorem parse?_rereads {name : String} {t : TypeExpr} (plain : Render.isPlainName name.toList = true)
    (free : isReference name = true) (readable : Readable (Render.reread t)) :
    (File.parse? ("const " ++ name ++ ": " ++ Render.typeText t ++ ";")).map File.items =
      some [.vars 0 true [.named name (Render.reread t)]] := by
  have written : ("const " ++ name ++ ": " ++ Render.typeText t ++ ";").toList = constantChars name (Render.reread t) := by
    rw [constantChars, Render.typeChars_reread, Render.typeChars]
    simp [constantWord]
  exact parse?_constant plain free readable written

/-- A union in a union is read back as one, and a function keeps its parentheses there. -/
theorem parse?_rereads_nested :
    Render.typeText (.array (.union [.basic .string, .union [.basic .integer, .function
        [.mk "T" (some (.reference "Base" []))] [.mk "key" (.literal "\"a\"") true, .mk "...rest" (.array (.reference "T" []))
        false] (.object [.mk "done" (.tuple [.basic .void, .literal "1"]) false])]])) =
      "(string | number | (<T extends Base>(key?: \"a\", ...rest: T[]) => \x7b done: [void, 1] \x7d))[]" ∧
    (File.parse? ("const " ++ "f" ++ ": " ++ Render.typeText (.array (.union [.basic .string, .union [.basic .integer,
        .function [.mk "T" (some (.reference "Base" []))] [.mk "key" (.literal "\"a\"") true,
        .mk "...rest" (.array (.reference "T" [])) false] (.object [.mk "done" (.tuple [.basic .void, .literal "1"])
        false])]])) ++ ";")).map File.items =
      some [.vars 0 true [.named "f" (.array (.union [.basic .string, .basic .number, .function
        [.mk "T" (some (.reference "Base" []))] [.mk "key" (.literal "\"a\"") true, .mk "...rest" (.array (.reference "T" []))
        false] (.object [.mk "done" (.tuple [.basic .void, .literal "1"]) false])]))]] :=
  ⟨by decide +kernel, parse?_rereads (by decide) (by decide) ⟨by decide +kernel, by decide +kernel⟩⟩

end File

end DocLocale.Source
