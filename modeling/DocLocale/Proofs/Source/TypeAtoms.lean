import DocLocale.Proofs.Source.TypeOpening
import DocLocale.Source.Grammar.Types
import Mathlib.Tactic.Common

/-!
Keywords, literals, named types and tuples, read from their texts by the grammar.
-/

set_option autoImplicit false
set_option relaxedAutoImplicit false

namespace DocLocale.Source

open Text (byteLength)
open Render (isPlainName typeChars)

namespace Grammar

variable {ctx : Context} {k : Knot} {pos : Nat} {rest : List Char}

theorem primaryType_keyword {b : Basic} (plain : Render.legible (.basic b) = true) (follows : Follows atomTokens rest) :
    Takes ctx (primaryType k) pos b.keyword.toList rest ⟨.basic b, pos, pos + byteLength b.keyword.toList⟩ := by
  have named : isPlainName b.keyword.toList = true := by cases b <;> decide
  have lexes := lexes_name named follows.apart
  obtain ⟨token, listed, shown⟩ := follows.shows
  have dot : token ≠ .symbol "." := by
    rintro rfl
    simp [atomTokens, memberTokens, stopTokens] at listed
  have taken : Takes ctx (Parse.advance >>= fun _ => spanning pos (.basic b)) pos b.keyword.toList rest
      ⟨.basic b, pos, pos + byteLength b.keyword.toList⟩ := lexes.advance.bind_stay fun _ => rfl
  intro last comments
  rw [← taken last comments]
  simp only [primaryType, Parse.run_bind, Parse.position, Parse.cursor, lexes.lo_facing, lexes.token_facing,
    lexes.next_facing, (shown _ _ _).1]
  cases b
  case integer | float => simp [Render.legible] at plain
  all_goals simp [Basic.keyword, keywordType?, keywords, typeNameKeywords, dot]

theorem primaryType_literal {text : List Char} (plain : Render.isPlainLiteral text = true)
    (unbroken : (text.all fun c => c != '\n' && c != '\r') = true) (fits : Fits ctx pos (text ++ rest))
    (follows : Follows atomTokens rest) :
    Takes ctx (primaryType k) pos text rest ⟨.literal (String.ofList text), pos, pos + byteLength text⟩ := by
  obtain ⟨token, lexes, literal⟩ := lexes_literal plain unbroken follows.apart
  have taken : Takes ctx (Parse.advance >>= fun _ => literalType pos) pos text rest
      ⟨.literal (String.ofList text), pos, pos + byteLength text⟩ := by
    refine lexes.advance.bind_stay fun comments => ?_
    simp only [literalType, Parse.run_bind, Parse.previousEnd, Cursor.previousEnd_facing, Parse.slice, fits.slice,
      Option.getD_some, Parse.run_pure]
  intro last comments
  rw [← taken last comments]
  simp only [primaryType, Parse.run_bind, Parse.position, Parse.cursor, lexes.lo_facing, lexes.token_facing]
  rcases literal with rfl | ⟨v, rfl⟩ <;> rfl

/-- A parser for types gives a type back from its text. -/
def Reads (k : Knot) (t : TypeExpr) : Prop :=
  ∀ ctx pos rest, Fits ctx pos (typeChars t ++ rest) → Follows stopTokens rest →
    Takes ctx k.type pos (typeChars t) rest ⟨t, pos, pos + byteLength (typeChars t)⟩

theorem readsItems_of_reads {ts : List TypeExpr} (reads : ∀ t ∈ ts, Reads k t) :
    ReadsItems ctx k.type typeChars (fun span t => span.type = t) ts :=
  fun t member pos rest fits follows => ⟨_, reads t member ctx pos rest fits follows, rfl⟩

theorem startsOff_of_readable {ts : List TypeExpr} (readable : ∀ t ∈ ts, Readable t) {s : String}
    (other : isFirst (.symbol s) = false) : StartsOff typeChars s ts := by
  intro t member
  obtain ⟨c, cs, shape, -⟩ := Render.typeChars_cons (readable t member).plain
  refine ⟨by simp [shape], fun rest follows => ?_⟩
  obtain ⟨token, first, begins⟩ := (startsAs_typeChars (readable t member) follows).first
  refine ⟨token, ?_, begins⟩
  rintro rfl
  simp [other] at first

theorem typeArguments_takes {args : List TypeExpr} (readable : ∀ t ∈ args, Readable t)
    (reads : ∀ t ∈ args, Reads k t)
    (fits : Fits ctx pos ('<' :: ([',', ' '].intercalate (args.map typeChars) ++ ['>']) ++ rest)) :
    Takes ctx (typeArguments k) pos ('<' :: ([',', ' '].intercalate (args.map typeChars) ++ ['>'])) rest args := by
  have opening : ∀ cs, Lexes ['<'] (.symbol "<") cs := lexes_mark (by simp [marks])
  rw [List.cons_append, List.append_assoc] at fits
  have items : ReadsItems ctx k.type typeChars (fun span t => span.type = t) args := readsItems_of_reads reads
  have starts : StartsOff typeChars ">" args := startsOff_of_readable readable rfl
  have rounds := commaStep_rounds (c := '>') (by simp [stopMarks]) (by decide) items starts rest
  refine Takes.bind_cons (opening _).expect (rounds.closed (by simp [marks]) fits.drop fun spans given _ _ _ => ?_)
  rw [← List.forall₂_map_left_iff, List.forall₂_eq_eq_eq] at given
  rw [given]
  rfl

theorem entityName_takes {name : String} {token : Token} (plain : isPlainName name.toList = true) (apart : Apart rest)
    (shown : Shows rest token) (other : token ≠ .symbol ".") : Takes ctx entityName pos name.toList rest name := by
  have lexes := lexes_name plain apart
  refine lexes.begins.sees_position.bind_takes (lexes.anyWord.bind_previousEnd ?_)
  exact (Sees.repeated ((shown.not_eat other).bind (.pure none _ _))).bind (.pure name _ _)

theorem eatParameterModifier_sees {token : Token} {cs : List Char} (shown : Shows cs token)
    (other : ∀ w ∈ ["public", "protected", "private", "readonly"], token ≠ .word w) :
    Sees ctx eatParameterModifier pos cs false := by
  refine shown.sees_token.bind ?_
  split
  · rename_i w
    have free : ["public", "protected", "private", "readonly"].contains w = false := by
      rw [List.contains_eq_mem, decide_eq_false_iff_not]
      exact fun listed => other w listed rfl
    rw [free]
    exact .pure false _ _
  · exact .pure false _ _

theorem typeArguments?_bare {token : Token} {cs : List Char} (shown : Shows cs token) (other : token ≠ .symbol "<") :
    Sees ctx (typeArguments? k) pos cs [] :=
  (shown.not_isSymbol other).bind (shown.sees_lineBreak.bind (.pure [] _ _))

theorem typeArguments?_takes {front : List Char} {args : List TypeExpr}
    (taken : Takes ctx (typeArguments k) pos front rest args) (shown : Shows (front ++ rest) (.symbol "<")) :
    Takes ctx (typeArguments? k) pos front rest args :=
  shown.isSymbol.bind_takes (shown.sees_lineBreak.bind_takes taken)

theorem not_modifier {name : String} (known : isTypeWord name = true) :
    ∀ w ∈ ["public", "protected", "private", "readonly"], Token.word name ≠ .word w := by
  rintro w listed same
  injection same with same
  have reserved : ∀ w ∈ ["public", "protected", "private", "readonly"], isTypeWord w = false := by decide
  exact isTypeWord.ne known (reserved w listed) same

private theorem ofAlias?_of_isFreeType {name : String} (free : isFreeType name = true) : Basic.ofAlias? name = none := by
  simp only [isFreeType, Bool.and_eq_true, Option.isNone_iff_eq_none] at free
  exact free.2

theorem referenceType_bare {name : String} (plain : isPlainName name.toList = true) (free : isFreeType name = true)
    (follows : Follows atomTokens rest) :
    Takes ctx (referenceType k) pos name.toList rest ⟨.reference name [], pos, pos + byteLength name.toList⟩ := by
  have lexes := lexes_name plain follows.apart
  obtain ⟨token, listed, shown⟩ := follows.shows
  have dot : token ≠ .symbol "." := by
    rintro rfl
    simp [atomTokens, memberTokens, stopTokens] at listed
  have angle : token ≠ .symbol "<" := by
    rintro rfl
    simp [atomTokens, memberTokens, stopTokens] at listed
  have unmodified := not_modifier (isTypeWord_of_isFreeType free)
  refine lexes.begins.sees_position.bind_takes ((eatParameterModifier_sees lexes.shows unmodified).bind_takes
    ((entityName_takes plain follows.apart shown dot).bind_stay fun comments => ?_))
  rw [(typeArguments?_bare shown angle).run_bind, ofAlias?_of_isFreeType free]
  rfl

theorem referenceType_applied {name : String} {args : List TypeExpr}
    (plain : isPlainName name.toList = true) (free : isFreeType name = true) (readable : ∀ t ∈ args, Readable t)
    (reads : ∀ t ∈ args, Reads k t)
    (fits : Fits ctx pos (name.toList ++ '<' :: ([',', ' '].intercalate (args.map typeChars) ++ ['>']) ++ rest)) :
    Takes ctx (referenceType k) pos (name.toList ++ '<' :: ([',', ' '].intercalate (args.map typeChars) ++ ['>'])) rest
      ⟨.reference name args, pos,
        pos + byteLength (name.toList ++ '<' :: ([',', ' '].intercalate (args.map typeChars) ++ ['>']))⟩ := by
  have opening : ∀ cs, Lexes ['<'] (.symbol "<") cs := lexes_mark (by simp [marks])
  have apart : ∀ cs, Apart ('<' :: cs) := apart_mark (s := "<") (by simp [marks])
  rw [List.append_assoc] at fits
  have lexes := lexes_name plain (apart ([',', ' '].intercalate (args.map typeChars) ++ ['>'] ++ rest))
  have arguments := typeArguments?_takes (typeArguments_takes readable reads fits.drop) (opening _).shows
  have unmodified := not_modifier (isTypeWord_of_isFreeType free)
  refine lexes.begins.sees_position.bind_takes_append
    ((eatParameterModifier_sees lexes.shows unmodified).bind_takes_append
      ((entityName_takes plain (apart _) (opening _).shows (by simp)).bind (arguments.bind_stay fun comments => ?_)))
  rw [ofAlias?_of_isFreeType free, Text.byteLength_append, ← Nat.add_assoc]
  rfl

/-- A free name starts a named type and nothing else. -/
private theorem primaryType_word {w : String} {front cs : List Char} {span : TypeSpan} (free : isFreeType w = true)
    (lexes : Lexes w.toList (.word w) cs) (shape : front ++ rest = w.toList ++ cs)
    (taken : Takes ctx (referenceType k) pos front rest span) : Takes ctx (primaryType k) pos front rest span := by
  have other : ∀ x, isFreeType x = false → w ≠ x := by
    rintro x reserved rfl
    simp [reserved] at free
  have word : w ∉ keywords := by
    simp only [isFreeType, isReference, Bool.and_eq_true, Bool.not_eq_true', Bool.or_eq_false_iff] at free
    simpa using free.1.1.1.1
  have basic : keywordType? w = none := by
    simp only [keywordType?]
    repeat rw [if_neg (other _ (by decide))]
  have sourceOnly : w ∉ otherKeywordTypes := by
    simp [otherKeywordTypes, other "bigint" (by decide), other "symbol" (by decide), other "intrinsic" (by decide)]
  intro last comments
  rw [← taken last comments, shape]
  simp only [primaryType, Parse.run_bind, Parse.position, Parse.cursor, lexes.token_facing]
  simp [word, basic, sourceOnly, other "true" (by decide), other "false" (by decide), other "import" (by decide),
    other "this" (by decide), other "typeof" (by decide), other "asserts" (by decide)]

theorem primaryType_reference {name : String} {args : List TypeExpr} (plain : isPlainName name.toList = true)
    (free : isFreeType name = true) (readable : ∀ t ∈ args, Readable t) (reads : ∀ t ∈ args, Reads k t)
    (fits : Fits ctx pos (typeChars (.reference name args) ++ rest)) (follows : Follows atomTokens rest) :
    Takes ctx (primaryType k) pos (typeChars (.reference name args)) rest
      ⟨.reference name args, pos, pos + byteLength (typeChars (.reference name args))⟩ := by
  rw [Render.typeChars_reference] at fits ⊢
  by_cases bare : args = []
  · rw [if_pos bare, List.append_nil, bare]
    exact primaryType_word free (lexes_name plain follows.apart) rfl (referenceType_bare plain free follows)
  · rw [if_neg bare] at fits ⊢
    exact primaryType_word free (lexes_name plain (apart_mark (s := "<") (by simp [marks]) _)) (List.append_assoc ..)
      (referenceType_applied plain free readable reads fits)

/-! ### Tuples -/

/-- The start of a type is no label of a tuple's element. -/
private theorem label_fails {cs : List Char} (starts : StartsAs stopTokens cs) :
    Fails ctx (do
      let _ ← Parse.eat "..."
      let _ ← Parse.anyWord
      let _ ← Parse.eat "?"
      Parse.expect ":") pos cs := by
  rcases starts with ⟨w, after, rfl, plain, -, follows⟩ | ⟨front, token, after, rfl, lexes, first, wordless⟩
  · have lexes := lexes_name plain follows.apart
    obtain ⟨next, listed, ends⟩ := follows.shows
    have question : next ≠ .symbol "?" := by
      rintro rfl
      simp [operatorTokens, stopTokens] at listed
    have colon : next ≠ .symbol ":" := by
      rintro rfl
      simp [operatorTokens, stopTokens] at listed
    exact (lexes.shows.not_eat (by simp)).bind_fails (lexes.anyWord.bind_fails
      ((ends.not_eat question).bind_fails (ends.not_expect colon)))
  · have dots : token ≠ .symbol "..." := by
      rintro rfl
      simp [isFirst] at first
    exact (lexes.shows.not_eat dots).bind_fails (lexes.shows.not_anyWord wordless).bind

theorem tupleElement_takes {t : TypeExpr} (readable : Readable t) (reads : Reads k t)
    (fits : Fits ctx pos (typeChars t ++ rest)) (follows : Follows stopTokens rest) :
    Takes ctx (tupleElement k) pos (typeChars t) rest (t, false, false) := by
  have starts := startsAs_typeChars readable follows
  obtain ⟨token, first, begins⟩ := starts.first
  obtain ⟨next, listed, ends⟩ := follows.shows
  have dots : token ≠ .symbol "..." := by
    rintro rfl
    simp [isFirst] at first
  have question : next ≠ .symbol "?" := by
    rintro rfl
    simp [stopTokens] at listed
  refine begins.sees_position.bind_takes ((label_fails starts).attempt.bind_takes ?_)
  refine (begins.shows.not_eat dots).bind_takes ((reads ctx pos rest fits follows).bind_sees ?_)
  exact (ends.not_eat question).bind (.pure _ _ _)

private theorem tupleInOrder_plain (es : List TypeExpr) : tupleInOrder false (es.map (·, false, false)) = true := by
  induction es with
  | nil => rfl
  | cons e es ih => simpa [tupleInOrder] using ih

theorem tupleType_takes {es : List TypeExpr} (readable : ∀ t ∈ es, Readable t) (reads : ∀ t ∈ es, Reads k t)
    (fits : Fits ctx pos (typeChars (.tuple es) ++ rest)) :
    Takes ctx (tupleType k) pos (typeChars (.tuple es)) rest
      ⟨.tuple es, pos, pos + byteLength (typeChars (.tuple es))⟩ := by
  have opening : ∀ cs, Lexes ['['] (.symbol "[") cs := lexes_mark (by simp [marks])
  have elements : ReadsItems ctx (tupleElement k) typeChars (fun e t => e = (t, false, false)) es :=
    fun t member pos rest fits follows =>
      ⟨_, tupleElement_takes (readable t member) (reads t member) fits follows, rfl⟩
  have starts : StartsOff typeChars "]" es := startsOff_of_readable readable rfl
  have rounds := commaStep_rounds (c := ']') (by simp [stopMarks]) (by decide) elements starts rest
  rw [Render.typeChars_tuple] at fits ⊢
  rw [List.cons_append, List.append_assoc] at fits
  refine Sees.bind_takes (opening _).begins.sees_position (Takes.bind_cons (opening _).expect
    (rounds.closed (by simp [marks]) fits.drop fun as given comments last ends => ?_))
  rw [← List.forall₂_map_right_iff, List.forall₂_eq_eq_eq] at given
  subst given
  rw [tupleInOrder_plain, if_pos rfl, List.map_map, ends, Nat.add_assoc, ← Text.byteLength_append]
  simp [Function.comp_def]
  rfl

end Grammar

end DocLocale.Source
