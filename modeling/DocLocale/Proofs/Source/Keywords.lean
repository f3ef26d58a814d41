import DocLocale.Proofs.Source.Crossing
import DocLocale.Source.Grammar.Modules
import Mathlib.Tactic.Common

/-!
Statements that start with the keyword of a declaration, or with a word that is read as an expression before the
declaration behind it is looked at.
-/

set_option autoImplicit false
set_option relaxedAutoImplicit false

namespace DocLocale.Source.Grammar

variable {ctx : Context} {k : Knot} {c : Cursor} {w v : String}

/-! ### Words as expressions -/

/-- Words that go on with an expression. -/
def operatorWords : List String := ["as", "satisfies", "in", "instanceof"]

/-- A cursor on a word that names a value, with a word behind it that is no operator. -/
structure AtLoneWord (c : Cursor) (w v : String) : Prop where
  word : c.token = .word w
  reference : isReference w = true
  other : w ≠ "async"
  next : c.next.token = .word v
  free : v ∉ operatorWords

private theorem reserved_ne (reference : isReference w = true) {r : String}
    (reserved : r ∈ keywords ∨ r ∈ literalWords) : w ≠ r := by
  rintro rfl
  rw [isReference, Bool.not_eq_true', Bool.or_eq_false_iff, Bool.or_eq_false_iff] at reference
  obtain ⟨⟨keyword, literal⟩, -⟩ := reference
  rcases reserved with listed | listed
  · rw [List.contains_iff_mem.mpr listed] at keyword
    cases keyword
  · rw [List.contains_iff_mem.mpr listed] at literal
    cases literal

/-- The expression that a word is. -/
private def loneWord (c : Cursor) (w : String) : Expr := ⟨c.lo, c.hi, .name w⟩

private theorem primary_eq (at_ : AtLoneWord c w v) : primary k ctx c = .ok (loneWord c w) c.next := by
  obtain ⟨word, reference, async, next, -⟩ := at_
  have function := reserved_ne reference (r := "function") (by simp [keywords])
  have «class» := reserved_ne reference (r := "class") (by simp [keywords])
  have «import» := reserved_ne reference (r := "import") (by simp [keywords])
  have this := reserved_ne reference (r := "this") (by simp [keywords])
  have super := reserved_ne reference (r := "super") (by simp [keywords])
  have null := reserved_ne reference (r := "null") (by simp [literalWords])
  have «true» := reserved_ne reference (r := "true") (by simp [literalWords])
  have «false» := reserved_ne reference (r := "false") (by simp [literalWords])
  simp [primary, Parse.position, Parse.token, word, wordExpression, Parse.peek, function, «class», «import», valueWords,
    this, super, null, «true», «false», async, reference, next, Parse.advance, Parse.cursor, exprFrom, Parse.previousEnd,
    loneWord]
  rfl

private theorem suffixed_eq (allowed : Suffixes) (fuel : Nat) (next : c.next.token = .word v) :
    suffixed k allowed fuel (loneWord c w) ctx c.next = .ok (loneWord c w) c.next := by
  cases fuel with
  | zero => rfl
  | succ fuel =>
    have plain : (loneWord c w).form ≠ .arrow := by simp [loneWord]
    simp [suffixed, plain, suffix, Parse.token, next]

private theorem unary_eq (at_ : AtLoneWord c w v) (fuel : Nat) (room : c.lo ≤ ctx.size) :
    unary k (fuel + 1) ctx c = .ok (loneWord c w) c.next := by
  obtain ⟨budget, enough⟩ : ∃ budget, ctx.size + 2 - c.lo = budget + 1 := ⟨ctx.size + 1 - c.lo, by omega⟩
  have new := reserved_ne at_.reference (r := "new") (by simp [keywords])
  have await := reserved_ne at_.reference (r := "await") (by simp [keywords])
  have prefixed : isPrefixOperator (.word w) = false := by
    have typeof := reserved_ne at_.reference (r := "typeof") (by simp [keywords])
    have void := reserved_ne at_.reference (r := "void") (by simp [keywords])
    have delete := reserved_ne at_.reference (r := "delete") (by simp [keywords])
    simp [isPrefixOperator, prefixWords, typeof, void, delete]
  have made : created k ⟨true, true⟩ (budget + 1) ctx c = .ok (loneWord c w) c.next := by
    simp [created, Parse.position, Parse.eatWord, at_.word, new, primary_eq at_, Parse.budget,
      suffixed_eq (k := k) _ _ at_.next]
  have plain : (loneWord c w).form ≠ .arrow := by simp [loneWord]
  simp [unary, Parse.cursor, prefixed, at_.word, await, Parse.budget, enough, made, plain, Parse.isOneOf, at_.next,
    Parse.lineBreak]

private theorem operatorRow_eq (e : Expr) (form : ExprForm) (fuel : Nat) (next : c.token = .word v)
    (free : v ∉ operatorWords) : operatorRow k fuel e form ctx c = .ok e c := by
  simp only [operatorWords, List.mem_cons, List.not_mem_nil, or_false, not_or] at free
  obtain ⟨as, satisfies, «in», instanceof⟩ := free
  cases fuel with
  | zero => rfl
  | succ fuel =>
    simp [operatorRow, Parse.cursor, next, as, satisfies, Parse.context, operatorToken, isBinaryOperator, «in», instanceof]

private theorem assignment_eq (at_ : AtLoneWord c w v) (room : c.lo ≤ ctx.size) :
    assignment k ctx c = .ok (loneWord c w) c.next := by
  obtain ⟨budget, enough⟩ : ∃ budget, ctx.size + 2 - c.lo = budget + 1 := ⟨ctx.size + 1 - c.lo, by omega⟩
  have yield := reserved_ne at_.reference (r := "yield") (by simp [keywords])
  have plain : (loneWord c w).form ≠ .arrow := by simp [loneWord]
  have conditioned : conditional k ctx c = .ok (loneWord c w) c.next := by
    simp [conditional, Parse.budget, enough, unary_eq at_ budget room, plain,
      operatorRow_eq (k := k) _ _ _ at_.next at_.free, Parse.eat, at_.next]
  simp [assignment, Parse.position, Parse.isWord, at_.word, yield, Parse.isSymbol, Parse.context, conditioned, Parse.cursor,
    operatorToken, at_.next]

/-- A word is a whole expression if the word behind it is no operator. -/
theorem freeSequence_word (at_ : AtLoneWord c w v) (room : c.lo ≤ ctx.size) :
    freeSequence (level k) ctx c = .ok ⟨c.lo, c.hi, .name w⟩ c.next := by
  have assigned : (level k).assignment { ctx with allowIn := true, expectColon := false } c = .ok (loneWord c w) c.next :=
    assignment_eq at_ room
  simp only [freeSequence, Parse.within, sequence, Parse.run_bind, assigned]
  rw [repeated_eq_nil (by simp [Parse.eat, at_.next])]
  rfl

/-! ### Keywords -/

/-- The keywords of printed declarations. -/
inductive Keyword
  | const | «let» | function | «class» | «interface» | «enum» | type | «namespace»

namespace Keyword

/-- The text of a keyword. -/
def text : Keyword → String
  | const => "const"
  | «let» => "let"
  | function => "function"
  | «class» => "class"
  | «interface» => "interface"
  | «enum» => "enum"
  | type => "type"
  | «namespace» => "namespace"

/-- A declaration from its keyword on. -/
def parser (k : Knot) (lo : Nat) : Keyword → Parse Item
  | const | «let» => varDeclaration k lo
  | function => functionDeclaration k lo
  | «class» => classDeclaration k lo
  | «interface» => Parse.advance >>= fun _ => interfaceRest k lo
  | «enum» => Parse.advance >>= fun _ => enumRest k lo
  | type => Parse.advance >>= fun _ => aliasRest k lo
  | «namespace» => Parse.advance >>= fun _ => namespaceRest k lo

/-- Names that a declaration with a given keyword can have, so that the keyword is taken for one. -/
def Allows : Keyword → String → Prop
  | const, v => v ≠ "enum"
  | «let», v => v ∉ keywords
  | function, _ | «class», _ => True
  | «interface», v | «enum», v | type, v => isReference v = true
  | «namespace», v => isReference v = true ∧ v ∉ operatorWords

end Keyword

variable {kw : Keyword} {lo : Nat}

private theorem declared?_eq (word : c.token = .word kw.text) (next : c.next.token = .word v) (allowed : kw.Allows v) :
    declared? k lo ctx c = (kw.parser k lo >>= fun item => pure (some item)) ctx c := by
  cases kw with
  | const =>
    have other : v ≠ "enum" := allowed
    simp [declared?, Parse.token, word, Keyword.text, Parse.peek, next, other, Keyword.parser]
  | _ => simp [declared?, Parse.token, word, Keyword.text, keywordDeclaration?, Parse.peek, Keyword.parser, Parse.advance]

/-- A declaration behind the word that makes it ambient. -/
theorem statement_declare (word : c.token = .word "declare") (keyword : c.next.token = .word kw.text)
    (named : c.next.next.token = .word v) (allowed : kw.Allows v) (room : c.lo ≤ ctx.size) :
    statement (level k) true ctx c = kw.parser (level k) c.lo ctx c.next := by
  have at_ : AtLoneWord c "declare" kw.text := by
    refine ⟨word, by decide, by decide, keyword, ?_⟩
    cases kw <;> simp [Keyword.text, operatorWords]
  have expression : freeSequence (level k) ctx c = .ok ⟨c.lo, c.hi, .name "declare"⟩ c.next := freeSequence_word at_ room
  have declared : declared? (level k) c.lo ctx c.next = (kw.parser (level k) c.lo >>= fun item => pure (some item)) ctx c.next :=
    declared?_eq keyword named allowed
  simp [statement, Parse.cursor, word, plainStatement, keywordStatement?, expressionStatement, expression, Parse.eat,
    keyword, wordDeclaration?, declared]
  cases kw.parser (level k) c.lo ctx c.next <;> rfl

/-- A declaration that was found is the statement. -/
private theorem unwrapped_eq (p : Parse Item) (c : Cursor) :
    ((p >>= fun item => pure (some item)) >>= fun found =>
      match found with
      | some item => pure item
      | none => Parse.fail) ctx c = p ctx c := by
  rw [Parse.run_bind, Parse.run_bind]
  cases p ctx c <;> rfl

/-- A declaration inside another one. -/
theorem statement_nested (keyword : c.token = .word kw.text) (named : c.next.token = .word v)
    (unbroken : c.next.lineBreak = false) (allowed : kw.Allows v) (room : c.lo ≤ ctx.size) :
    statement (level k) true ctx c = kw.parser (level k) c.lo ctx c := by
  cases kw with
  | const =>
    have other : v ≠ "enum" := allowed
    simp [statement, Parse.cursor, keyword, Keyword.text, plainStatement, keywordStatement?, named, other,
      Keyword.parser]
  | «let» =>
    have free : v ∉ keywords := allowed
    have starts : startsBinding c.next = true := by simp [startsBinding, named, free]
    simp [statement, Parse.cursor, keyword, Keyword.text, plainStatement, keywordStatement?, starts, Keyword.parser]
  | function | «class» =>
    simp [statement, Parse.cursor, keyword, Keyword.text, plainStatement, keywordStatement?, Keyword.parser]
  | «interface» | «enum» | type =>
    have reference : isReference v = true := allowed
    have here : isNameHere c.next = true := by simp [isNameHere, unbroken, named, reference]
    simp only [Keyword.text] at keyword
    simp only [statement, Parse.run_bind, Parse.cursor]
    simp [keyword, plainStatement, keywordStatement?, here, keywordDeclaration?, Keyword.parser, Parse.advance,
      Parse.cursor]
    exact unwrapped_eq _ c.next
  | «namespace» =>
    obtain ⟨reference, free⟩ := allowed
    have at_ : AtLoneWord c "namespace" v := ⟨keyword, by decide, by decide, named, free⟩
    have expression : freeSequence (level k) ctx c = .ok ⟨c.lo, c.hi, .name "namespace"⟩ c.next :=
      freeSequence_word at_ room
    simp [statement, Parse.cursor, keyword, Keyword.text, plainStatement, keywordStatement?, expressionStatement, expression,
      Parse.eat, named, wordDeclaration?, reference, Keyword.parser, Parse.advance]
    cases namespaceRest (level k) c.lo ctx c.next <;> rfl

end DocLocale.Source.Grammar
