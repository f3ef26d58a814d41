import DocLocale.Proofs.Source.ClassMembers
import Mathlib.Tactic.Common

/-!
Members of printed interfaces, crossed by the grammar.
-/

set_option autoImplicit false
set_option relaxedAutoImplicit false

namespace DocLocale.Source

open Text (byteLength)

namespace Grammar

variable {ctx : Context} {k : Knot} {pos : Nat} {rest : List Char}

/-! ### Names of members -/

/-- Whether a token can start the name of a member of an interface that is no expression. -/
def startsPlainName : Token → Bool
  | .word _ | .string _ | .number | .bigint => true
  | .symbol s => s == "#"
  | _ => false

/-- A text that is read as the name of a member of an interface: a word, or what starts with another token. -/
inductive ReadsTypeName (k : Knot) (name : String) : Prop
  | word (named : IsWordName name)
  | other (token : Token) (starts : startsPlainName token = true) (wordless : ∀ w, token ≠ .word w)
    (heads : ∀ rest, Apart rest → Heads (name.toList ++ rest) token)
    (crosses : ∀ ctx broken pos rest, Fits ctx pos (name.toList ++ rest) → Follows memberEnds rest →
      ∃ met, Crosses ctx (typeMemberName k) broken pos name.toList rest name met)

/-- A cursor in front of the name of a member of an interface. -/
structure AtPlainName (c : Cursor) : Prop where
  starts : startsPlainName c.token = true
  bare : c.next.token ∈ memberEnds ∨ ∀ w, c.token ≠ .word w

theorem typeMemberName_word {c : Cursor} {w : String} (word : c.token = .word w) :
    typeMemberName k ctx c = .ok w c.next := by
  simp [typeMemberName, Parse.eat, word, Parse.position, Parse.token, Parse.anyWord]

theorem ReadsTypeName.crosses {name : String} {broken : Bool} (reads : ReadsTypeName k name)
    (fits : Fits ctx pos (name.toList ++ rest)) (follows : Follows memberEnds rest) :
    ∃ met, Crosses ctx (typeMemberName k) broken pos name.toList rest name met := by
  cases reads with
  | word named => exact ⟨[], (named rest follows.apart).crosses fun c shown => typeMemberName_word shown⟩
  | other token starts wordless heads crosses => exact crosses ctx broken pos rest fits follows

theorem ReadsTypeName.heads {name : String} (reads : ReadsTypeName k name) (apart : Apart rest) :
    ∃ token, Heads (name.toList ++ rest) token ∧ startsPlainName token = true := by
  cases reads with
  | word named => exact ⟨_, (named rest apart).heads, rfl⟩
  | other token starts wordless heads crosses => exact ⟨token, heads rest apart, starts⟩

theorem ReadsTypeName.atName {name : String} {broken : Bool} (reads : ReadsTypeName k name)
    (follows : Follows memberEnds rest) (last : Nat) (comments : List Comment) :
    AtPlainName (.behind last pos broken comments (name.toList ++ rest)) := by
  obtain ⟨token, heads, starts⟩ := reads.heads follows.apart
  refine ⟨by rw [heads.token_behind]; exact starts, ?_⟩
  cases reads with
  | word named =>
    obtain ⟨next, listed, shown⟩ := follows.shows
    refine .inl ?_
    rw [(named rest follows.apart).next_behind, (shown _ _ _).1]
    exact listed
  | other token starts wordless heads crosses =>
    refine .inr ?_
    rw [(heads rest follows.apart).token_behind]
    exact wordless

/-! ### In front of names -/

/-- A member behind its modifier. -/
def namedSignature (k : Knot) (lo : Nat) (readonly : Bool) : Parse Member := do
  let name ← typeMemberName k
  let optional ← Parse.eat "?"
  if ← Parse.isOneOf ["(", "<"] then
    if readonly then Parse.fail
    signatureThen k (signatureParameters k) memberEnd fun f => .method lo name f optional []
  else
    let type := (← annotation? k).getD (.basic .any)
    memberEnd
    return .property lo name type optional (if readonly then [.readonly] else [])

private theorem typeMemberName_eq_fail {c : Cursor} (ends : c.token ∈ memberEnds) :
    typeMemberName k ctx c = .fail c := by
  simp only [memberEnds, List.mem_cons, List.not_mem_nil, or_false] at ends
  rcases ends with ends | ends | ends | ends
  all_goals simp [typeMemberName, Parse.eat, ends, Parse.position, Parse.token, Parse.anyWord]

private theorem accessorSignature_eq_fail {c : Cursor} (at_ : AtPlainName c) :
    ∃ stopped, accessorSignature k ctx c = .fail stopped := by
  have named : ∀ w, c.token = .word w → c.next.token ∈ memberEnds := fun w word =>
    at_.bare.resolve_right fun wordless => wordless w word
  by_cases reads : c.token = .word "get"
  · simp [accessorSignature, Parse.eatWord, reads, typeMemberName_eq_fail (named _ reads)]
  · by_cases writes : c.token = .word "set"
    · simp [accessorSignature, Parse.eatWord, Parse.expectWord, writes, typeMemberName_eq_fail (named _ writes)]
    · simp [accessorSignature, Parse.eatWord, Parse.expectWord, reads, writes]

private theorem AtPlainName.modifier?_eq {c : Cursor} (at_ : AtPlainName c) (allowed : List String) :
    modifier? allowed false ctx c = .ok none c := by
  rcases at_.bare with ends | wordless
  · exact modifier?_eq_none (mem_nameEnds_of_memberEnds ends) allowed false
  · simp only [modifier?, Parse.run_bind, Parse.token]
    cases shown : c.token with
    | word w => exact absurd shown (wordless w)
    | _ => rfl

private theorem AtPlainName.unopened {c : Cursor} (at_ : AtPlainName c) :
    c.token ≠ .symbol "(" ∧ c.token ≠ .symbol "<" ∧ c.token ≠ .symbol "[" := by
  have starts := at_.starts
  refine ⟨?_, ?_, ?_⟩
  all_goals
    intro same
    rw [same] at starts
    exact absurd starts (by decide)

theorem typeMember_eq {c : Cursor} (at_ : AtPlainName c)
    (free : c.token = .word "new" → c.next.token ≠ .symbol "(" ∧ c.next.token ≠ .symbol "<") :
    typeMember k ctx c = namedSignature k c.lo false ctx c := by
  obtain ⟨stopped, failed⟩ : ∃ stopped, accessorSignature k ctx c = .fail stopped := accessorSignature_eq_fail at_
  obtain ⟨round, angle, square⟩ := at_.unopened
  have constructs : (c.token == .word "new" && (c.next.token == .symbol "(" || c.next.token == .symbol "<")) = false := by
    by_cases word : c.token = .word "new"
    · simp [free word]
    · simp [word]
  simp only [typeMember, Parse.run_bind, Parse.position, Parse.cursor]
  simp [round, angle, constructs, at_.modifier?_eq, startsIndex, square, Parse.attempt, failed, namedSignature,
    signatureThen, Parse.cursor]

theorem typeMember_readonly {c : Cursor} (word : c.token = .word "readonly") (at_ : AtPlainName c.next)
    (unbroken : c.next.lineBreak = false) :
    typeMember k ctx c = namedSignature k c.lo true ctx c.next := by
  obtain ⟨-, -, square⟩ := at_.unopened
  have follows : followsModifier c.next = true := by
    have starts := at_.starts
    rw [followsModifier, unbroken]
    cases shown : c.next.token with
    | symbol s =>
      rw [shown, startsPlainName, beq_iff_eq] at starts
      simp [starts]
    | word | string | number | bigint => rfl
    | _ => simp [shown, startsPlainName] at starts
  have modifier : modifier? ["readonly"] false ctx c = .ok (some "readonly") c.next := by
    simp [modifier?, Parse.token, word, Parse.peek, follows, Parse.advance]
  simp only [typeMember, Parse.run_bind, Parse.position, Parse.cursor]
  simp [word, startsIndex, square, namedSignature, signatureThen, Parse.cursor, modifier]

/-! ### Members -/

theorem namedSignature_property {name : String} {optional isReadonly broken : Bool} {type : List Char} {lo : Nat}
    (named : ReadsTypeName k name) (reads : CrossesType k type)
    (fits : Fits ctx pos (typedChars name optional type ++ ';' :: rest)) :
    ∃ t met, Crosses ctx (namedSignature k lo isReadonly) broken pos (typedChars name optional type ++ [';']) rest
      (.property lo name t optional (if isReadonly then [.readonly] else [])) met := by
  have shape : typedChars name optional type ++ [';'] =
      name.toList ++ ((if optional then ['?'] else []) ++ (':' :: ' ' :: type ++ [';'])) := by
    simp [typedChars]
  have whole : typedChars name optional type ++ ';' :: rest =
      name.toList ++ ((if optional then ['?'] else []) ++ (':' :: ' ' :: type ++ ';' :: rest)) := by
    simp [typedChars]
  rw [whole] at fits
  rw [shape]
  have follows : Follows stopTokens (';' :: rest) := follows_mark (s := ";") (by simp [stopMarks]) rest
  have colon : Shows ((':' :: ' ' :: type ++ [';']) ++ rest) (.symbol ":") := (begins_mark (by simp [marks]) _).shows
  have mark : Moves ctx (Parse.eat "?") (pos + byteLength name.toList) (if optional then ['?'] else [])
      ((':' :: ' ' :: type ++ [';']) ++ rest) optional [] := (eat_mark optional _).moves
  obtain ⟨first, crossed⟩ := named.crosses fits (annotated_follows optional _)
  obtain ⟨t, second, annotated⟩ := annotation?_crosses reads fits.drop.drop follows
  refine ⟨t, second ++ [] ++ first, ?_⟩
  rw [namedSignature]
  refine Crosses.bind_moves (by simpa using crossed) (mark.bind ?_)
  refine (colon.isOneOf _).bind_moves (Crosses.moves ?_)
  exact annotated.bind_takes (memberEnd_semicolon.bind_sees (.pure _ _ _))

theorem namedSignature_method {name : String} {broken : Bool} {s : SignatureText} {lo : Nat}
    (named : ReadsTypeName k name) (reads : s.Reads k) (fits : Fits ctx pos (name.toList ++ (s.chars ++ ';' :: rest))) :
    ∃ f met, Crosses ctx (namedSignature k lo false) broken pos (name.toList ++ (s.chars ++ [';'])) rest
      (.method lo name f false []) met ∧ s.Given f := by
  obtain ⟨-, m, listed, shown⟩ := s.opens ([';'] ++ rest)
  rw [← List.append_assoc] at shown
  have question : Token.symbol m ≠ .symbol "?" := by
    simp only [List.mem_cons, List.not_mem_nil, or_false] at listed
    rcases listed with rfl | rfl <;> simp
  have opens : ["(", "<"].contains m = true := List.contains_iff_mem.mpr listed
  obtain ⟨first, crossed⟩ := named.crosses fits (s.follows (';' :: rest))
  obtain ⟨f, second, tail, given⟩ := signatureThen_moves
    (fun f => Member.method lo name f false []) reads
    (fun pos rest fits => signatureParameters_crosses reads.targets reads.parameters fits) (fun pos => memberEnd_semicolon)
    fits.drop
  refine ⟨f, second ++ first, ?_, given⟩
  rw [namedSignature]
  refine Crosses.bind_moves (by simpa using crossed) ((shown.not_eat question).bind_moves ?_)
  refine (shown.isOneOf _).bind_moves ?_
  simp only [opens, if_true, Bool.false_eq_true, if_false]
  exact tail

/-- A member of an interface whose parts are crossed, read-only or not. -/
inductive MemberForm.ReadsInInterface (k : Knot) : Bool → MemberForm → Prop
  | property {isReadonly : Bool} {name : String} {type : List Char} (isOptional : Bool) (named : ReadsTypeName k name)
    (typed : CrossesType k type) : ReadsInInterface k isReadonly (.property name isOptional type)
  | method {name : String} {s : SignatureText} (named : ReadsTypeName k name) (other : name ≠ "new")
    (signed : s.Reads k) : ReadsInInterface k false (.method name s)

namespace MemberForm.ReadsInInterface

variable {form : MemberForm} {isReadonly broken : Bool}

private theorem crosses {lo : Nat} (reads : form.ReadsInInterface k isReadonly) (fits : Fits ctx pos (form.chars ++ rest)) :
    ∃ x met, Crosses ctx (namedSignature k lo isReadonly) broken pos form.chars rest x met ∧ form.Given lo x := by
  cases reads with
  | property isOptional named typed =>
    rw [MemberForm.chars, List.append_assoc] at fits
    obtain ⟨t, met, crosses⟩ := namedSignature_property named
      typed fits
    exact ⟨_, met, crosses, .property t isOptional _⟩
  | method named other signed =>
    rw [MemberForm.chars, List.append_assoc, List.append_assoc] at fits
    obtain ⟨f, met, crosses, given⟩ := namedSignature_method named signed fits
    exact ⟨_, met, crosses, .method false _ given⟩

private theorem heads (reads : form.ReadsInInterface k isReadonly) :
    ∃ token, Heads (form.chars ++ rest) token ∧ startsPlainName token = true := by
  cases reads with
  | property isOptional named typed =>
    rw [MemberForm.chars, typedChars, List.append_assoc, List.append_assoc, List.append_assoc]
    exact named.heads (annotated_follows isOptional _).apart
  | method named other signed =>
    rw [MemberForm.chars, List.append_assoc, List.append_assoc]
    exact named.heads (SignatureText.follows _ _).apart

private theorem atName (reads : form.ReadsInInterface k isReadonly) (last : Nat) (comments : List Comment) :
    AtPlainName (.behind last pos broken comments (form.chars ++ rest)) := by
  cases reads with
  | property isOptional named typed =>
    rw [MemberForm.chars, typedChars, List.append_assoc, List.append_assoc, List.append_assoc]
    exact named.atName (annotated_follows isOptional _) last comments
  | method named other signed =>
    rw [MemberForm.chars, List.append_assoc, List.append_assoc]
    exact named.atName (SignatureText.follows _ _) last comments

/-- A member named like the word in front of a constructor is a property, with its mark behind the name. -/
private theorem free (reads : form.ReadsInInterface k isReadonly) (last : Nat) (comments : List Comment)
    (word : (Cursor.behind last pos broken comments (form.chars ++ rest)).token = .word "new") :
    (Cursor.behind last pos broken comments (form.chars ++ rest)).next.token ≠ .symbol "(" ∧
      (Cursor.behind last pos broken comments (form.chars ++ rest)).next.token ≠ .symbol "<" := by
  cases reads with
  | @property _ name type isOptional named typed =>
    obtain ⟨more, shape, marked⟩ := typedChars_marked name isOptional type ([';'] ++ rest)
    rw [MemberForm.chars, List.append_assoc, shape] at word ⊢
    obtain ⟨apart, token, kind, begins⟩ := marked.lexes
    cases named with
    | word named =>
      rw [(named more apart).next_behind, (begins.shows _ _ _).1]
      rcases kind with rfl | rfl <;> simp
    | other first starts wordless heads crosses =>
      rw [(heads more apart).token_behind] at word
      exact absurd word (wordless "new")
  | @method name s named other signed =>
    rw [MemberForm.chars, List.append_assoc, List.append_assoc] at word
    have apart := (s.follows ([';'] ++ rest)).apart
    cases named with
    | word named =>
      rw [(named _ apart).heads.token_behind] at word
      exact absurd (Token.word.inj word) other
    | other first starts wordless heads crosses =>
      rw [(heads _ apart).token_behind] at word
      exact absurd word (wordless "new")

end MemberForm.ReadsInInterface

namespace MemberText

variable {m : MemberText} {broken : Bool}

/-- A member of an interface starts with a word, a literal or a hash mark. -/
theorem typeMember_heads (reads : m.form.ReadsInInterface k m.isReadonly) (bound : m.isStatic = false) (rest : List Char) :
    ∃ token, Heads (m.chars ++ rest) token ∧ startsPlainName token = true := by
  rw [chars, bound, if_neg Bool.false_ne_true, ownChars]
  split
  · rw [List.append_assoc]
    exact ⟨_, (lexes_name (by decide) (apart_blank _)).heads, rfl⟩
  · exact reads.heads

/-- The grammar crosses a member of an interface. -/
theorem typeMember_crosses (reads : m.form.ReadsInInterface k m.isReadonly) (bound : m.isStatic = false)
    (fits : Fits ctx pos (m.chars ++ rest)) :
    ∃ x met, Crosses ctx (typeMember k) broken pos m.chars rest x met ∧ m.form.Given pos x := by
  rw [chars, bound, if_neg Bool.false_ne_true, ownChars] at fits ⊢
  cases isReadonly : m.isReadonly with
  | false =>
    rw [isReadonly] at reads
    rw [isReadonly, if_neg Bool.false_ne_true] at fits
    rw [if_neg Bool.false_ne_true]
    obtain ⟨x, met, crosses, given⟩ := reads.crosses fits
    obtain ⟨token, heads, -⟩ := reads.heads
    refine ⟨x, met, crosses.congr fun last comments => ?_, given⟩
    refine (typeMember_eq (reads.atName last comments) (reads.free last comments)).trans ?_
    rw [heads.lo_behind]
  | true =>
    rw [isReadonly] at reads
    rw [isReadonly, if_pos rfl, List.append_assoc] at fits
    rw [if_pos rfl]
    have word : Lexes "readonly".toList (.word "readonly") (' ' :: (m.form.chars ++ rest)) :=
      lexes_name (by decide) (apart_blank _)
    obtain ⟨x, met, crosses, given⟩ := reads.crosses fits.drop.blank
    obtain ⟨token, heads, -⟩ := reads.heads
    refine ⟨x, met, Crosses.behind_word word crosses fun last comments => ?_, given⟩
    refine (typeMember_readonly (word.heads.token_behind _ _ _ _) ?_ ?_).trans ?_
    · rw [word.next_behind, Cursor.facing_blank]
      exact reads.atName _ comments
    · rw [word.next_behind, Cursor.facing_blank]
      exact heads.lineBreak_behind _ _ _ _
    · rw [word.heads.lo_behind]

end MemberText

end Grammar

end DocLocale.Source
