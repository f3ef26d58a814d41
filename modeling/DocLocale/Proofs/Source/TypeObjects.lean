import DocLocale.Proofs.Source.TypeAtoms
import Mathlib.Tactic.Common

/-!
Object types, and all types without operators, read from their texts by the grammar.
-/

set_option autoImplicit false
set_option relaxedAutoImplicit false

namespace DocLocale.Source

open Text (byteLength)
open Render (isPlainName typeChars slotChars)

namespace Grammar

variable {ctx : Context} {k : Knot} {pos : Nat} {rest : List Char}

/-! ### Objects -/

theorem annotation?_takes {t : TypeExpr} (reads : Reads k t)
    (fits : Fits ctx pos (':' :: ' ' :: typeChars t ++ rest)) (follows : Follows stopTokens rest) :
    Takes ctx (annotation? k) pos (':' :: ' ' :: typeChars t) rest (some t) := by
  have colon : ∀ cs, Lexes [':'] (.symbol ":") cs := lexes_mark (by simp [marks])
  have type : Takes ctx k.type _ (' ' :: typeChars t) rest _ := (reads ctx _ rest fits.tail.blank follows).blank
  exact Takes.bind_cons (colon _).eat (type.bind_sees (.pure _ _ _))

/-- What stands behind the name of a slot: its mark and the colon. -/
inductive Marked : Bool → List Char → Prop
  | plain (cs : List Char) : Marked false (':' :: cs)
  | optional (cs : List Char) : Marked true ('?' :: ':' :: cs)

theorem Marked.lexes {optional : Bool} {cs : List Char} (marked : Marked optional cs) :
    Apart cs ∧ ∃ token, (token = .symbol ":" ∨ token = .symbol "?") ∧ Begins cs token := by
  cases marked with
  | plain cs =>
    have mark : (':', ":") ∈ marks := by simp [marks]
    exact ⟨apart_mark mark cs, .symbol ":", .inl rfl, begins_mark mark cs⟩
  | optional cs => exact ⟨apart_question _, .symbol "?", .inr rfl, (lexes_question cs).begins⟩

/-- Symbols that stand behind names and never behind modifiers. -/
def nameEnds : List Token := [.symbol ":", .symbol "?", .symbol "(", .symbol "<", .symbol ",", .symbol ">"]

/-- A word that is a name is no modifier. -/
theorem modifier?_eq_none {c : Cursor} (ends : c.next.token ∈ nameEnds) (allowed : List String) (blocks : Bool) :
    modifier? allowed blocks ctx c = .ok none c := by
  have other : followsModifier c.next = false ∧ (c.next.token == .symbol openBrace) = false := by
    simp only [nameEnds, List.mem_cons, List.not_mem_nil, or_false] at ends
    rcases ends with ends | ends | ends | ends | ends | ends <;> simp [followsModifier, ends, openBrace]
  simp only [modifier?, Parse.run_bind, Parse.token]
  cases c.token with
  | word w =>
    simp only [Parse.run_bind, Parse.peek, other.1, other.2, Bool.and_false, Parse.run_ite, Bool.false_eq_true,
      if_false, Parse.run_pure, ite_self]
  | _ => rfl

theorem eatParameterModifier_eq_false {c : Cursor} (ends : c.next.token ∈ nameEnds) :
    eatParameterModifier ctx c = .ok false c := by
  simp only [eatParameterModifier, Parse.run_bind, Parse.token]
  cases c.token with
  | word w =>
    simp only [nameEnds, List.mem_cons, List.not_mem_nil, or_false] at ends
    rcases ends with ends | ends | ends | ends | ends | ends <;> simp [Parse.peek, ends]
  | _ => rfl

theorem Marked.mem_nameEnds {optional : Bool} {cs : List Char} (marked : Marked optional cs) (last pos : Nat)
    (comments : List Comment) : (Cursor.facing last pos comments cs).token ∈ nameEnds := by
  obtain ⟨-, token, kind, begins⟩ := marked.lexes
  rw [(begins.shows _ _ _).1]
  rcases kind with rfl | rfl <;> simp [nameEnds]

private theorem modifier?_sees {w : String} {optional : Bool} {cs : List Char} {allowed : List String}
    (plain : isPlainName w.toList = true) (marked : Marked optional cs) :
    Sees ctx (modifier? allowed false) pos (w.toList ++ cs) none := by
  have lexes := lexes_name plain marked.lexes.1
  intro last comments
  refine modifier?_eq_none ?_ allowed false
  rw [lexes.next_facing]
  exact marked.mem_nameEnds _ _ comments

private theorem typeMemberName_fails {optional : Bool} {cs : List Char} (marked : Marked optional cs) :
    Fails ctx (typeMemberName k) pos cs := by
  obtain ⟨apart, token, kind, begins⟩ := marked.lexes
  have wordless : Fails ctx Parse.anyWord pos cs := begins.shows.not_anyWord (by rcases kind with rfl | rfl <;> simp)
  refine (begins.shows.not_eat (by rcases kind with rfl | rfl <;> simp)).bind_fails
    (begins.sees_position.bind_fails (begins.shows.sees_token.bind_fails ?_))
  rcases kind with rfl | rfl <;> exact wordless

private theorem accessorSignature_fails {w : String} {optional : Bool} {cs : List Char}
    (plain : isPlainName w.toList = true) (marked : Marked optional cs) :
    Fails ctx (accessorSignature k) pos (w.toList ++ cs) := by
  obtain ⟨apart, -⟩ := marked.lexes
  have lexes := lexes_name plain apart
  by_cases reads : w = "get"
  · subst reads
    exact lexes.eatWord.bind_fails (typeMemberName_fails marked).bind
  · refine (lexes.shows.not_eatWord (by simpa using reads)).bind_fails ?_
    by_cases writes : w = "set"
    · subst writes
      exact lexes.expectWord.bind_fails (typeMemberName_fails marked).bind
    · exact (lexes.shows.not_expectWord (by simpa using writes)).bind

private theorem typeMemberName_takes {w : String} {cs : List Char} (plain : isPlainName w.toList = true)
    (apart : Apart cs) : Takes ctx (typeMemberName k) pos w.toList cs w := by
  have lexes := lexes_name plain apart
  exact (lexes.shows.not_eat (by simp)).bind_takes (lexes.begins.sees_position.bind_takes
    (lexes.shows.sees_token.bind_takes lexes.anyWord))

/-- A member of an object type that starts with a name and a colon. -/
private def propertyTail (k : Knot) (lo : Nat) : Parse Member := do
  let name ← typeMemberName k
  let optional ← Parse.eat "?"
  let type ← annotation? k
  memberEnd
  return .property lo name (type.getD (.basic .any)) optional []

private theorem typeMember_property {w : String} {optional : Bool} {front cs : List Char} {member : Member}
    (plain : isPlainName w.toList = true) (marked : Marked optional cs) (shape : front ++ rest = w.toList ++ cs)
    (taken : Takes ctx (propertyTail k pos) pos front rest member) : Takes ctx (typeMember k) pos front rest member := by
  obtain ⟨apart, token, kind, begins⟩ := marked.lexes
  have lexes := lexes_name plain apart
  have modifier : Sees ctx (modifier? ["readonly"] false) pos (w.toList ++ cs) none := modifier?_sees plain marked
  have accessor : Sees ctx (Parse.attempt (accessorSignature k)) pos (w.toList ++ cs) none :=
    (accessorSignature_fails plain marked).attempt
  have unopened : ∀ last pos comments, ((Cursor.facing last pos comments cs).token == .symbol "(" ||
      (Cursor.facing last pos comments cs).token == .symbol "<") = false := by
    intro last pos comments
    rw [(begins.shows last pos comments).1]
    rcases kind with rfl | rfl <;> rfl
  intro last comments
  rw [← taken last comments, shape]
  simp only [typeMember, Parse.run_bind, Parse.position, Parse.cursor, lexes.lo_facing, lexes.token_facing,
    lexes.next_facing, unopened, Bool.and_false]
  simp [modifier last comments, accessor last comments, startsIndex, lexes.token_facing, Parse.cursor, propertyTail]
  rw [typeMemberName_takes plain apart last comments]
  have colon : ∀ cs, Begins (':' :: cs) (.symbol ":") := fun cs => begins_mark (by simp [marks]) cs
  have property : ∀ pos cs, Sees ctx (Parse.isOneOf ["(", "<"]) pos (':' :: cs) false := fun pos cs =>
    (colon cs).shows.isOneOf ["(", "<"]
  cases marked with
  | plain cs =>
    have unmarked : ∀ pos, Sees ctx (Parse.eat "?") pos (':' :: cs) false := fun pos =>
      (colon cs).shows.not_eat (by simp)
    simp only [unmarked _ _ _, property _ _ _ _, Bool.false_eq_true, if_false]
  | optional cs =>
    have marked : ∀ pos, Takes ctx (Parse.eat "?") pos ['?'] (':' :: cs) true := fun pos => (lexes_question cs).eat
    have passed := fun pos last comments => marked pos last comments
    simp only [List.singleton_append] at passed
    simp only [passed, property _ _ _ _, Bool.false_eq_true, if_false]

theorem eatSemicolon_takes : Takes ctx Parse.eatSemicolon pos [';'] rest true := fun last comments => by
  have lexes : Lexes [';'] (.symbol ";") rest := lexes_mark (by simp [marks]) rest
  rw [Parse.eatSemicolon, lexes.token_facing, if_pos (by simp), lexes.next_facing]

theorem expectSemicolon_takes : Takes ctx Parse.expectSemicolon pos [';'] rest () :=
  eatSemicolon_takes.bind_sees (.pure () _ _)

theorem memberEnd_semicolon : Takes ctx memberEnd pos [';'] rest () := by
  have lexes : Lexes [';'] (.symbol ";") rest := lexes_mark (by simp [marks]) rest
  exact (lexes.shows.not_eat (by simp)).bind_takes expectSemicolon_takes

private theorem memberEnd_brace : Sees ctx memberEnd pos (' ' :: '\x7d' :: rest) () := by
  have brace : Begins ('\x7d' :: rest) (.symbol "\x7d") := begins_mark (by simp [marks]) rest
  have shown := brace.shows.blank
  have ended : Sees ctx Parse.eatSemicolon pos (' ' :: '\x7d' :: rest) true := fun last comments => by
    rw [Parse.eatSemicolon, (shown _ _ _).1]
    rfl
  exact (shown.not_eat (by simp)).bind (ended.bind (.pure () _ _))

/-- A slot is read as a property, up to where the member ends. -/
private theorem typeMember_slot (ending : List Char) {name : String} {t : TypeExpr} {optional : Bool}
    (plain : isPlainName name.toList = true) (reads : Reads k t)
    (fits : Fits ctx pos (slotChars (.mk name t optional) ++ (ending ++ rest)))
    (follows : Follows stopTokens (ending ++ rest)) (ends : ∀ pos, Goes ctx memberEnd pos ending rest ()) :
    Takes ctx (typeMember k) pos (slotChars (.mk name t optional) ++ ending) rest
      (.property pos name t optional []) := by
  have finish : ∀ start, Fits ctx start (':' :: ' ' :: typeChars t ++ (ending ++ rest)) →
      Goes ctx (annotation? k >>= fun type => memberEnd >>= fun _ =>
        pure (Member.property pos name (type.getD (.basic .any)) optional [])) start
        (':' :: ' ' :: typeChars t ++ ending) rest (.property pos name t optional []) := fun start fits =>
    (annotation?_takes reads fits follows).goes.bind ((ends _).bind_sees (.pure _ _ _))
  cases optional with
  | false =>
    have shape : slotChars (.mk name t false) = name.toList ++ ':' :: ' ' :: typeChars t := by
      simp [slotChars]
    rw [shape, List.append_assoc] at fits ⊢
    have marked := Marked.plain (' ' :: typeChars t ++ ending ++ rest)
    obtain ⟨apart, token, -, begins⟩ := marked.lexes
    have colon : Shows ((':' :: ' ' :: typeChars t ++ ending) ++ rest) (.symbol ":") :=
      (begins_mark (by simp [marks]) _).shows
    refine typeMember_property plain marked (by simp) ((typeMemberName_takes plain ?_).bind_goes ?_)
    · simpa using apart
    · exact (colon.not_eat (by simp)).bind_goes (finish _ (by simpa using fits.drop))
  | true =>
    have shape : slotChars (.mk name t true) = name.toList ++ '?' :: ':' :: ' ' :: typeChars t := by
      simp [slotChars]
    rw [shape, List.append_assoc] at fits ⊢
    have marked := Marked.optional (' ' :: typeChars t ++ ending ++ rest)
    obtain ⟨apart, -⟩ := marked.lexes
    have question : Takes ctx (Parse.eat "?") (pos + byteLength name.toList) ['?']
        ((':' :: ' ' :: typeChars t ++ ending) ++ rest) true := (lexes_question _).eat
    refine typeMember_property plain marked (by simp) ((typeMemberName_takes plain ?_).bind_goes ?_)
    · simpa using apart
    · exact (question.bind_goes (finish _ (by simpa using fits.drop.tail))).goes

theorem slotChars_marked (name : String) (t : TypeExpr) (optional : Bool) (more : List Char) :
    ∃ cs, slotChars (.mk name t optional) ++ more = name.toList ++ cs ∧ Marked optional cs := by
  cases optional with
  | false => exact ⟨_, by simp [slotChars], .plain (' ' :: (typeChars t ++ more))⟩
  | true => exact ⟨_, by simp [slotChars], .optional (' ' :: (typeChars t ++ more))⟩

theorem slotChars_begins {name : String} (plain : isPlainName name.toList = true) (t : TypeExpr) (optional : Bool)
    (more : List Char) : Begins (slotChars (.mk name t optional) ++ more) (.word name) := by
  obtain ⟨cs, shape, marked⟩ := slotChars_marked name t optional more
  rw [shape]
  exact (lexes_name plain marked.lexes.1).begins

theorem slotChars_ne_nil (s : Slot) : slotChars s ≠ [] := by
  obtain ⟨name, t, optional⟩ := s
  simp [slotChars]

/-- One round of the members of an object type. -/
def memberStep (k : Knot) : Parse (Option Member) := do
  if ← Parse.isSymbol closeBrace then return none
  return some (← typeMember k)

/-- The names of slots are plain and their types are read. -/
def ReadsSlots (k : Knot) (ss : List Slot) : Prop :=
  ∀ name t optional, Slot.mk name t optional ∈ ss → isPlainName name.toList = true ∧ Reads k t

private theorem memberStep_rounds {ss : List Slot} (slots : ReadsSlots k ss) (rest : List Char) :
    Rounds ctx (memberStep k) slotChars (fun m s => slotOf? m = some s) ';' (' ' :: '\x7d' :: rest) ss where
  nonempty s _ := slotChars_ne_nil s
  begins := by
    rintro ⟨name, t, optional⟩ member
    obtain ⟨plain, -⟩ := slots name t optional member
    exact ⟨⟨_, slotChars_begins plain t optional _⟩, fun cs => ⟨_, slotChars_begins plain t optional _⟩⟩
  last := by
    rintro ⟨name, t, optional⟩ member pos fits
    obtain ⟨plain, reads⟩ := slots name t optional member
    have begins := slotChars_begins plain t optional (' ' :: '\x7d' :: rest)
    have follows : Follows stopTokens (' ' :: '\x7d' :: rest) := .blank_mark (s := "\x7d") (by simp [stopMarks]) rest
    have taken := typeMember_slot [] plain reads fits follows fun pos => memberEnd_brace.goes
    rw [List.append_nil] at taken
    exact ⟨_, (begins.shows.not_isSymbol (by simp)).bind_takes (taken.bind_sees (.pure _ _ _)), rfl⟩
  more := by
    rintro ⟨name, t, optional⟩ member pos cs fits
    obtain ⟨plain, reads⟩ := slots name t optional member
    have begins := slotChars_begins plain t optional (';' :: cs)
    have follows : Follows stopTokens (';' :: cs) := follows_mark (s := ";") (by simp [stopMarks]) cs
    have taken := typeMember_slot [';'] plain reads fits follows fun pos => memberEnd_semicolon.goes
    rw [← List.singleton_append, ← List.append_assoc] at begins
    exact ⟨_, (begins.shows.not_isSymbol (by simp)).bind_takes (taken.bind_sees (.pure _ _ _)), rfl⟩
  ends pos := by
    have brace : Shows ('\x7d' :: rest) (.symbol closeBrace) := (begins_mark (by simp [marks, closeBrace]) rest).shows
    exact brace.blank.isSymbol.bind (.pure _ _ _)

private theorem slotsOf?_given {ms : List Member} {ss : List Slot}
    (given : List.Forall₂ (fun m s => slotOf? m = some s) ms ss) : slotsOf? ms = some ss := by
  induction given with
  | nil => rfl
  | cons first later ih => rw [slotsOf?, first, ih]

theorem objectType_takes {ss : List Slot} (slots : ReadsSlots k ss) (fits : Fits ctx pos (typeChars (.object ss) ++ rest)) :
    Takes ctx (objectType k) pos (typeChars (.object ss)) rest
      ⟨.object ss, pos, pos + byteLength (typeChars (.object ss))⟩ := by
  have opening : ∀ cs, Lexes ['\x7b'] (.symbol openBrace) cs := lexes_mark (by simp [marks, openBrace])
  have closing : Lexes ['\x7d'] (.symbol closeBrace) rest := lexes_mark (by simp [marks, closeBrace]) rest
  rw [Render.typeChars_object] at fits ⊢
  by_cases empty : ss = []
  · rw [if_pos empty, empty]
    have ends : Sees ctx (memberStep k) (pos + byteLength ['\x7b']) ('\x7d' :: rest) none :=
      closing.shows.isSymbol.bind (.pure _ _ _)
    have members : Takes ctx (typeMembers k) pos ['\x7b', '\x7d'] rest [] :=
      Takes.bind_cons (opening _).expect ((Sees.repeated ends).bind_takes (closing.expect.bind_sees (.pure _ _ _)))
    exact Sees.bind_takes (opening _).begins.sees_position (members.bind_stay fun _ => rfl)
  · rw [if_neg empty] at fits ⊢
    rw [List.cons_append, List.cons_append, List.append_assoc] at fits
    obtain ⟨ms, listed, given⟩ := (memberStep_rounds slots rest).repeated_blank empty fits.tail
    have closes : ∀ pos, Takes ctx (Parse.expect closeBrace) pos [' ', '\x7d'] rest () := fun pos => closing.expect.blank
    have members : Takes ctx (typeMembers k) pos _ rest ms :=
      Takes.bind_cons (opening _).expect (listed.bind ((closes _).bind_sees (.pure _ _ _)))
    refine Sees.bind_takes (opening _).begins.sees_position (members.bind_stay fun _ => ?_)
    rw [slotsOf?_given given]
    rfl

/-! ### Types without operators -/

/-- The first slot of an object is its name, its mark and more. -/
private theorem slots_front (name : String) (t : TypeExpr) (optional : Bool) (ss : List Slot) (more : List Char) :
    ∃ cs, [';', ' '].intercalate ((Slot.mk name t optional :: ss).map slotChars) ++ more = name.toList ++ cs ∧
      Marked optional cs := by
  cases ss with
  | nil =>
    rw [List.map_singleton, List.intercalate_singleton]
    exact slotChars_marked name t optional more
  | cons s ss =>
    rw [List.map_cons, List.map_cons, List.intercalate_cons_cons, List.append_assoc, List.append_assoc]
    exact slotChars_marked name t optional _

private theorem startsMapped_object {ss : List Slot} (slots : ReadsSlots k ss) (last pos : Nat) (comments : List Comment)
    (rest : List Char) : startsMapped (.facing last pos comments (typeChars (.object ss) ++ rest)) = false := by
  have opening : ∀ cs, Lexes ['\x7b'] (.symbol "\x7b") cs := lexes_mark (by simp [marks])
  rw [Render.typeChars_object]
  cases ss with
  | nil =>
    have brace : Shows ('\x7d' :: rest) (.symbol "\x7d") := (begins_mark (by simp [marks]) rest).shows
    have next := (opening ('\x7d' :: rest)).next_facing last pos comments
    rw [List.singleton_append] at next
    simp [startsMapped, next, (brace _ _ _).1]
  | cons s ss =>
    obtain ⟨name, t, optional⟩ := s
    obtain ⟨plain, -⟩ := slots name t optional (by simp)
    obtain ⟨cs, shape, marked⟩ := slots_front name t optional ss ([' ', '\x7d'] ++ rest)
    obtain ⟨apart, token, kind, begins⟩ := marked.lexes
    have lexes := lexes_name plain apart
    have next := (opening (' ' :: (name.toList ++ cs))).next_facing last pos comments
    rw [List.singleton_append, Cursor.facing_blank] at next
    rw [if_neg (by simp), List.cons_append, List.cons_append, List.append_assoc, shape, startsMapped, next]
    have word := lexes.token_facing (pos + byteLength ['\x7b']) (pos + byteLength ['\x7b'] + 1) comments
    have later := lexes.next_facing (pos + byteLength ['\x7b']) (pos + byteLength ['\x7b'] + 1) comments
    generalize Cursor.facing _ _ comments (name.toList ++ cs) = c at word later
    -- a slot named like the modifier is none: its mark stands behind it
    have mark : c.next.token = token := by rw [later, (begins.shows _ _ _).1]
    by_cases modifier : name = "readonly"
    · rcases kind with rfl | rfl <;> simp [word, mark, modifier]
    · simp [word, modifier]

/-- The types with shorter texts than `n` bytes are read. -/
def ReadsBelow (k : Knot) (n : Nat) : Prop := ∀ u, byteLength (typeChars u) < n → Readable u → Reads k u

theorem ReadsBelow.mono {n n' : Nat} (below : ReadsBelow k n) (less : n' ≤ n) : ReadsBelow k n' :=
  fun u small => below u (Nat.lt_of_lt_of_le small less)

theorem byteLength_le_intercalate (separator : List Char) {x : List Char} {xs : List (List Char)} (member : x ∈ xs) :
    byteLength x ≤ byteLength (separator.intercalate xs) := by
  induction xs with
  | nil => simp at member
  | cons y ys ih =>
    cases ys with
    | nil => simp [List.mem_singleton.mp member]
    | cons z zs =>
      rw [List.intercalate_cons_cons, Text.byteLength_append, Text.byteLength_append]
      rcases List.mem_cons.mp member with rfl | later
      · omega
      · have inside := ih later
        omega

private theorem readsSlots_object {ss : List Slot} (readable : Readable (.object ss))
    (below : ReadsBelow k (byteLength (typeChars (.object ss)))) : ReadsSlots k ss := by
  intro name t optional member
  obtain ⟨named, type⟩ := readable.object member
  refine ⟨named, below t ?_ type⟩
  have listed := byteLength_le_intercalate [';', ' '] (List.mem_map_of_mem (f := slotChars) member)
  rw [Render.typeChars_object, if_neg (List.ne_nil_of_mem member)]
  simp only [slotChars, Text.byteLength_append, byteLength] at listed ⊢
  have blank := ' '.utf8Size_pos
  omega

/-- Types without operators, which need no parentheses. -/
def isAtom : TypeExpr → Bool
  | .basic _ | .literal _ | .tuple _ | .reference .. | .object _ => true
  | _ => false

private theorem primaryType_bracket {c : Cursor} (bracket : c.token = .symbol "[") :
    primaryType k ctx c = tupleType k ctx c := by
  simp only [primaryType, Parse.run_bind, Parse.position, Parse.cursor, bracket]
  rfl

private theorem primaryType_brace {c : Cursor} (brace : c.token = .symbol openBrace) (plain : startsMapped c = false) :
    primaryType k ctx c = objectType k ctx c := by
  simp only [primaryType, Parse.run_bind, Parse.position, Parse.cursor, brace, plain]
  rfl

/-- A type in parentheses. -/
private def groupType (k : Knot) : Parse TypeSpan := do
  let lo ← Parse.position
  Parse.advance
  let t ← k.type
  Parse.expect ")"
  spanning lo t.type

private theorem primaryType_parenthesis {c : Cursor} (parenthesis : c.token = .symbol "(") :
    primaryType k ctx c = groupType k ctx c := by
  simp only [primaryType, Parse.run_bind, Parse.position, Parse.cursor, parenthesis]
  rfl

theorem primaryType_tuple {es : List TypeExpr} (readable : Readable (.tuple es)) 
    (below : ReadsBelow k (byteLength (typeChars (.tuple es))))
    (fits : Fits ctx pos (typeChars (.tuple es) ++ rest)) :
    Takes ctx (primaryType k) pos (typeChars (.tuple es)) rest
      ⟨.tuple es, pos, pos + byteLength (typeChars (.tuple es))⟩ := by
  have members := readable.tuple
  have reads : ∀ t ∈ es, Reads k t := by
    intro t member
    refine below t ?_ (members t member)
    have listed := byteLength_le_intercalate [',', ' '] (List.mem_map_of_mem (f := typeChars) member)
    have bracket := '['.utf8Size_pos
    rw [Render.typeChars_tuple, byteLength, Text.byteLength_append]
    omega
  have taken := tupleType_takes members reads fits
  intro last comments
  rw [← taken last comments, primaryType_bracket]
  rw [Render.typeChars_tuple, List.cons_append]
  exact ((begins_mark (by simp [marks]) _).shows _ _ _).1

theorem primaryType_object {ss : List Slot} (readable : Readable (.object ss)) 
    (below : ReadsBelow k (byteLength (typeChars (.object ss)))) (fits : Fits ctx pos (typeChars (.object ss) ++ rest)) :
    Takes ctx (primaryType k) pos (typeChars (.object ss)) rest
      ⟨.object ss, pos, pos + byteLength (typeChars (.object ss))⟩ := by
  have slots := readsSlots_object readable below
  have brace : ∀ cs, Shows ('\x7b' :: cs) (.symbol openBrace) := fun cs =>
    (begins_mark (by simp [marks, openBrace]) cs).shows
  intro last comments
  rw [← objectType_takes slots fits last comments, primaryType_brace]
  · rw [Render.typeChars_object]
    split
    · exact (brace _ _ _ _).1
    · exact (brace _ _ _ _).1
  · exact startsMapped_object slots last pos comments rest

/-- A type in parentheses is read without them. -/
theorem primaryType_group {t : TypeExpr} (reads : Reads k t) (fits : Fits ctx pos ('(' :: (typeChars t ++ [')']) ++ rest)) :
    Takes ctx (primaryType k) pos ('(' :: (typeChars t ++ [')'])) rest
      ⟨t, pos, pos + byteLength ('(' :: (typeChars t ++ [')']))⟩ := by
  have opening : ∀ cs, Lexes ['('] (.symbol "(") cs := lexes_mark (by simp [marks])
  have closing : Lexes [')'] (.symbol ")") rest := lexes_mark (by simp [marks]) rest
  have follows : Follows stopTokens (')' :: rest) := follows_mark (s := ")") (by simp [stopMarks]) rest
  rw [List.cons_append, List.append_assoc] at fits
  have inner := reads ctx _ _ fits.tail follows
  have size : pos + byteLength ('(' :: (typeChars t ++ [')'])) =
      pos + byteLength ['('] + byteLength (typeChars t) + byteLength [')'] := by
    rw [← List.singleton_append, Text.byteLength_append, Text.byteLength_append]
    omega
  have taken : Takes ctx (groupType k) pos ('(' :: (typeChars t ++ [')'])) rest
      ⟨t, pos, pos + byteLength ['('] + byteLength (typeChars t) + byteLength [')']⟩ :=
    Sees.bind_takes (opening _).begins.sees_position
      (Takes.bind_cons (opening _).advance (inner.bind (closing.expect.bind_stay fun _ => rfl)))
  intro last comments
  have parenthesis : (Cursor.facing last pos comments ('(' :: (typeChars t ++ [')']) ++ rest)).token = .symbol "(" :=
    (opening _).token_facing last pos comments
  rw [primaryType_parenthesis parenthesis, taken last comments, size]

theorem primaryType_atom {t : TypeExpr} (atom : isAtom t = true) (readable : Readable t)
    (below : ReadsBelow k (byteLength (typeChars t))) (fits : Fits ctx pos (typeChars t ++ rest)) (follows : Follows atomTokens rest) :
    Takes ctx (primaryType k) pos (typeChars t) rest ⟨t, pos, pos + byteLength (typeChars t)⟩ := by
  cases t with
  | basic b =>
    rw [Render.typeChars_basic]
    exact primaryType_keyword readable.plain follows
  | literal text =>
    obtain ⟨plain, free⟩ := readable
    rw [Render.legible] at plain
    rw [unreserved] at free
    rw [Render.typeChars_literal] at fits ⊢
    have taken : Takes ctx (primaryType k) pos _ rest _ := primaryType_literal plain free fits follows
    rwa [String.ofList_toList] at taken
  | tuple es => exact primaryType_tuple readable below fits
  | reference name args =>
    obtain ⟨plain, free, members⟩ := readable.reference
    refine primaryType_reference plain free members (fun t member => below t ?_ (members t member)) fits follows
    have listed := byteLength_le_intercalate [',', ' '] (List.mem_map_of_mem (f := typeChars) member)
    have angle := '<'.utf8Size_pos
    rw [Render.typeChars_reference, if_neg (List.ne_nil_of_mem member), Text.byteLength_append, byteLength,
      Text.byteLength_append]
    omega
  | object ss => exact primaryType_object readable below fits
  | _ => simp [isAtom] at atom

end Grammar

end DocLocale.Source
