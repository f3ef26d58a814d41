import DocLocale.Proofs.Source.TypeObjects
import Mathlib.Tactic.Common

/-!
Arrays and unions read from their texts by the grammar.
-/

set_option autoImplicit false
set_option relaxedAutoImplicit false

namespace DocLocale.Source

open Text (byteLength)
open Render (typeChars wrappedChars isCompound)

/-! ## Arrays of arrays -/

/-- The type that arrays of arrays are made of. -/
def innermost : TypeExpr → TypeExpr
  | .array e => innermost e
  | t => t

/-- How many arrays stand around the innermost type. -/
def layers : TypeExpr → Nat
  | .array e => layers e + 1
  | _ => 0

/-- A type in some arrays. -/
def layered : Nat → TypeExpr → TypeExpr
  | 0, t => t
  | n + 1, t => layered n (.array t)

/-- The brackets of some arrays. -/
def brackets : Nat → List Char
  | 0 => []
  | n + 1 => '[' :: ']' :: brackets n

theorem layered_array (n : Nat) (t : TypeExpr) : layered n (.array t) = .array (layered n t) := by
  induction n generalizing t with
  | zero => rfl
  | succ n ih => exact ih (.array t)

theorem layered_innermost : ∀ t, layered (layers t) (innermost t) = t
  | .array e => by rw [layers, innermost, layered, layered_array, layered_innermost e]
  | .basic _ | .literal _ | .function .. | .union _ | .tuple _ | .reference .. | .object _ => rfl

private theorem brackets_concat (n : Nat) : brackets n ++ ['[', ']'] = brackets (n + 1) := by
  induction n with
  | zero => rfl
  | succ n ih =>
    rw [brackets, List.cons_append, List.cons_append, ih]
    rfl

/-- The text of an operand: its innermost type, in parentheses if it has operators, and the brackets. -/
theorem wrappedChars_innermost : ∀ t, wrappedChars (isCompound t) t =
    wrappedChars (isCompound (innermost t)) (innermost t) ++ brackets (layers t)
  | .array e => by
    have inside := wrappedChars_innermost e
    rw [layers, innermost, ← brackets_concat, ← List.append_assoc, ← inside]
    exact Render.typeChars_array e
  | .basic _ | .literal _ | .function .. | .union _ | .tuple _ | .reference .. | .object _ =>
    (List.append_nil _).symm

theorem Readable.innermost : ∀ {t : TypeExpr}, Readable t → Readable (innermost t)
  | .array _, readable => readable.array.innermost
  | .basic _, readable | .literal _, readable | .function .., readable | .union _, readable | .tuple _, readable
  | .reference .., readable | .object _, readable => readable

theorem isAtom_innermost (t : TypeExpr) : Grammar.isAtom (innermost t) = !isCompound (innermost t) := by
  induction t using innermost.induct with
  | case1 e ih => exact ih
  | case2 t other => cases t <;> simp_all [innermost, Grammar.isAtom, isCompound]

namespace Grammar

variable {ctx : Context} {k : Knot} {pos : Nat} {rest : List Char}

private theorem suffix_pair {c : Cursor} {fuel : Nat} {t : TypeSpan} (opening : c.token = .symbol "[")
    (here : c.lineBreak = false) (closing : c.next.token = .symbol "]") :
    arrayType.suffix k (fuel + 1) t ctx c =
      arrayType.suffix k fuel ⟨.array t.type, t.lo, c.next.next.previousEnd⟩ ctx c.next.next := by
  simp [arrayType.suffix, spanning, Parse.isSymbol, Parse.lineBreak, Parse.advance, Parse.eat, Parse.previousEnd, opening,
    here, closing]

/-- The brackets behind a type are taken one pair after the other. -/
private theorem suffix_goes (follows : Follows memberTokens rest) : ∀ (n fuel : Nat) (t : TypeExpr) (lo pos : Nat),
    n ≤ fuel → Goes ctx (arrayType.suffix k fuel ⟨t, lo, pos⟩) pos (brackets n) rest
      ⟨layered n t, lo, pos + byteLength (brackets n)⟩
  | 0, fuel, t, lo, pos, _ => by
    obtain ⟨token, listed, shown⟩ := follows.shows
    have bracket : token ≠ .symbol "[" := by
      rintro rfl
      simp [memberTokens, stopTokens] at listed
    have ends : Sees ctx (arrayType.suffix k fuel ⟨t, lo, pos⟩) pos rest ⟨t, lo, pos⟩ := by
      cases fuel with
      | zero => exact .pure _ _ _
      | succ fuel => exact (shown.not_isSymbol bracket).bind (shown.sees_lineBreak.bind (.pure _ _ _))
    exact ends.goes
  | n + 1, 0, t, lo, pos, room => absurd room (by omega)
  | n + 1, fuel + 1, t, lo, pos, room => by
    have opening : Lexes ['['] (.symbol "[") (']' :: (brackets n ++ rest)) := lexes_mark (by simp [marks]) _
    have closing : Lexes [']'] (.symbol "]") (brackets n ++ rest) := lexes_mark (by simp [marks]) _
    have later := suffix_goes follows n fuel (.array t) lo (pos + byteLength ['['] + byteLength [']']) (by omega)
    have size : pos + byteLength (brackets (n + 1)) =
        pos + byteLength ['['] + byteLength [']'] + byteLength (brackets n) := by
      simp only [brackets, byteLength]
      omega
    intro comments
    have next := opening.next_facing pos pos comments
    have behind := closing.next_facing (pos + byteLength ['[']) (pos + byteLength ['[']) comments
    rw [List.singleton_append] at next behind
    obtain ⟨bracket, sameLine⟩ := opening.shows pos pos comments
    rw [List.singleton_append] at bracket sameLine
    have paired : (Cursor.facing pos pos comments ('[' :: ']' :: (brackets n ++ rest))).next.token = .symbol "]" := by
      rw [next]
      exact closing.token_facing _ _ comments
    rw [size, brackets, List.cons_append, List.cons_append, suffix_pair bracket sameLine paired, next, behind]
    exact later comments

/-- The innermost type of an operand is in parentheses if it has operators. -/
private theorem primaryType_wrapped {t : TypeExpr} (atom : isAtom t = !isCompound t) (readable : Readable t)
    (below : ReadsBelow k (byteLength (wrappedChars (isCompound t) t)))
    (fits : Fits ctx pos (wrappedChars (isCompound t) t ++ rest)) (follows : Follows atomTokens rest) :
    Takes ctx (primaryType k) pos (wrappedChars (isCompound t) t) rest
      ⟨t, pos, pos + byteLength (wrappedChars (isCompound t) t)⟩ := by
  cases compound : isCompound t with
  | false =>
    rw [compound] at atom below fits
    exact primaryType_atom atom readable below fits follows
  | true =>
    rw [compound] at below fits
    refine primaryType_group (below t ?_ readable) fits
    have parenthesis := '('.utf8Size_pos
    rw [wrappedChars, if_pos rfl, byteLength, Text.byteLength_append]
    omega

private theorem layers_le (n : Nat) : n ≤ byteLength (brackets n) := by
  induction n with
  | zero => exact Nat.zero_le _
  | succ n ih =>
    have bracket := '['.utf8Size_pos
    rw [brackets, byteLength, byteLength]
    omega

/-- The budget is enough for the brackets. -/
private theorem budget_layers (n : Nat) (fits : Fits ctx pos (brackets n ++ rest)) (comments : List Comment) :
    n ≤ ctx.size + 2 - (Cursor.facing pos pos comments (brackets n ++ rest)).lo := by
  cases n with
  | zero => exact Nat.zero_le _
  | succ n =>
    have bracket : Begins ('[' :: (']' :: brackets n ++ rest)) (.symbol "[") := begins_mark (by simp [marks]) _
    have start : (Cursor.facing pos pos comments (brackets (n + 1) ++ rest)).lo = pos := bracket.lo_facing pos pos comments
    have room := fits.room
    have short := layers_le (n + 1)
    rw [Text.byteLength_append] at room
    omega

theorem arrayType_takes {m : TypeExpr} (readable : Readable m)
    (below : ReadsBelow k (byteLength (wrappedChars (isCompound m) m)))
    (fits : Fits ctx pos (wrappedChars (isCompound m) m ++ rest)) (follows : Follows memberTokens rest) :
    Takes ctx (arrayType k) pos (wrappedChars (isCompound m) m) rest
      ⟨m, pos, pos + byteLength (wrappedChars (isCompound m) m)⟩ := by
  have inner : Follows atomTokens (brackets (layers m) ++ rest) := by
    cases layers m with
    | zero => exact follows.mono fun _ => List.mem_cons_of_mem _
    | succ n => exact follows_brackets (by simp [atomTokens]) _
  rw [wrappedChars_innermost m] at fits below ⊢
  rw [List.append_assoc] at fits
  have smaller : byteLength (wrappedChars (isCompound (innermost m)) (innermost m)) ≤
      byteLength (wrappedChars (isCompound (innermost m)) (innermost m) ++ brackets (layers m)) := by
    rw [Text.byteLength_append]
    omega
  have primary := primaryType_wrapped (isAtom_innermost m) readable.innermost (below.mono smaller) fits inner
  have loop : ∀ fuel p, layers m ≤ fuel → Goes ctx (arrayType.suffix k fuel ⟨innermost m, pos, p⟩) p
      (brackets (layers m)) rest ⟨m, pos, p + byteLength (brackets (layers m))⟩ := by
    intro fuel p room
    have taken : Goes ctx (arrayType.suffix k fuel ⟨innermost m, pos, p⟩) p _ rest _ :=
      suffix_goes follows (layers m) fuel (innermost m) pos p room
    rwa [layered_innermost] at taken
  rw [Text.byteLength_append, ← Nat.add_assoc]
  exact primary.bind_goes fun comments => loop _ _ (budget_layers (layers m) fits.drop comments) comments

/-! ### Operators -/

/-- The first token of an operand. -/
private theorem operand_begins {m : TypeExpr} (readable : Readable m) (follows : Follows memberTokens rest) :
    ∃ token, Begins (wrappedChars (isCompound m) m ++ rest) token ∧ isFirst token = true ∧
      ∀ w, token = .word w → isTypeWord w = true := by
  cases isCompound m with
  | true => exact ⟨.symbol "(", begins_mark (by simp [marks]) _, by decide, by simp⟩
  | false => exact (startsAs_typeChars readable follows).known

/-- A word that is an operator in front of a type. -/
private def typeOperator : Parse (Option Unit) := do
  match ← Parse.token with
  | .word w => if typeOperators.contains w then Parse.advance; return some () else return none
  | _ => return none

theorem operatorType_takes {m : TypeExpr} {nonConditional : Parse TypeSpan} (readable : Readable m)
    (below : ReadsBelow k (byteLength (wrappedChars (isCompound m) m)))
    (fits : Fits ctx pos (wrappedChars (isCompound m) m ++ rest)) (follows : Follows memberTokens rest) :
    Takes ctx (operatorType k nonConditional) pos (wrappedChars (isCompound m) m) rest
      ⟨m, pos, pos + byteLength (wrappedChars (isCompound m) m)⟩ := by
  obtain ⟨token, begins, first, known⟩ := operand_begins readable follows
  have infers : token ≠ .word "infer" := fun same => isTypeWord.ne (known _ same) (x := "infer") (by decide) rfl
  have operand := arrayType_takes readable below fits follows
  have none : Sees ctx (typeOperator) pos (wrappedChars (isCompound m) m ++ rest) none := by
    refine begins.shows.sees_token.bind ?_
    cases token with
    | word w =>
      have free : typeOperators.contains w = false := by
        have reserved : ∀ x ∈ typeOperators, isTypeWord x = false := by decide
        rw [List.contains_eq_mem, decide_eq_false_iff_not]
        exact fun listed => isTypeWord.ne (known w rfl) (reserved w listed) rfl
      simp only [free]
      exact .pure none _ _
    | _ => exact .pure none _ _
  exact begins.sees_position.bind_takes (none.repeated.bind_takes (begins.sees_position.bind_takes
    ((begins.shows.not_isWord infers).bind_takes (operand.bind_sees (.pure _ _ _)))))

/-- An operand alone. -/
private theorem operands_single {operator : String} {operand : Parse TypeSpan} {front : List Char} {span : TypeSpan}
    {first next : Token} (taken : Takes ctx operand pos front rest span) (begins : Begins (front ++ rest) first)
    (opens : first ≠ .symbol operator) (shown : Shows rest next) (ends : next ≠ .symbol operator) :
    Takes ctx (operands operator operand) pos front rest ([span], pos) := by
  have none : ∀ pos, Sees ctx (do
      if ← Parse.eat operator then return some (← operand) else return none) pos rest none := fun pos =>
    (shown.not_eat ends).bind (.pure none _ _)
  exact begins.sees_position.bind_takes ((begins.shows.not_eat opens).bind_takes
    (taken.bind_sees ((none _).repeated.bind (.pure _ _ _))))

/-- An intersection. -/
private def intersectionType (k : Knot) (nonConditional : Parse TypeSpan) : Parse TypeSpan := do
  match ← operands "&" (operatorType k nonConditional) with
  | ([t], _) => return t
  | (_, lo) => verbatim lo

private theorem unionType_eq (k : Knot) (nonConditional : Parse TypeSpan) :
    unionType k nonConditional = operands "|" (intersectionType k nonConditional) >>= fun
      | ([t], _) => pure t
      | (ts, lo) => spanning lo (.union (ts.map (·.type))) := rfl

private theorem intersectionType_takes {m : TypeExpr} {nonConditional : Parse TypeSpan} (readable : Readable m)
    (below : ReadsBelow k (byteLength (wrappedChars (isCompound m) m)))
    (fits : Fits ctx pos (wrappedChars (isCompound m) m ++ rest)) (follows : Follows memberTokens rest) :
    Takes ctx (intersectionType k nonConditional) pos (wrappedChars (isCompound m) m) rest
      ⟨m, pos, pos + byteLength (wrappedChars (isCompound m) m)⟩ := by
  obtain ⟨token, begins, first, -⟩ := operand_begins readable follows
  obtain ⟨next, listed, shown⟩ := follows.shows
  have opens : token ≠ .symbol "&" := by
    rintro rfl
    simp [isFirst] at first
  have ends : next ≠ .symbol "&" := by
    rintro rfl
    simp [memberTokens, stopTokens] at listed
  exact (operands_single (operatorType_takes readable below fits follows) begins opens shown ends).bind_sees (.pure _ _ _)

/-- A type that is no union and no function. -/
theorem unionType_operand {m : TypeExpr} {nonConditional : Parse TypeSpan} (readable : Readable m)
    (below : ReadsBelow k (byteLength (wrappedChars (isCompound m) m)))
    (fits : Fits ctx pos (wrappedChars (isCompound m) m ++ rest)) (follows : Follows stopTokens rest) :
    Takes ctx (unionType k nonConditional) pos (wrappedChars (isCompound m) m) rest
      ⟨m, pos, pos + byteLength (wrappedChars (isCompound m) m)⟩ := by
  have members : Follows memberTokens rest := follows.mono fun _ => List.mem_cons_of_mem _
  obtain ⟨token, begins, first, -⟩ := operand_begins readable members
  obtain ⟨next, listed, shown⟩ := follows.shows
  have opens : token ≠ .symbol "|" := by
    rintro rfl
    simp [isFirst] at first
  have ends : next ≠ .symbol "|" := by
    rintro rfl
    simp [stopTokens] at listed
  rw [unionType_eq]
  exact (operands_single (intersectionType_takes readable below fits members) begins opens shown ends).bind_sees
    (.pure _ _ _)

/-- The text of a member of a union. -/
private def memberChars (m : TypeExpr) : List Char := wrappedChars (isCompound m) m

/-- One round of the members of a union behind the first. -/
private def memberRound (operand : Parse TypeSpan) : Parse (Option TypeSpan) := do
  if ← Parse.eat "|" then return some (← operand) else return none

private theorem memberRound_takes (nonConditional : Parse TypeSpan) {m : TypeExpr} (readable : Readable m)
    (below : ReadsBelow k (byteLength (memberChars m))) (fits : Fits ctx pos ([' ', '|', ' '] ++ (memberChars m ++ rest)))
    (follows : Follows memberTokens rest) :
    ∃ span, Takes ctx (memberRound (intersectionType k nonConditional)) pos ([' ', '|', ' '] ++ memberChars m) rest
      (some span) ∧ span.type = m := by
  have bar : Takes ctx (Parse.eat "|") pos [' ', '|'] (' ' :: memberChars m ++ rest) true := (lexes_bar _).eat.blank
  have inside : Fits ctx (pos + byteLength [' ', '|']) (' ' :: (memberChars m ++ rest)) := Fits.drop (by exact fits)
  have member : Takes ctx (intersectionType k nonConditional) _ (' ' :: memberChars m) rest _ :=
    (intersectionType_takes readable below inside.blank follows).blank
  exact ⟨_, bar.bind (member.bind_sees (.pure _ _ _)), rfl⟩

private theorem memberRound_ends {operand : Parse TypeSpan} (follows : Follows stopTokens rest) :
    Sees ctx (memberRound operand) pos rest none := by
  obtain ⟨next, listed, shown⟩ := follows.shows
  have ends : next ≠ .symbol "|" := by
    rintro rfl
    simp [stopTokens] at listed
  exact (shown.not_eat ends).bind (.pure none _ _)

private theorem members_pieces (nonConditional : Parse TypeSpan) (follows : Follows stopTokens rest) :
    ∀ (m : TypeExpr) (ms : List TypeExpr) (pos : Nat), (∀ u ∈ m :: ms, Readable u) →
      (∀ u ∈ m :: ms, ReadsBelow k (byteLength (memberChars u))) →
      Fits ctx pos ([' ', '|', ' '] ++ ([' ', '|', ' '].intercalate ((m :: ms).map memberChars) ++ rest)) →
      ∃ spans, Pieces ctx (memberRound (intersectionType k nonConditional)) rest pos
        ([' ', '|', ' '] ++ [' ', '|', ' '].intercalate ((m :: ms).map memberChars)) spans ∧
        spans.map TypeSpan.type = m :: ms
  | m, [], pos, readable, below, fits => by
    rw [List.map_singleton, List.intercalate_singleton] at fits ⊢
    have members : Follows memberTokens rest := follows.mono fun _ => List.mem_cons_of_mem _
    obtain ⟨span, taken, same⟩ := memberRound_takes nonConditional (readable m (by simp)) (below m (by simp)) fits members
    exact ⟨[span], .last (by simp) taken (memberRound_ends follows), by simp [same]⟩
  | m, m' :: ms, pos, readable, below, fits => by
    have shape : [' ', '|', ' '] ++ [' ', '|', ' '].intercalate ((m :: m' :: ms).map memberChars) =
        ([' ', '|', ' '] ++ memberChars m) ++ ([' ', '|', ' '] ++ [' ', '|', ' '].intercalate ((m' :: ms).map memberChars)) := by
      simp [List.intercalate_cons_cons]
    rw [← List.append_assoc, shape, List.append_assoc, List.append_assoc] at fits
    rw [shape]
    obtain ⟨span, taken, same⟩ := memberRound_takes nonConditional (readable m (by simp)) (below m (by simp)) fits
      (follows_bar (by simp [memberTokens]) _)
    have behind : Fits ctx (pos + byteLength ([' ', '|', ' '] ++ memberChars m))
        ([' ', '|', ' '] ++ ([' ', '|', ' '].intercalate ((m' :: ms).map memberChars) ++ rest)) :=
      Fits.drop (by simpa using fits)
    obtain ⟨spans, pieces, later⟩ := members_pieces nonConditional follows m' ms _
      (fun u member => readable u (List.mem_cons_of_mem m member)) (fun u member => below u (List.mem_cons_of_mem m member))
      behind
    exact ⟨span :: spans, .cons (by simp) taken pieces, by simp [same, later]⟩

private theorem typeChars_members {ms : List TypeExpr} (members : ∀ m ∈ ms, Render.isUnion m = false) :
    typeChars (.union ms) = [' ', '|', ' '].intercalate (ms.map memberChars) := by
  have same : ms.map (fun m => wrappedChars (Render.isFunction m) m) = ms.map memberChars := by
    refine List.map_congr_left fun m member => ?_
    have other := members m member
    have operand : Render.isFunction m = isCompound m := by
      cases m <;> simp_all [Render.isUnion, Render.isFunction, isCompound]
    rw [operand, memberChars]
  rw [Render.typeChars_union, same]
  rfl

/-- The members of a union are read one after the other. -/
theorem unionType_union {ms : List TypeExpr} {nonConditional : Parse TypeSpan} (readable : Readable (.union ms))
    (below : ReadsBelow k (byteLength (typeChars (.union ms)))) (fits : Fits ctx pos (typeChars (.union ms) ++ rest))
    (follows : Follows stopTokens rest) :
    Takes ctx (unionType k nonConditional) pos (typeChars (.union ms)) rest
      ⟨.union ms, pos, pos + byteLength (typeChars (.union ms))⟩ := by
  obtain ⟨several, members⟩ := readable.union
  rw [typeChars_members fun m member => (members m member).1] at below fits ⊢
  match ms with
  | [] | [_] => simp at several
  | m :: m' :: ms =>
    have smaller : ∀ u ∈ m :: m' :: ms, ReadsBelow k (byteLength (memberChars u)) := fun u member =>
      below.mono (byteLength_le_intercalate _ (List.mem_map_of_mem (f := memberChars) member))
    have shape : [' ', '|', ' '].intercalate ((m :: m' :: ms).map memberChars) =
        memberChars m ++ ([' ', '|', ' '] ++ [' ', '|', ' '].intercalate ((m' :: ms).map memberChars)) := by
      simp [List.intercalate_cons_cons]
    rw [shape, List.append_assoc] at fits
    rw [shape]
    have next : Follows memberTokens ([' ', '|', ' '] ++ [' ', '|', ' '].intercalate ((m' :: ms).map memberChars) ++ rest) :=
      follows_bar (by simp [memberTokens]) _
    obtain ⟨token, begins, opens, -⟩ := operand_begins (members m (by simp)).2 next
    have first : Takes ctx (intersectionType k nonConditional) pos (memberChars m) _ _ :=
      intersectionType_takes (members m (by simp)).2 (smaller m (by simp)) fits next
    have behind : Fits ctx (pos + byteLength (memberChars m))
        ([' ', '|', ' '] ++ ([' ', '|', ' '].intercalate ((m' :: ms).map memberChars) ++ rest)) := by
      simpa using fits.drop
    obtain ⟨spans, pieces, types⟩ := members_pieces nonConditional follows m' ms _
      (fun u member => (members u (List.mem_cons_of_mem m member)).2)
      (fun u member => smaller u (List.mem_cons_of_mem m member)) behind
    have near : Near ([' ', '|', ' '] ++ [' ', '|', ' '].intercalate ((m' :: ms).map memberChars) ++ rest) :=
      (lexes_bar _).begins.near_blank
    have room := behind.room
    rw [← List.append_assoc, Text.byteLength_append] at room
    have later := pieces.repeated near (by omega)
    have bar : token ≠ .symbol "|" := by
      rintro rfl
      simp [isFirst] at opens
    have listed : Takes ctx (operands "|" (intersectionType k nonConditional)) pos
        (memberChars m ++ ([' ', '|', ' '] ++ [' ', '|', ' '].intercalate ((m' :: ms).map memberChars))) rest
        (⟨m, pos, pos + byteLength (memberChars m)⟩ :: spans, pos) :=
      begins.sees_position.bind_takes_append ((begins.shows.not_eat bar).bind_takes_append
        (first.bind (later.bind_sees (.pure _ _ _))))
    obtain ⟨span, spans, rfl⟩ : ∃ span others, spans = span :: others :=
      List.exists_cons_of_ne_nil (by rintro rfl; simp at types)
    rw [unionType_eq]
    refine listed.bind_stay fun comments => ?_
    rw [← types]
    rfl

end Grammar

end DocLocale.Source
