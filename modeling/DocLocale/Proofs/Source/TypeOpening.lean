import DocLocale.Proofs.Source.Following
import Mathlib.Tactic.Common

/-!
Types whose names the grammar takes for what they are, and the first tokens of their texts.
-/

set_option autoImplicit false
set_option relaxedAutoImplicit false

namespace DocLocale.Source

open Render (isPlainName typeChars)

/-! ## Names -/

/-- Words that mean something of their own in front of a type. -/
def typeWords : List String :=
  Basic.all.map Basic.keyword ++
    ["bigint", "symbol", "intrinsic", "keyof", "unique", "readonly", "infer", "abstract", "asserts"]

/-- A name that the grammar takes for a declared type. -/
def isFreeType (name : String) : Bool :=
  isReference name && !typeWords.contains name && (Basic.ofAlias? name).isNone

/-- A word that is a type alone: a keyword, or the name of a declared type. -/
def isTypeWord (w : String) : Bool := isFreeType w || (Basic.all.map Basic.keyword).contains w

theorem isTypeWord_keyword (b : Basic) : isTypeWord b.keyword = true := by cases b <;> decide

theorem isTypeWord_of_isFreeType {w : String} (free : isFreeType w = true) : isTypeWord w = true := by
  rw [isTypeWord, free, Bool.true_or]

theorem isTypeWord.ne {w x : String} (word : isTypeWord w = true) (reserved : isTypeWord x = false) : w ≠ x := by
  rintro rfl
  rw [reserved] at word
  exact Bool.false_ne_true word

/-- Words that stand in front of generic parameters. -/
def genericWords : List String :=
  ["public", "private", "protected", "readonly", "abstract", "const", "override", "in", "out"]

/-- A name that the grammar takes for a parameter. A rest parameter is not optional. -/
def isFreeParameter (name : List Char) (optional : Bool) : Bool :=
  match after? "...".toList name with
  | some name => isReference (String.ofList name) && !optional
  | none => isReference (String.ofList name)

mutual
/-- Whether the grammar takes every name of a type for what it is, and no text is broken by a line. -/
def unreserved : TypeExpr → Bool
  | .basic _ => true
  | .literal text => text.toList.all fun c => c != '\n' && c != '\r'
  | .function generics params returns =>
    unreservedGenerics generics && unreservedSlots isFreeParameter params && unreserved returns
  | .union members => unreservedAll members
  | .array element => unreserved element
  | .tuple elements => unreservedAll elements
  | .reference name args => isFreeType name && unreservedAll args
  | .object slots => unreservedSlots (fun _ _ => true) slots

/-- Lists of types with free names. -/
def unreservedAll : List TypeExpr → Bool
  | [] => true
  | t :: ts => unreserved t && unreservedAll ts

/-- Generic parameters with free names. -/
def unreservedGenerics : List Generic → Bool
  | [] => true
  | .mk name none :: gs => isReference name && !genericWords.contains name && unreservedGenerics gs
  | .mk name (some c) :: gs =>
    isReference name && !genericWords.contains name && unreserved c && unreservedGenerics gs

/-- Slots with names of the given kind. -/
def unreservedSlots (isFree : List Char → Bool → Bool) : List Slot → Bool
  | [] => true
  | .mk name type optional :: ss => isFree name.toList optional && unreserved type && unreservedSlots isFree ss
end

/-- A type that the grammar reads back from its text. -/
structure Readable (t : TypeExpr) : Prop where
  plain : Render.legible t = true
  free : unreserved t = true

theorem unreservedAll_iff (ts : List TypeExpr) : unreservedAll ts = true ↔ ∀ t ∈ ts, unreserved t = true := by
  induction ts with
  | nil => simp [unreservedAll]
  | cons t ts ih => simp [unreservedAll, ih]

theorem unreservedSlots_mem {isFree : List Char → Bool → Bool} {ss : List Slot}
    (free : unreservedSlots isFree ss = true) {name : String} {t : TypeExpr} {optional : Bool}
    (member : Slot.mk name t optional ∈ ss) : isFree name.toList optional = true ∧ unreserved t = true := by
  induction ss with
  | nil => simp at member
  | cons s ss ih =>
    obtain ⟨first, type, marked⟩ := s
    simp only [unreservedSlots, Bool.and_eq_true] at free
    rcases List.mem_cons.mp member with same | later
    · injection same with names types marks
      rw [names, types, marks]
      exact free.1
    · exact ih free.2 later

theorem unreservedGenerics_mem {gs : List Generic} (free : unreservedGenerics gs = true) {name : String}
    {constraint : Option TypeExpr} (member : Generic.mk name constraint ∈ gs) :
    genericWords.contains name = false ∧ ∀ c ∈ constraint, unreserved c = true := by
  induction gs with
  | nil => simp at member
  | cons g gs ih =>
    obtain ⟨first, _ | bound⟩ := g
    all_goals
      simp only [unreservedGenerics, Bool.and_eq_true, Bool.not_eq_true'] at free
      rcases List.mem_cons.mp member with same | later
    · injection same with names constraints
      rw [names, constraints]
      exact ⟨free.1.2, by simp⟩
    · exact ih free.2 later
    · injection same with names constraints
      rw [names, constraints]
      exact ⟨free.1.1.2, by simp [free.1.2]⟩
    · exact ih free.2 later

namespace Readable

theorem array {e : TypeExpr} (readable : Readable (.array e)) : Readable e := by
  obtain ⟨plain, free⟩ := readable
  rw [Render.legible] at plain
  rw [unreserved] at free
  exact ⟨plain, free⟩

theorem union {ms : List TypeExpr} (readable : Readable (.union ms)) :
    2 ≤ ms.length ∧ ∀ m ∈ ms, Render.isUnion m = false ∧ Readable m := by
  obtain ⟨plain, free⟩ := readable
  simp only [Render.legible, Bool.and_eq_true, decide_eq_true_eq, Bool.not_eq_true', List.any_eq_false,
    Bool.not_eq_true, Render.legibleAll_iff] at plain
  rw [unreserved, unreservedAll_iff] at free
  exact ⟨plain.1.1, fun m member => ⟨plain.1.2 m member, plain.2 m member, free m member⟩⟩

theorem tuple {es : List TypeExpr} (readable : Readable (.tuple es)) : ∀ t ∈ es, Readable t := by
  obtain ⟨plain, free⟩ := readable
  rw [Render.legible, Render.legibleAll_iff] at plain
  rw [unreserved, unreservedAll_iff] at free
  exact fun t member => ⟨plain t member, free t member⟩

theorem reference {name : String} {args : List TypeExpr} (readable : Readable (.reference name args)) :
    isPlainName name.toList = true ∧ isFreeType name = true ∧ ∀ t ∈ args, Readable t := by
  obtain ⟨plain, free⟩ := readable
  simp only [Render.legible, Render.isTypeName, Bool.and_eq_true, Render.legibleAll_iff] at plain
  rw [unreserved, Bool.and_eq_true, unreservedAll_iff] at free
  exact ⟨plain.1.1, free.1, fun t member => ⟨plain.2 t member, free.2 t member⟩⟩

theorem object {ss : List Slot} (readable : Readable (.object ss)) {name : String} {t : TypeExpr} {optional : Bool}
    (member : Slot.mk name t optional ∈ ss) : isPlainName name.toList = true ∧ Readable t := by
  obtain ⟨plain, free⟩ := readable
  rw [Render.legible] at plain
  rw [unreserved] at free
  obtain ⟨named, legible⟩ := Render.legibleSlots_mem plain member
  exact ⟨named, legible, (unreservedSlots_mem free member).2⟩

section
variable {gs : List Generic} {ps : List Slot} {r : TypeExpr}

theorem returns (readable : Readable (.function gs ps r)) : Readable r := by
  obtain ⟨plain, free⟩ := readable
  rw [Render.legible, Bool.and_eq_true] at plain
  rw [unreserved, Bool.and_eq_true] at free
  exact ⟨plain.2, free.2⟩

theorem generic (readable : Readable (.function gs ps r)) {name : String} {constraint : Option TypeExpr}
    (member : Generic.mk name constraint ∈ gs) :
    isPlainName name.toList = true ∧ genericWords.contains name = false ∧ ∀ c ∈ constraint, Readable c := by
  obtain ⟨plain, free⟩ := readable
  rw [Render.legible, Bool.and_eq_true, Bool.and_eq_true] at plain
  rw [unreserved, Bool.and_eq_true, Bool.and_eq_true] at free
  obtain ⟨named, legible⟩ := Render.legibleGenerics_mem plain.1.1 member
  obtain ⟨unmodified, unreserved⟩ := unreservedGenerics_mem free.1.1 member
  exact ⟨named, unmodified, fun c bound => ⟨legible c bound, unreserved c bound⟩⟩

theorem parameter (readable : Readable (.function gs ps r)) {name : String} {t : TypeExpr} {optional : Bool}
    (member : Slot.mk name t optional ∈ ps) :
    Render.isParameterName name.toList = true ∧ isFreeParameter name.toList optional = true ∧ Readable t := by
  obtain ⟨plain, free⟩ := readable
  rw [Render.legible, Bool.and_eq_true, Bool.and_eq_true] at plain
  rw [unreserved, Bool.and_eq_true, Bool.and_eq_true] at free
  obtain ⟨named, legible⟩ := Render.legibleSlots_mem plain.1.2 member
  obtain ⟨unmodified, unreserved⟩ := unreservedSlots_mem free.1.2 member
  exact ⟨named, unmodified, legible, unreserved⟩

end

end Readable

/-! ## How a type starts -/

/-- The first tokens of the text of a type that is no function. The first name, tuple or object is followed by an
operator or by one of the given tokens. -/
inductive Opens (tokens : List Token) : List Char → Prop
  | word {w : String} {after : List Char} (plain : isPlainName w.toList = true)
    (known : isTypeWord w = true) (follows : Follows (operatorTokens ++ tokens) after) :
    Opens tokens (w.toList ++ after)
  | literal {front after : List Char} {token : Token} (lexes : Lexes front token after)
    (kind : token = .number ∨ ∃ v, token = .string v) : Opens tokens (front ++ after)
  | tuple {es : List TypeExpr} {after : List Char} (readable : Readable (.tuple es))
    (follows : Follows (operatorTokens ++ tokens) after) : Opens tokens (typeChars (.tuple es) ++ after)
  | object {ss : List Slot} {after : List Char} (readable : Readable (.object ss))
    (follows : Follows (operatorTokens ++ tokens) after) : Opens tokens (typeChars (.object ss) ++ after)
  | group {t : TypeExpr} (readable : Readable t) (compound : Render.isCompound t = true) (after : List Char) :
    Opens tokens ('(' :: (typeChars t ++ ')' :: after))

theorem follows_bar {tokens : List Token} (listed : .symbol "|" ∈ tokens) (cs : List Char) :
    Follows tokens (" | ".toList ++ cs) :=
  ⟨apart_blank _, .symbol "|", listed, (lexes_bar cs).shows.blank⟩

theorem follows_brackets {tokens : List Token} (listed : .symbol "[" ∈ tokens) (cs : List Char) :
    Follows tokens ('[' :: ']' :: cs) :=
  ⟨apart_mark (s := "[") (by simp [marks]) _, .symbol "[", listed,
    (lexes_mark (s := "[") (by simp [marks]) (']' :: cs)).shows⟩

theorem lexes_literal {text rest : List Char} (plain : Render.isPlainLiteral text = true)
    (unbroken : (text.all fun c => c != '\n' && c != '\r') = true) (apart : Apart rest) :
    ∃ token, Lexes text token rest ∧ (token = .number ∨ ∃ v, token = .string v) := by
  simp only [List.all_eq_true, Bool.and_eq_true, bne_iff_ne] at unbroken
  unfold Render.isPlainLiteral at plain
  split at plain
  · simp at plain
  · rename_i body
    simp only [Bool.and_eq_true, beq_iff_eq, List.all_eq_true, bne_iff_ne] at plain
    obtain ⟨closing, inside⟩ := plain
    obtain ⟨inner, rfl⟩ := List.getLast?_eq_some_iff.mp closing
    rw [List.dropLast_concat] at inside
    refine ⟨_, lexes_quoted (fun c member => ?_) rest, .inr ⟨_, rfl⟩⟩
    exact ⟨(inside c member).1, (inside c member).2, unbroken c (by simp [member])⟩
  · rename_i nonempty _
    rw [List.all_eq_true] at plain
    exact ⟨.number, lexes_digits plain nonempty apart, .inl rfl⟩

section
variable {tokens : List Token}

private theorem opens_wrapped {t : TypeExpr} {wanted : Bool} {rest : List Char} (readable : Readable t)
    (compound : wanted = true → Render.isCompound t = true)
    (opens : wanted = false → Opens tokens (typeChars t ++ rest)) :
    Opens tokens (Render.wrappedChars wanted t ++ rest) := by
  cases wanted with
  | false => exact opens rfl
  | true =>
    have shape : Render.wrappedChars true t ++ rest = '(' :: (typeChars t ++ ')' :: rest) := by
      simp [Render.wrappedChars]
    rw [shape]
    exact .group readable (compound rfl) rest

theorem opens_typeChars : ∀ (t : TypeExpr) (rest : List Char), Readable t → Render.isFunction t = false →
    Follows (operatorTokens ++ tokens) rest → Opens tokens (typeChars t ++ rest)
  | .basic b, rest, readable, _, follows => by
    rw [Render.typeChars_basic]
    exact .word (by cases b <;> decide) (isTypeWord_keyword b) follows
  | .literal text, rest, readable, _, follows => by
    obtain ⟨plain, free⟩ := readable
    rw [Render.legible] at plain
    rw [unreserved] at free
    obtain ⟨token, lexes, kind⟩ := lexes_literal plain free follows.apart
    rw [Render.typeChars_literal]
    exact .literal lexes kind
  | .function .., _, _, other, _ => by simp [Render.isFunction] at other
  | .union [], _, readable, _, _ => by simpa using readable.union.1
  | .union (m :: ms), rest, readable, _, follows => by
    have member : Readable m := (readable.union.2 m (by simp)).2
    have compound : Render.isFunction m = true → Render.isCompound m = true := by
      cases m <;> simp [Render.isFunction, Render.isCompound]
    rw [Render.typeChars_union]
    cases ms with
    | nil =>
      rw [List.map_singleton, List.intercalate_singleton]
      exact opens_wrapped member compound fun loose => opens_typeChars m rest member loose follows
    | cons m' ms =>
      rw [List.map_cons, List.map_cons, List.intercalate_cons_cons, List.append_assoc, List.append_assoc]
      refine opens_wrapped member compound fun loose => opens_typeChars m _ member loose (follows_bar ?_ _)
      simp [operatorTokens]
  | .array e, rest, readable, _, follows => by
    have element := readable.array
    rw [Render.typeChars_array, List.append_assoc]
    refine opens_wrapped element id fun loose => opens_typeChars e _ element ?_ (follows_brackets ?_ rest)
    · cases e <;> simp_all [Render.isFunction, Render.isCompound]
    · simp [operatorTokens]
  | .tuple es, rest, readable, _, follows => .tuple readable follows
  | .reference name args, rest, readable, _, follows => by
    obtain ⟨plain, free, -⟩ := readable.reference
    rw [Render.typeChars_reference, List.append_assoc]
    by_cases bare : args = []
    · rw [if_pos bare]
      exact .word plain (isTypeWord_of_isFreeType free) follows
    · have angle : ('<', "<") ∈ marks := by simp [marks]
      rw [if_neg bare]
      refine .word plain (isTypeWord_of_isFreeType free) ⟨apart_mark angle _, .symbol "<", ?_, ?_⟩
      · simp [operatorTokens]
      · exact (lexes_mark angle _).shows
  | .object ss, rest, readable, _, follows => .object readable follows

/-- The first member of a union is followed by an operator. -/
theorem opens_union {ms : List TypeExpr} (readable : Readable (.union ms)) (rest : List Char) :
    Opens [] (typeChars (.union ms) ++ rest) := by
  match ms with
  | [] | [_] => simpa using readable.union.1
  | m :: m' :: ms =>
    have member : Readable m := (readable.union.2 m (by simp)).2
    rw [Render.typeChars_union, List.map_cons, List.map_cons, List.intercalate_cons_cons, List.append_assoc,
      List.append_assoc]
    refine opens_wrapped member ?_ fun loose => opens_typeChars m _ member loose (follows_bar ?_ _)
    · cases m <;> simp [Render.isFunction, Render.isCompound]
    · simp [operatorTokens]

/-- Tokens that a type can start with. -/
def isFirst : Token → Bool
  | .word _ | .number | .string _ => true
  | .symbol s => ["[", "\x7b", "(", "<"].contains s
  | _ => false

/-- The text of a type starts with a word that an operator or what follows the type stands behind, or with no word. -/
def StartsAs (tokens : List Token) (cs : List Char) : Prop :=
  (∃ w after, cs = w.toList ++ after ∧ isPlainName w.toList = true ∧ isTypeWord w = true ∧
    Follows (operatorTokens ++ tokens) after) ∨
  ∃ front token after, cs = front ++ after ∧ Lexes front token after ∧ isFirst token = true ∧ ∀ w, token ≠ .word w

private theorem startsAs_mark {c : Char} {s : String} (mark : (c, s) ∈ marks) (first : isFirst (.symbol s) = true)
    (cs : List Char) : StartsAs tokens (c :: cs) :=
  .inr ⟨[c], .symbol s, cs, rfl, lexes_mark mark cs, first, by simp⟩

theorem Opens.startsAs {cs : List Char} (opens : Opens tokens cs) : StartsAs tokens cs := by
  cases opens with
  | word plain known follows => exact .inl ⟨_, _, rfl, plain, known, follows⟩
  | literal lexes kind =>
    refine .inr ⟨_, _, _, rfl, lexes, ?_⟩
    rcases kind with rfl | ⟨v, rfl⟩ <;> simp [isFirst]
  | tuple readable follows =>
    rw [Render.typeChars_tuple, List.cons_append]
    exact startsAs_mark (s := "[") (by simp [marks]) (by decide) _
  | object readable follows =>
    rw [Render.typeChars_object]
    split <;> exact startsAs_mark (s := "\x7b") (by simp [marks]) (by decide) _
  | group readable compound after => exact startsAs_mark (s := "(") (by simp [marks]) (by decide) _

theorem startsAs_typeChars {t : TypeExpr} {rest : List Char} (readable : Readable t) (follows : Follows tokens rest) :
    StartsAs tokens (typeChars t ++ rest) := by
  cases function : Render.isFunction t with
  | false =>
    have more : Follows (operatorTokens ++ tokens) rest := follows.mono fun _ => List.mem_append_right _
    exact (opens_typeChars t rest readable function more).startsAs
  | true =>
    obtain ⟨gs, ps, r, rfl⟩ : ∃ gs ps r, t = .function gs ps r := by cases t <;> simp_all [Render.isFunction]
    rw [Render.typeChars_function]
    split
    · exact startsAs_mark (s := "(") (by simp [marks]) (by decide) _
    · exact startsAs_mark (s := "<") (by simp [marks]) (by decide) _

theorem StartsAs.known {cs : List Char} (starts : StartsAs tokens cs) :
    ∃ token, Begins cs token ∧ isFirst token = true ∧ ∀ w, token = .word w → isTypeWord w = true := by
  rcases starts with ⟨w, after, rfl, plain, known, follows⟩ | ⟨front, token, after, rfl, lexes, first, wordless⟩
  · refine ⟨.word w, (lexes_name plain follows.apart).begins, rfl, ?_⟩
    rintro v same
    injection same with same
    rwa [← same]
  · exact ⟨token, lexes.begins, first, fun w word => absurd word (wordless w)⟩

theorem StartsAs.first {cs : List Char} (starts : StartsAs tokens cs) :
    ∃ token, isFirst token = true ∧ Begins cs token := by
  obtain ⟨token, begins, first, -⟩ := starts.known
  exact ⟨token, first, begins⟩

end

end DocLocale.Source
