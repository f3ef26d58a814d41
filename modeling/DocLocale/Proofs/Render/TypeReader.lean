import DocLocale.Proofs.Render.TypeChars
import DocLocale.Source.Reference
import Mathlib.Tactic.Common

/-!
A reader for the texts of types made of plain names, quoted texts and digits. Parentheses open a function or a group,
and the reader tells them apart by the first name behind them.
-/

set_option autoImplicit false
set_option relaxedAutoImplicit false

namespace DocLocale.Render

open Source (after?)

/-- The characters of a plain name. -/
def isNameChar (c : Char) : Bool := c.isAlphanum || c == '_' || c == '$'

/-- The characters in front of the type of a slot. -/
def isSlotChar (c : Char) : Bool := isNameChar c || c == '.'

/-- A name of letters, digits, underscores and dollar signs that starts with no digit. -/
def isPlainName (cs : List Char) : Bool := !(cs.head?.all Char.isDigit) && cs.all isNameChar

/-- The name of a function's slot, which may be a rest parameter. -/
def isParameterName (cs : List Char) : Bool := isPlainName ((after? "...".toList cs).getD cs)

/-- A quoted text without quotes and escapes inside, or digits. -/
def isPlainLiteral : List Char → Bool
  | [] => false
  | '"' :: cs => cs.getLast? == some '"' && cs.dropLast.all fun c => c != '"' && c != '\\'
  | cs => cs.all Char.isDigit

/-- A name that stands for a declared type and for nothing built in. -/
def isTypeName (name : String) : Bool :=
  isPlainName name.toList && !(["true", "false"] ++ Basic.all.map Basic.keyword).contains name

/-- Whether a type is a union. -/
def isUnion : TypeExpr → Bool
  | .union _ => true
  | _ => false

mutual
/-- Types in the plain part of the grammar, with unions of two members at least and none directly inside another. -/
def legible : TypeExpr → Bool
  | .basic b => b != .integer && b != .float
  | .literal text => isPlainLiteral text.toList
  | .function generics params returns =>
    legibleGenerics generics && legibleSlots isParameterName params && legible returns
  | .union members => 2 ≤ members.length && !members.any isUnion && legibleAll members
  | .array element => legible element
  | .tuple elements => legibleAll elements
  | .reference name args => isTypeName name && legibleAll args
  | .object slots => legibleSlots isPlainName slots

/-- Lists of types in the plain part of the grammar. -/
def legibleAll : List TypeExpr → Bool
  | [] => true
  | t :: ts => legible t && legibleAll ts

/-- Generic parameters in the plain part of the grammar. -/
def legibleGenerics : List Generic → Bool
  | [] => true
  | .mk name none :: gs => isPlainName name.toList && legibleGenerics gs
  | .mk name (some c) :: gs => isPlainName name.toList && legible c && legibleGenerics gs

/-- Slots in the plain part of the grammar, with names of the given kind. -/
def legibleSlots (isName : List Char → Bool) : List Slot → Bool
  | [] => true
  | .mk name type _ :: ss => isName name.toList && legible type && legibleSlots isName ss
end

/-- What is read from the front of a text, and what follows it. -/
abbrev Reading (α : Type) := List Char → Option (α × List Char)

/-- Reads up to `n` items, one at least, with separators between. -/
def readItems {α : Type} (item : Reading α) (separator : List Char) : Nat → Reading (List α)
  | 0, _ => none
  | n + 1, cs => do
    let (a, cs) ← item cs
    match after? separator cs with
    | none => some ([a], cs)
    | some cs =>
      let (as, cs) ← readItems item separator n cs
      some (a :: as, cs)

/-- Reads up to `n` items with separators between and a closing mark behind. -/
def readList {α : Type} (item : Reading α) (separator closing : List Char) (n : Nat) : Reading (List α) := fun cs =>
  match after? closing cs with
  | some cs => some ([], cs)
  | none => do
    let (as, cs) ← readItems item separator n cs
    let cs ← after? closing cs
    some (as, cs)

/-- The type that a word alone stands for. -/
def wordType (word : List Char) : TypeExpr :=
  match Basic.all.find? fun b => b.keyword.toList == word with
  | some b => .basic b
  | none => .reference (String.ofList word) []

section
-- how types inside the one being read are read, and how many of them a list may hold
variable (type : Reading TypeExpr) (n : Nat)

/-- Reads a slot: its name, its mark and its type. -/
def readSlot : Reading Slot := fun cs =>
  let name := String.ofList (cs.takeWhile isSlotChar)
  match cs.dropWhile isSlotChar with
  | '?' :: ':' :: ' ' :: cs => (type cs).map fun (t, cs) => (.mk name t true, cs)
  | ':' :: ' ' :: cs => (type cs).map fun (t, cs) => (.mk name t false, cs)
  | _ => none

/-- Reads a generic parameter. -/
def readGeneric : Reading Generic := fun cs =>
  let name := String.ofList (cs.takeWhile isNameChar)
  match after? " extends ".toList (cs.dropWhile isNameChar) with
  | some cs => (type cs).map fun (c, cs) => (.mk name (some c), cs)
  | none => some (.mk name none, cs.dropWhile isNameChar)

/-- Reads the parameters and the result of a function. -/
def readSignature (generics : List Generic) : Reading TypeExpr := fun cs => do
  let cs ← after? ['('] cs
  let (params, cs) ← readList (readSlot type) [',', ' '] [')'] n cs
  let cs ← after? " => ".toList cs
  let (returns, cs) ← type cs
  some (.function generics params returns, cs)

/-- Reads a function. -/
def readFunction : Reading TypeExpr
  | '<' :: cs => do
    let (generics, cs) ← readList (readGeneric type) [',', ' '] ['>'] n cs
    readSignature type n generics cs
  | cs => readSignature type n [] cs

/-- Reads a keyword or a name with its arguments. -/
def readNamed : Reading TypeExpr := fun cs =>
  let word := cs.takeWhile isNameChar
  match cs.dropWhile isNameChar with
  | '<' :: cs => (readList type [',', ' '] ['>'] n cs).map fun (args, cs) => (.reference (String.ofList word) args, cs)
  | cs => some (wordType word, cs)

/-- Reads a type that is no array, no union and no function, unless it stands in parentheses. -/
def readAtom : Reading TypeExpr
  | '(' :: cs => do
    let (t, cs) ← type cs
    let cs ← after? [')'] cs
    some (t, cs)
  | '[' :: cs => (readList type [',', ' '] [']'] n cs).map fun (es, cs) => (.tuple es, cs)
  | '\x7b' :: '\x7d' :: cs => some (.object [], cs)
  | '\x7b' :: ' ' :: cs =>
    (readList (readSlot type) [';', ' '] [' ', '\x7d'] n cs).map fun (ss, cs) => (.object ss, cs)
  | '"' :: cs =>
    (after? ['"'] (cs.dropWhile (· != '"'))).map fun rest =>
      (.literal (String.ofList ('"' :: (cs.takeWhile (· != '"') ++ ['"']))), rest)
  | cs =>
    if cs.head?.any Char.isDigit then
      some (.literal (String.ofList (cs.takeWhile Char.isDigit)), cs.dropWhile Char.isDigit)
    else readNamed type n cs

end

/-- Reads the brackets of arrays behind a type. -/
def readArrays (t : TypeExpr) : List Char → TypeExpr × List Char
  | '[' :: ']' :: cs => readArrays (.array t) cs
  | cs => (t, cs)

/-- Reads a member of a union. -/
def readMember (type : Reading TypeExpr) (n : Nat) : Reading TypeExpr := fun cs =>
  (readAtom type n cs).map fun (t, cs) => readArrays t cs

/-- Whether a text behind an opening parenthesis starts as parameters do and not as a type does. -/
def opensParameters (cs : List Char) : Bool :=
  cs.head? == some ')' || ((cs.dropWhile isSlotChar).head?.any fun c => c == ':' || c == '?')

/-- Whether a text starts as a function does. -/
def opensFunction : List Char → Bool
  | '<' :: _ => true
  | '(' :: cs => opensParameters cs
  | _ => false

/-- The type with the given members. -/
def unionOf : List TypeExpr → TypeExpr
  | [t] => t
  | members => .union members

/-- Reads a type, given how the types inside it are read. -/
def readWith (type : Reading TypeExpr) (n : Nat) : Reading TypeExpr := fun cs =>
  if opensFunction cs then readFunction type n cs
  else (readItems (readMember type n) " | ".toList n cs).map fun (members, cs) => (unionOf members, cs)

/-- Reads a type down to the given depth. -/
def readType : Nat → Reading TypeExpr
  | 0 => fun _ => none
  | n + 1 => readWith (readType n) n

/-! ## Plain types -/

theorem legibleAll_iff (ts : List TypeExpr) : legibleAll ts = true ↔ ∀ t ∈ ts, legible t = true := by
  induction ts with
  | nil => simp [legibleAll]
  | cons t ts ih => simp [legibleAll, ih]

theorem legibleSlots_mem {isName : List Char → Bool} {ss : List Slot} (plain : legibleSlots isName ss = true)
    {name : String} {type : TypeExpr} {optional : Bool} (member : Slot.mk name type optional ∈ ss) :
    isName name.toList = true ∧ legible type = true := by
  induction ss with
  | nil => simp at member
  | cons s ss ih =>
    obtain ⟨first, t, o⟩ := s
    simp only [legibleSlots, Bool.and_eq_true] at plain
    rcases List.mem_cons.mp member with same | later
    · injection same with names types
      rw [names, types]
      exact plain.1
    · exact ih plain.2 later

theorem legibleGenerics_mem {gs : List Generic} (plain : legibleGenerics gs = true) {name : String}
    {constraint : Option TypeExpr} (member : Generic.mk name constraint ∈ gs) :
    isPlainName name.toList = true ∧ ∀ c ∈ constraint, legible c = true := by
  induction gs with
  | nil => simp at member
  | cons g gs ih =>
    obtain ⟨first, _ | c⟩ := g
    all_goals
      simp only [legibleGenerics, Bool.and_eq_true] at plain
      rcases List.mem_cons.mp member with same | later
    · injection same with names constraints
      simp [names, constraints, plain.1]
    · exact ih plain.2 later
    · injection same with names constraints
      simp [names, constraints, plain.1]
    · exact ih plain.2 later

theorem nameChars_of_isPlainName {cs : List Char} (plain : isPlainName cs = true) :
    ∃ c rest, cs = c :: rest ∧ c.isDigit = false ∧ ∀ d ∈ cs, isNameChar d = true := by
  cases cs with
  | nil => simp [isPlainName] at plain
  | cons c rest =>
    simp only [isPlainName, List.head?_cons, Option.all_some, Bool.and_eq_true, List.all_eq_true,
      Bool.not_eq_true'] at plain
    exact ⟨c, rest, rfl, plain⟩

/-! ## What follows a type -/

/-- Follows a name or a bracket. -/
def AtomEnds (cs : List Char) : Prop := ∀ c ∈ cs.head?, c ∈ [',', '>', ')', ';', ']', ' ', '[']

/-- Follows a member of a union. -/
structure MemberEnds (cs : List Char) : Prop where
  ends : AtomEnds cs
  noArray : cs.head? ≠ some '['

/-- Follows a whole type or a generic parameter. -/
structure TypeEnds (cs : List Char) : Prop extends MemberEnds cs where
  noUnion : after? " | ".toList cs = none
  noBound : after? " extends ".toList cs = none

theorem TypeEnds.nil : TypeEnds [] := ⟨⟨by simp [AtomEnds], by simp⟩, rfl, rfl⟩

theorem TypeEnds.mark {c : Char} (mark : c ∈ [',', '>', ')', ';', ']']) (cs : List Char) :
    TypeEnds (c :: cs) := by
  have apart : ∀ c ∈ [',', '>', ')', ';', ']'], c ∈ [',', '>', ')', ';', ']', ' ', '['] ∧ c ≠ '[' ∧ ' ' ≠ c := by
    simp
  obtain ⟨ends, noArray, blank⟩ := apart c mark
  exact ⟨⟨by simpa [AtomEnds] using ends, by simpa using noArray⟩, by simp [after?, blank], by simp [after?, blank]⟩

theorem TypeEnds.brace (cs : List Char) : TypeEnds (' ' :: '\x7d' :: cs) :=
  ⟨⟨by simp [AtomEnds], by simp⟩, by simp [after?], by simp [after?]⟩

private theorem AtomEnds.slot {cs : List Char} (ends : AtomEnds cs) : ∀ c ∈ cs.head?, isSlotChar c = false := by
  have apart : ∀ c ∈ [',', '>', ')', ';', ']', ' ', '['], isSlotChar c = false := by
    simp [isSlotChar, isNameChar]
  intro c first
  exact apart c (ends c first)

theorem AtomEnds.name {cs : List Char} (ends : AtomEnds cs) : ∀ c ∈ cs.head?, isNameChar c = false := by
  intro c first
  have apart := ends.slot c first
  rw [isSlotChar, Bool.or_eq_false_iff] at apart
  exact apart.1

theorem takeWhile_front {p : Char → Bool} {front cs : List Char} (all : ∀ c ∈ front, p c = true)
    (stops : ∀ c ∈ cs.head?, p c = false) : (front ++ cs).takeWhile p = front := by
  rw [List.takeWhile_append_of_pos all]
  cases cs with
  | nil => simp
  | cons c cs => simp [stops c rfl]

theorem dropWhile_front {p : Char → Bool} {front cs : List Char} (all : ∀ c ∈ front, p c = true)
    (stops : ∀ c ∈ cs.head?, p c = false) : (front ++ cs).dropWhile p = cs := by
  rw [List.dropWhile_append_of_pos all]
  cases cs with
  | nil => simp
  | cons c cs => simp [stops c rfl]

/-! ## How a type starts -/

/-- How the text of a type other than a function starts. -/
inductive Lead : List Char → Prop
  | word {front rest : List Char} (named : front ≠ []) (plain : ∀ c ∈ front, isNameChar c = true)
    (follows : rest.head? = some '<' ∨ AtomEnds rest) : Lead (front ++ rest)
  | mark {c : Char} (mark : c ∈ ['"', '[', '\x7b']) (rest : List Char) : Lead (c :: rest)
  | group {t : TypeExpr} (plain : legible t = true) (rest : List Char) :
    Lead ('(' :: (typeChars t ++ ')' :: rest))

private theorem AtomEnds.append {cs rest : List Char} (first : AtomEnds cs) (ends : AtomEnds rest) :
    AtomEnds (cs ++ rest) := by
  cases cs with
  | nil => exact ends
  | cons c cs => simpa [AtomEnds] using first

theorem Lead.append {cs rest : List Char} (lead : Lead cs) (ends : AtomEnds rest) : Lead (cs ++ rest) := by
  cases lead with
  | @word front cs named plain follows =>
    rw [List.append_assoc]
    refine .word named plain ?_
    rcases follows with generic | first
    · left
      cases cs <;> simp_all
    · exact .inr (first.append ends)
  | mark mark cs => exact .mark mark (cs ++ rest)
  | @group t plain cs =>
    have shape : '(' :: (typeChars t ++ ')' :: cs) ++ rest = '(' :: (typeChars t ++ ')' :: (cs ++ rest)) := by simp
    rw [shape]
    exact .group plain _

private theorem lead_wrappedChars {wanted : Bool} {t : TypeExpr} {rest : List Char} (plain : legible t = true)
    (lead : wanted = false → Lead (typeChars t)) (ends : AtomEnds rest) : Lead (wrappedChars wanted t ++ rest) := by
  cases wanted with
  | false => exact (lead rfl).append ends
  | true =>
    have shape : wrappedChars true t ++ rest = '(' :: (typeChars t ++ ')' :: rest) := by simp [wrappedChars]
    rw [shape]
    exact .group plain rest

private theorem lead_literal {cs : List Char} (plain : isPlainLiteral cs = true) : Lead cs := by
  unfold isPlainLiteral at plain
  split at plain
  · simp at plain
  · exact .mark (by simp) _
  · rename_i some _
    rw [← List.append_nil cs]
    refine .word some ?_ (.inr (by simp [AtomEnds]))
    intro c member
    simp [isNameChar, Char.isAlphanum, List.all_eq_true.mp plain c member]

private theorem lead_name {cs rest : List Char} (plain : isPlainName cs = true)
    (follows : rest.head? = some '<' ∨ AtomEnds rest) : Lead (cs ++ rest) := by
  obtain ⟨c, tail, shape, -, all⟩ := nameChars_of_isPlainName plain
  exact .word (by simp [shape]) all follows

theorem lead_typeChars : ∀ t, legible t = true → isFunction t = false → Lead (typeChars t)
  | .basic b, _, _ => by
    rw [typeChars_basic, ← List.append_nil b.keyword.toList]
    exact lead_name (by cases b <;> decide) (.inr (by simp [AtomEnds]))
  | .literal text, plain, _ => by
    rw [legible] at plain
    rw [typeChars_literal]
    exact lead_literal plain
  | .function .., _, other => by simp [isFunction] at other
  | .union [], plain, _ => by simp [legible] at plain
  | .union (m :: ms), plain, _ => by
    simp only [legible, legibleAll, Bool.and_eq_true] at plain
    have first := lead_typeChars m plain.2.1
    rw [typeChars_union]
    cases ms with
    | nil =>
      have whole : Lead (wrappedChars (isFunction m) m ++ []) :=
        lead_wrappedChars plain.2.1 first (by simp [AtomEnds])
      simpa using whole
    | cons m' ms =>
      rw [List.map_cons, List.map_cons, List.intercalate_cons_cons, List.append_assoc]
      exact lead_wrappedChars plain.2.1 first (by simp [AtomEnds])
  | .array e, plain, _ => by
    rw [legible] at plain
    rw [typeChars_array]
    refine lead_wrappedChars plain (fun loose => lead_typeChars e plain ?_) (by simp [AtomEnds])
    cases e <;> simp_all [isFunction, isCompound]
  | .tuple es, _, _ => by
    rw [typeChars_tuple]
    exact .mark (by simp) _
  | .reference name args, plain, _ => by
    simp only [legible, isTypeName, Bool.and_eq_true] at plain
    rw [typeChars_reference]
    refine lead_name plain.1.1 ?_
    split <;> simp [AtomEnds]
  | .object ss, _, _ => by
    rw [typeChars_object]
    split <;> exact .mark (by simp) _

/-- A function's text starts where its generics or its parameters open. -/
private theorem lead_or_opens {t : TypeExpr} (plain : legible t = true) :
    Lead (typeChars t) ∨ ∃ c cs, typeChars t = c :: cs ∧ c ∈ ['<', '('] := by
  cases function : isFunction t with
  | false => exact .inl (lead_typeChars t plain function)
  | true =>
    obtain ⟨gs, ps, r, rfl⟩ : ∃ gs ps r, t = .function gs ps r := by cases t <;> simp_all [isFunction]
    rw [typeChars_function]
    right
    split
    · exact ⟨'(', _, rfl, by simp⟩
    · exact ⟨'<', _, rfl, by simp⟩

theorem typeChars_cons {t : TypeExpr} (plain : legible t = true) :
    ∃ c cs, typeChars t = c :: cs ∧ (isNameChar c = true ∨ c ∈ ['"', '[', '\x7b', '<', '(']) := by
  rcases lead_or_opens plain with lead | ⟨c, cs, shape, mark⟩
  · generalize typeChars t = text at lead
    cases lead with
    | @word front rest named plain follows =>
      obtain ⟨c, front, rfl⟩ := List.exists_cons_of_ne_nil named
      exact ⟨c, front ++ rest, rfl, .inl (plain c (by simp))⟩
    | mark mark rest => exact ⟨_, rest, rfl, .inr (List.mem_append_left ['<', '('] mark)⟩
    | group plain rest => exact ⟨'(', _, rfl, .inr (by simp)⟩
  · exact ⟨c, cs, shape, .inr (List.mem_append_right ['"', '[', '\x7b'] mark)⟩

/-- A closing mark or a blank opens no type. -/
theorem after?_typeChars {t : TypeExpr} (plain : legible t = true) {c : Char}
    (closing : c ∈ [']', '>', ')', ' ']) (cs : List Char) : after? [c] (typeChars t ++ cs) = none := by
  obtain ⟨d, rest, shape, starts⟩ := typeChars_cons plain
  have apart : c ≠ d := by
    rintro rfl
    revert starts closing
    have closers : ∀ c ∈ [']', '>', ')', ' '],
        ¬ (isNameChar c = true ∨ c ∈ ['"', '[', '\x7b', '<', '(']) := by simp [isNameChar]
    exact fun closing => closers c closing
  simp [shape, after?, apart]

private theorem opensParameters_of_mark {c : Char} (mark : c ∈ ['"', '[', '\x7b', '<', '(']) (cs : List Char) :
    opensParameters (c :: cs) = false := by
  have apart : ∀ c ∈ ['"', '[', '\x7b', '<', '('], c ≠ ')' ∧ isSlotChar c = false ∧ c ≠ ':' ∧ c ≠ '?' := by
    simp [isSlotChar, isNameChar]
  obtain ⟨closes, stops, colon, question⟩ := apart c mark
  simp [opensParameters, closes, stops, colon, question]

private theorem opensParameters_of_name {front rest : List Char} (named : front ≠ [])
    (plain : ∀ c ∈ front, isNameChar c = true) (follows : rest.head? = some '<' ∨ AtomEnds rest) :
    opensParameters (front ++ rest) = false := by
  have slots : ∀ c ∈ front, isSlotChar c = true := fun c member => by simp [isSlotChar, plain c member]
  have marks : ∀ c ∈ rest.head?, isSlotChar c = false ∧ c ≠ ':' ∧ c ≠ '?' := by
    have apart : ∀ c ∈ ['<', ',', '>', ')', ';', ']', ' ', '['], isSlotChar c = false ∧ c ≠ ':' ∧ c ≠ '?' := by
      simp [isSlotChar, isNameChar]
    intro c first
    refine apart c ?_
    rcases follows with generic | ends
    · rw [generic, Option.mem_some_iff] at first
      simp [← first]
    · exact List.mem_cons_of_mem _ (ends c first)
  have stays : (front ++ rest).head? ≠ some ')' := by
    obtain ⟨c, front, rfl⟩ := List.exists_cons_of_ne_nil named
    have letter := plain c (by simp)
    rintro same
    simp at same
    subst same
    exact absurd letter (by decide)
  rw [opensParameters, dropWhile_front slots fun c first => (marks c first).1]
  cases rest with
  | nil => simpa using stays
  | cons c rest =>
    obtain ⟨-, colon, question⟩ := marks c rfl
    simpa [colon, question] using stays

private theorem opensParameters_typeChars {t : TypeExpr} (plain : legible t = true) {rest : List Char}
    (ends : AtomEnds rest) : opensParameters (typeChars t ++ rest) = false := by
  rcases lead_or_opens plain with lead | ⟨c, cs, shape, mark⟩
  · have whole := lead.append ends
    generalize typeChars t ++ rest = text at whole
    cases whole with
    | word named plain follows => exact opensParameters_of_name named plain follows
    | mark mark rest => exact opensParameters_of_mark (List.mem_append_left ['<', '('] mark) rest
    | group plain rest => exact opensParameters_of_mark (by simp) _
  · rw [shape]
    exact opensParameters_of_mark (List.mem_append_right ['"', '[', '\x7b'] mark) _

/-- Parentheses around a type do not look like parameters, so only functions look like functions. -/
theorem opensFunction_of_lead {cs : List Char} (lead : Lead cs) : opensFunction cs = false := by
  cases lead with
  | @word front rest named plain follows =>
    obtain ⟨c, front, rfl⟩ := List.exists_cons_of_ne_nil named
    have letter := plain c (by simp)
    rw [List.cons_append, opensFunction.eq_def]
    split
    · rename_i opening
      obtain ⟨rfl, -⟩ := List.cons.inj opening
      exact absurd letter (by decide)
    · rename_i opening
      obtain ⟨rfl, -⟩ := List.cons.inj opening
      exact absurd letter (by decide)
    · rfl
  | mark mark rest =>
    simp only [List.mem_cons, List.not_mem_nil, or_false] at mark
    rcases mark with rfl | rfl | rfl <;> rfl
  | group plain rest =>
    rw [opensFunction]
    exact opensParameters_typeChars plain (by simp [AtomEnds])

end DocLocale.Render
