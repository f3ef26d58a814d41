import DocLocale.Proofs.Render.TypeReader
import Mathlib.Tactic.Common

/-!
Texts of types read back. The reader gives every plain type back from its text, so no two of them share one.
-/

set_option autoImplicit false
set_option relaxedAutoImplicit false

namespace DocLocale.Render

open Source (after? after?_append eq_append_of_after?)

/-! ## Lists -/

private theorem readItems_intercalate {α : Type} {item : Reading α} {chars : α → List Char} {separator rest : List Char}
    {stops : List Char → Prop} (between : ∀ cs, stops (separator ++ cs)) (last : stops rest)
    (apart : after? separator rest = none) :
    ∀ (x : α) (xs : List α) (n : Nat), xs.length < n →
      (∀ y ∈ x :: xs, ∀ cs, stops cs → item (chars y ++ cs) = some (y, cs)) →
      readItems item separator n (separator.intercalate ((x :: xs).map chars) ++ rest) = some (x :: xs, rest)
  | x, [], n + 1, _, each => by
    have first := each x (by simp) rest last
    simp [readItems, first, apart]
  | x, y :: xs, n + 1, room, each => by
    have first := fun cs => each x (by simp) (separator ++ cs) (between cs)
    have later := readItems_intercalate between last apart y xs n (by simpa using room)
      fun z member => each z (List.mem_cons_of_mem x member)
    rw [List.map_cons] at later
    simp [readItems, List.intercalate_cons_cons, first, after?_append, later]

private theorem readList_intercalate {α : Type} {item : Reading α} {chars : α → List Char}
    {separator closing rest : List Char} {xs : List α} {n : Nat} (room : xs.length ≤ n)
    (each : ∀ x ∈ xs, ∀ cs, TypeEnds cs → item (chars x ++ cs) = some (x, cs))
    (opens : ∀ x ∈ xs, ∀ cs, after? closing (chars x ++ cs) = none)
    (between : ∀ cs, TypeEnds (separator ++ cs)) (last : TypeEnds (closing ++ rest))
    (apart : after? separator (closing ++ rest) = none) :
    readList item separator closing n (separator.intercalate (xs.map chars) ++ (closing ++ rest)) =
      some (xs, rest) := by
  cases xs with
  | nil => simp [readList, after?_append]
  | cons x xs =>
    have items := readItems_intercalate between last apart x xs n room each
    have nonempty : after? closing (separator.intercalate ((x :: xs).map chars) ++ (closing ++ rest)) = none := by
      cases xs with
      | nil => simpa using opens x (by simp) (closing ++ rest)
      | cons y xs => simpa [List.intercalate_cons_cons] using opens x (by simp) _
    rw [readList, nonempty, items]
    simp [after?_append]

/-! ## Reading -/

/-- A reader gives back a type from its text, whatever may follow it. -/
def Reads (type : Reading TypeExpr) (t : TypeExpr) : Prop :=
  ∀ rest, TypeEnds rest → type (typeChars t ++ rest) = some (t, rest)

section
variable {type : Reading TypeExpr} {n : Nat} {rest : List Char}

private theorem readSlot_slotChars {name : String} {t : TypeExpr} (optional : Bool)
    (named : ∀ c ∈ name.toList, isSlotChar c = true) (reads : Reads type t) (ends : TypeEnds rest) :
    readSlot type (slotChars (.mk name t optional) ++ rest) = some (.mk name t optional, rest) := by
  cases optional with
  | false =>
    have shape : slotChars (.mk name t false) ++ rest = name.toList ++ ':' :: ' ' :: (typeChars t ++ rest) := by
      simp [slotChars]
    have stops : ∀ c ∈ (':' :: ' ' :: (typeChars t ++ rest)).head?, isSlotChar c = false := by simp; rfl
    rw [shape, readSlot, takeWhile_front named stops, dropWhile_front named stops]
    simp [reads rest ends]
  | true =>
    have shape : slotChars (.mk name t true) ++ rest = name.toList ++ '?' :: ':' :: ' ' :: (typeChars t ++ rest) := by
      simp [slotChars]
    have stops : ∀ c ∈ ('?' :: ':' :: ' ' :: (typeChars t ++ rest)).head?, isSlotChar c = false := by simp; rfl
    rw [shape, readSlot, takeWhile_front named stops, dropWhile_front named stops]
    simp [reads rest ends]

private theorem readGeneric_genericChars {name : String} {constraint : Option TypeExpr}
    (named : ∀ c ∈ name.toList, isNameChar c = true) (reads : ∀ c ∈ constraint, Reads type c) (ends : TypeEnds rest) :
    readGeneric type (genericChars (.mk name constraint) ++ rest) = some (.mk name constraint, rest) := by
  cases constraint with
  | none =>
    rw [genericChars, readGeneric, takeWhile_front named ends.ends.name, dropWhile_front named ends.ends.name,
      ends.noBound]
    simp
  | some c =>
    have stops : ∀ d ∈ (" extends ".toList ++ (typeChars c ++ rest)).head?, isNameChar d = false := by simp; rfl
    rw [genericChars, List.append_assoc, List.append_assoc, readGeneric, takeWhile_front named stops,
      dropWhile_front named stops, after?_append]
    simp [reads c rfl rest ends]

private theorem length_le_sizeOf {α : Type} [SizeOf α] (xs : List α) : xs.length ≤ sizeOf xs := by
  induction xs with
  | nil => simp
  | cons x xs ih =>
    simp only [List.length_cons, List.cons.sizeOf_spec]
    omega

private theorem readList_types {ts : List TypeExpr} {closing : Char} (mark : closing ∈ [']', '>'])
    (room : sizeOf ts ≤ n) (plain : legibleAll ts = true)
    (inner : ∀ u, sizeOf u < sizeOf ts → legible u = true → Reads type u) :
    readList type [',', ' '] [closing] n ([',', ' '].intercalate (ts.map typeChars) ++ ([closing] ++ rest)) =
      some (ts, rest) := by
  rw [legibleAll_iff] at plain
  refine readList_intercalate (Nat.le_trans (length_le_sizeOf ts) room) ?_ ?_ ?_ ?_ ?_
  · intro t member cs ends
    exact inner t (List.sizeOf_lt_of_mem member) (plain t member) cs ends
  · intro t member cs
    exact after?_typeChars (plain t member) (List.mem_append_left [')', ' '] mark) cs
  · intro cs
    exact .mark (by simp) (' ' :: cs)
  · refine .mark ?_ rest
    revert mark
    simp
    tauto
  · have apart : ',' ≠ closing := by
      rintro rfl
      simp at mark
    simp [after?, apart]

private theorem readList_slots {ss : List Slot} {isName : List Char → Bool} {separator closing : List Char}
    (room : sizeOf ss ≤ n) (plain : legibleSlots isName ss = true)
    (names : ∀ cs, isName cs = true → ∃ c rest, cs = c :: rest ∧ ∀ d ∈ cs, isSlotChar d = true)
    (inner : ∀ u, sizeOf u < sizeOf ss → legible u = true → Reads type u)
    (between : ∀ cs, TypeEnds (separator ++ cs)) (last : TypeEnds (closing ++ rest))
    (apart : after? separator (closing ++ rest) = none)
    (mark : ∀ c ∈ closing.head?, isSlotChar c = false) (closes : closing ≠ []) :
    readList (readSlot type) separator closing n (separator.intercalate (ss.map slotChars) ++ (closing ++ rest)) =
      some (ss, rest) := by
  refine readList_intercalate (Nat.le_trans (length_le_sizeOf ss) room) ?_ ?_ between last apart
  · rintro ⟨name, t, optional⟩ member cs ends
    obtain ⟨named, legible⟩ := legibleSlots_mem plain member
    obtain ⟨-, -, -, all⟩ := names _ named
    have smaller : sizeOf t < sizeOf ss := by
      have listed := List.sizeOf_lt_of_mem member
      simp only [Slot.mk.sizeOf_spec] at listed
      omega
    exact readSlot_slotChars optional all (inner t smaller legible) ends
  · rintro ⟨name, t, optional⟩ member cs
    obtain ⟨c, tail, shape, all⟩ := names _ (legibleSlots_mem plain member).1
    obtain ⟨d, closing, rfl⟩ := List.exists_cons_of_ne_nil closes
    have other : d ≠ c := by
      rintro rfl
      have slot := all d (by simp [shape])
      simp [mark d rfl] at slot
    simp [slotChars, shape, after?, other]

private theorem readList_generics {gs : List Generic} (room : sizeOf gs ≤ n) (plain : legibleGenerics gs = true)
    (inner : ∀ u, sizeOf u < sizeOf gs → legible u = true → Reads type u) :
    readList (readGeneric type) [',', ' '] ['>'] n ([',', ' '].intercalate (gs.map genericChars) ++ (['>'] ++ rest)) =
      some (gs, rest) := by
  refine readList_intercalate (Nat.le_trans (length_le_sizeOf gs) room) ?_ ?_ ?_ ?_ ?_
  · rintro ⟨name, constraint⟩ member cs ends
    obtain ⟨named, legible⟩ := legibleGenerics_mem plain member
    obtain ⟨-, -, -, -, all⟩ := nameChars_of_isPlainName named
    refine readGeneric_genericChars all ?_ ends
    rintro c rfl
    refine inner c ?_ (legible c rfl)
    have listed := List.sizeOf_lt_of_mem member
    simp only [Generic.mk.sizeOf_spec, Option.some.sizeOf_spec] at listed
    omega
  · rintro ⟨name, constraint⟩ member cs
    obtain ⟨c, tail, shape, -, all⟩ := nameChars_of_isPlainName (legibleGenerics_mem plain member).1
    have other : '>' ≠ c := by
      rintro rfl
      have letter := all '>' (by simp [shape])
      exact absurd letter (by decide)
    cases constraint <;> simp [genericChars, shape, after?, other]
  · intro cs
    exact .mark (by simp) (' ' :: cs)
  · exact .mark (by simp) rest
  · simp [after?]

private theorem slotChars_of_isPlainName (cs : List Char) (plain : isPlainName cs = true) :
    ∃ c rest, cs = c :: rest ∧ ∀ d ∈ cs, isSlotChar d = true := by
  obtain ⟨c, rest, shape, -, all⟩ := nameChars_of_isPlainName plain
  exact ⟨c, rest, shape, fun d member => by simp [isSlotChar, all d member]⟩

private theorem slotChars_of_isParameterName (cs : List Char) (plain : isParameterName cs = true) :
    ∃ c rest, cs = c :: rest ∧ ∀ d ∈ cs, isSlotChar d = true := by
  rw [isParameterName] at plain
  cases dots : after? "...".toList cs with
  | none =>
    rw [dots] at plain
    exact slotChars_of_isPlainName cs plain
  | some name =>
    rw [dots] at plain
    obtain ⟨-, -, -, all⟩ := slotChars_of_isPlainName name plain
    rw [eq_append_of_after? dots]
    refine ⟨'.', '.' :: '.' :: name, rfl, ?_⟩
    intro d member
    rcases List.mem_append.mp member with dot | named
    · have dotted : ∀ d ∈ "...".toList, isSlotChar d = true := by simp [isSlotChar]
      exact dotted d dot
    · exact all d named

/-! ### Atoms -/

private theorem wordType_keyword {b : Basic} (plain : legible (.basic b) = true) :
    wordType b.keyword.toList = .basic b := by
  cases b <;> simp_all [legible] <;> rfl

private theorem wordType_name {name : String} (plain : isTypeName name = true) :
    wordType name.toList = .reference name [] := by
  have unknown : (Basic.all.find? fun b => b.keyword.toList == name.toList) = none := by
    simp only [isTypeName, Bool.and_eq_true, Bool.not_eq_true', List.contains_eq_mem, decide_eq_false_iff_not,
      List.mem_append, List.mem_map, not_or, not_exists] at plain
    simp only [List.find?_eq_none, beq_iff_eq, String.toList_inj]
    intro b listed same
    exact plain.2.2 b ⟨listed, same⟩
  rw [wordType, unknown, String.ofList_toList]

private theorem readAtom_named {front : List Char} (plain : isPlainName front = true) (cs : List Char) :
    readAtom type n (front ++ cs) = readNamed type n (front ++ cs) := by
  obtain ⟨c, tail, rfl, digit, all⟩ := nameChars_of_isPlainName plain
  have letter := all c (by simp)
  have marks : ∀ d ∈ ['(', '[', '\x7b', '"'], c ≠ d := by
    have apart : ∀ d ∈ ['(', '[', '\x7b', '"'], isNameChar d = false := by simp [isNameChar]
    rintro d mark rfl
    simp [apart c mark] at letter
  rw [List.cons_append, readAtom.eq_def]
  split
  all_goals simp_all

private theorem readNamed_word {front : List Char} (plain : isPlainName front = true) (ends : AtomEnds rest) :
    readNamed type n (front ++ rest) = some (wordType front, rest) := by
  obtain ⟨-, -, -, -, all⟩ := nameChars_of_isPlainName plain
  rw [readNamed, takeWhile_front all ends.name, dropWhile_front all ends.name]
  split
  · have mark := ends '<' rfl
    simp at mark
  · rfl

private theorem readAtom_literal {cs : List Char} (plain : isPlainLiteral cs = true) (ends : AtomEnds rest) :
    readAtom type n (cs ++ rest) = some (.literal (String.ofList cs), rest) := by
  unfold isPlainLiteral at plain
  split at plain
  · simp at plain
  · rename_i body
    simp only [Bool.and_eq_true, beq_iff_eq, List.all_eq_true, bne_iff_ne] at plain
    obtain ⟨closing, inside⟩ := plain
    obtain ⟨text, rfl⟩ := List.getLast?_eq_some_iff.mp closing
    rw [List.dropLast_concat] at inside
    have front : ∀ c ∈ text, (c != '"') = true := fun c member => by simpa using (inside c member).1
    have stops : ∀ c ∈ ('"' :: rest).head?, (c != '"') = false := by simp
    rw [List.cons_append, readAtom, List.append_assoc, List.singleton_append, takeWhile_front front stops,
      dropWhile_front front stops]
    simp [after?]
  · rename_i nonempty _
    rw [List.all_eq_true] at plain
    have stops : ∀ c ∈ rest.head?, c.isDigit = false := by
      intro c first
      have apart := ends.name c first
      simp only [isNameChar, Char.isAlphanum, Bool.or_eq_false_iff] at apart
      exact apart.1.1.2
    obtain ⟨c, tail, rfl⟩ := List.exists_cons_of_ne_nil nonempty
    have digit := plain c (by simp)
    have marks : ∀ d ∈ ['(', '[', '\x7b', '"'], c ≠ d := by
      have apart : ∀ d ∈ ['(', '[', '\x7b', '"'], d.isDigit = false := by simp
      rintro d mark rfl
      simp [apart c mark] at digit
    have word : readAtom type n (c :: tail ++ rest) =
        some (.literal (String.ofList ((c :: tail ++ rest).takeWhile Char.isDigit)),
          (c :: tail ++ rest).dropWhile Char.isDigit) := by
      rw [List.cons_append, readAtom.eq_def]
      split
      all_goals simp_all
    rw [word, takeWhile_front plain stops, dropWhile_front plain stops]

private theorem readAtom_tuple {es : List TypeExpr} (room : sizeOf es ≤ n) (plain : legibleAll es = true)
    (inner : ∀ u, sizeOf u < sizeOf es → legible u = true → Reads type u) :
    readAtom type n (typeChars (.tuple es) ++ rest) = some (.tuple es, rest) := by
  rw [typeChars_tuple, List.cons_append, readAtom, List.append_assoc, readList_types (by simp) room plain inner]
  rfl

private theorem readAtom_reference {name : String} {args : List TypeExpr} (room : sizeOf args ≤ n)
    (named : isTypeName name = true) (plain : legibleAll args = true)
    (inner : ∀ u, sizeOf u < sizeOf args → legible u = true → Reads type u) (ends : AtomEnds rest) :
    readAtom type n (typeChars (.reference name args) ++ rest) = some (.reference name args, rest) := by
  have front : isPlainName name.toList = true := by
    rw [isTypeName, Bool.and_eq_true] at named
    exact named.1
  rw [typeChars_reference]
  by_cases bare : args = []
  · rw [if_pos bare, List.append_nil, readAtom_named front, readNamed_word front ends, wordType_name named, bare]
  · obtain ⟨-, -, -, -, all⟩ := nameChars_of_isPlainName front
    rw [if_neg bare, List.append_assoc, readAtom_named front, List.cons_append, List.append_assoc, readNamed,
      takeWhile_front all (by simp; rfl), dropWhile_front all (by simp; rfl)]
    simp only
    rw [readList_types (by simp) room plain inner, String.ofList_toList]
    rfl

private theorem readAtom_object {ss : List Slot} (room : sizeOf ss ≤ n) (plain : legibleSlots isPlainName ss = true)
    (inner : ∀ u, sizeOf u < sizeOf ss → legible u = true → Reads type u) :
    readAtom type n (typeChars (.object ss) ++ rest) = some (.object ss, rest) := by
  rw [typeChars_object]
  by_cases bare : ss = []
  · rw [if_pos bare, bare]
    rfl
  · rw [if_neg bare, List.cons_append, List.cons_append, readAtom, List.append_assoc,
      readList_slots room plain slotChars_of_isPlainName inner (fun cs => .mark (by simp) (' ' :: cs)) (.brace rest)
        (by simp [after?]) (by simp; rfl) (by simp)]
    rfl

/-- A type in parentheses, a name, a literal or brackets are read whole. -/
private theorem readAtom_wrappedChars {t : TypeExpr} (single : ∀ e, t ≠ .array e) (room : sizeOf t ≤ n)
    (plain : legible t = true) (own : isCompound t = true → Reads type t)
    (inner : ∀ u, sizeOf u < sizeOf t → legible u = true → Reads type u) (ends : AtomEnds rest) :
    readAtom type n (wrappedChars (isCompound t) t ++ rest) = some (t, rest) := by
  cases compound : isCompound t with
  | true =>
    have closed : TypeEnds (')' :: rest) := .mark (by simp) rest
    simp [wrappedChars, readAtom, own compound _ closed, after?]
  | false =>
    rw [wrappedChars, if_neg (by simp)]
    cases t with
    | basic b =>
      have named : isPlainName b.keyword.toList = true := by cases b <;> decide
      rw [typeChars_basic, readAtom_named named, readNamed_word named ends, wordType_keyword plain]
    | literal text =>
      rw [legible] at plain
      rw [typeChars_literal, readAtom_literal plain ends, String.ofList_toList]
    | function gs ps r => simp [isCompound] at compound
    | union ms => simp [isCompound] at compound
    | array e => exact absurd rfl (single e)
    | tuple es =>
      rw [legible] at plain
      rw [TypeExpr.tuple.sizeOf_spec] at room inner
      exact readAtom_tuple (by omega) plain fun u smaller => inner u (by omega)
    | reference name args =>
      rw [legible, Bool.and_eq_true] at plain
      rw [TypeExpr.reference.sizeOf_spec] at room inner
      exact readAtom_reference (by omega) plain.1 plain.2 (fun u smaller => inner u (by omega)) ends
    | object ss =>
      rw [legible] at plain
      rw [TypeExpr.object.sizeOf_spec] at room inner
      exact readAtom_object (by omega) plain fun u smaller => inner u (by omega)

/-! ### Arrays, unions and functions -/

/-- Brackets behind an element are left to be read, so an element is read as what they make of it. -/
private theorem readMember_wrappedChars :
    ∀ (t : TypeExpr) (rest : List Char), sizeOf t ≤ n → legible t = true → (isCompound t = true → Reads type t) →
      (∀ u, sizeOf u < sizeOf t → legible u = true → Reads type u) → AtomEnds rest →
      readMember type n (wrappedChars (isCompound t) t ++ rest) = some (readArrays t rest)
  | .array e, rest, room, plain, _, inner, ends => by
    rw [legible] at plain
    have smaller : sizeOf e < sizeOf (TypeExpr.array e) := by simp
    have element := readMember_wrappedChars e ('[' :: ']' :: rest) (by omega) plain (fun _ => inner e smaller plain)
      (fun u less => inner u (by omega)) (by simp [AtomEnds])
    have loose : wrappedChars (isCompound (.array e)) (.array e) = typeChars (.array e) := rfl
    rw [loose, typeChars_array, List.append_assoc]
    exact element
  | .basic _, rest, room, plain, own, inner, ends
  | .literal _, rest, room, plain, own, inner, ends
  | .function _ _ _, rest, room, plain, own, inner, ends
  | .union _, rest, room, plain, own, inner, ends
  | .tuple _, rest, room, plain, own, inner, ends
  | .reference _ _, rest, room, plain, own, inner, ends
  | .object _, rest, room, plain, own, inner, ends => by
    rw [readMember, readAtom_wrappedChars (by simp) room plain own inner ends]
    rfl

private theorem readMember_member {t : TypeExpr} (single : isUnion t = false) (room : sizeOf t ≤ n)
    (plain : legible t = true) (own : isFunction t = true → Reads type t)
    (inner : ∀ u, sizeOf u < sizeOf t → legible u = true → Reads type u) (ends : MemberEnds rest) :
    readMember type n (wrappedChars (isFunction t) t ++ rest) = some (t, rest) := by
  have loose : isFunction t = isCompound t := by cases t <;> simp_all [isFunction, isCompound, isUnion]
  have stays : readArrays t rest = (t, rest) := by
    unfold readArrays
    split
    · exact absurd rfl ends.noArray
    · rfl
  rw [loose] at own ⊢
  rw [readMember_wrappedChars t rest room plain own inner ends.ends, stays]

/-- The types between the bars of a type's text. -/
private def membersOf : TypeExpr → List TypeExpr
  | .union members => members
  | t => [t]

private theorem typeChars_membersOf {t : TypeExpr} (other : isFunction t = false) :
    typeChars t = " | ".toList.intercalate ((membersOf t).map fun m => wrappedChars (isFunction m) m) := by
  cases t with
  | union ms => exact typeChars_union ms
  | _ => simp [membersOf, wrappedChars, other]

private theorem unionOf_membersOf {t : TypeExpr} (plain : legible t = true) : unionOf (membersOf t) = t := by
  cases t with
  | union ms =>
    simp only [legible, Bool.and_eq_true, decide_eq_true_eq] at plain
    obtain _ | ⟨m, _ | ⟨n, ms⟩⟩ := ms
    · rfl
    · simp at plain
    · rfl
  | _ => rfl

private theorem membersOf_cons {t : TypeExpr} (plain : legible t = true) :
    ∃ m ms, membersOf t = m :: ms ∧ ms.length < sizeOf t := by
  cases t with
  | union ms =>
    cases ms with
    | nil => simp [legible] at plain
    | cons m ms =>
      have counted := length_le_sizeOf ms
      refine ⟨m, ms, rfl, ?_⟩
      rw [TypeExpr.union.sizeOf_spec, List.cons.sizeOf_spec]
      omega
  | _ => exact ⟨_, [], rfl, by simp +arith⟩

/-- The members of a union are smaller than it, and a type that is none is its own only member. -/
private theorem membersOf_spec {t m : TypeExpr} (plain : legible t = true) (member : m ∈ membersOf t) :
    legible m = true ∧ isUnion m = false ∧ (m = t ∨ sizeOf m < sizeOf t) := by
  cases t with
  | union ms =>
    simp only [legible, Bool.and_eq_true, Bool.not_eq_true', List.any_eq_false] at plain
    have smaller := List.sizeOf_lt_of_mem member
    refine ⟨(legibleAll_iff ms).mp plain.2 m member, by simpa using plain.1.2 m member, .inr ?_⟩
    simp only [membersOf] at smaller
    rw [TypeExpr.union.sizeOf_spec]
    omega
  | _ =>
    rw [membersOf, List.mem_singleton] at member
    · subst member
      exact ⟨plain, rfl, .inl rfl⟩
    · simp

private theorem readWith_members {t : TypeExpr} (other : isFunction t = false) (room : sizeOf t ≤ n)
    (plain : legible t = true) (inner : ∀ u, sizeOf u < sizeOf t → legible u = true → Reads type u)
    (ends : TypeEnds rest) : readWith type n (typeChars t ++ rest) = some (t, rest) := by
  have lead := (lead_typeChars t plain other).append ends.ends
  have each : ∀ m ∈ membersOf t, ∀ cs, MemberEnds cs →
      readMember type n (wrappedChars (isFunction m) m ++ cs) = some (m, cs) := by
    intro m member cs stops
    obtain ⟨legible, single, size⟩ := membersOf_spec plain member
    refine readMember_member single ?_ legible ?_ ?_ stops
    · rcases size with rfl | smaller <;> omega
    · intro function
      rcases size with rfl | smaller
      · simp [other] at function
      · exact inner m smaller legible
    · intro u less
      exact inner u (by rcases size with rfl | smaller <;> omega)
  obtain ⟨m, ms, shape, counted⟩ := membersOf_cons plain
  have whole := unionOf_membersOf plain
  rw [shape] at each whole
  rw [readWith, opensFunction_of_lead lead, if_neg (by simp), typeChars_membersOf other, shape,
    readItems_intercalate (fun cs => ⟨by simp [AtomEnds], by simp⟩) ends.toMemberEnds ends.noUnion m ms n (by omega) each]
  simp [whole]

private theorem opensFunction_function {gs : List Generic} {ps : List Slot} {r : TypeExpr}
    (plain : legibleSlots isParameterName ps = true) (cs : List Char) :
    opensFunction (typeChars (.function gs ps r) ++ cs) = true := by
  rw [typeChars_function]
  by_cases bare : gs = []
  · rw [if_pos bare, List.nil_append, List.cons_append, opensFunction]
    cases ps with
    | nil => rfl
    | cons p ps =>
      obtain ⟨name, t, optional⟩ := p
      obtain ⟨-, -, -, all⟩ := slotChars_of_isParameterName _ (legibleSlots_mem plain (List.mem_cons_self ..)).1
      have slot : ∀ rest, opensParameters (slotChars (.mk name t optional) ++ rest) = true := by
        intro rest
        rw [opensParameters, slotChars, List.append_assoc]
        cases optional
        · rw [dropWhile_front all (by simp; rfl)]
          simp
        · rw [dropWhile_front all (by simp; rfl)]
          simp
      cases ps with
      | nil => simpa using slot _
      | cons q ps => simpa [List.intercalate_cons_cons] using slot _
  · rw [if_neg bare]
    rfl

/-- The text of a function behind its generics, and what follows it. -/
private def signatureChars (ps : List Slot) (r : TypeExpr) (rest : List Char) : List Char :=
  '(' :: ([',', ' '].intercalate (ps.map slotChars) ++ ([')'] ++ (" => ".toList ++ (typeChars r ++ rest))))

private theorem readSignature_signatureChars {ps : List Slot} {r : TypeExpr} (room : sizeOf ps ≤ n)
    (plain : legibleSlots isParameterName ps = true) (result : Reads type r)
    (inner : ∀ u, sizeOf u < sizeOf ps → legible u = true → Reads type u) (ends : TypeEnds rest)
    (gs : List Generic) :
    readSignature type n gs (signatureChars ps r rest) = some (.function gs ps r, rest) := by
  have params : readList (readSlot type) [',', ' '] [')'] n ([',', ' '].intercalate (ps.map slotChars) ++
      ([')'] ++ (" => ".toList ++ (typeChars r ++ rest)))) = some (ps, " => ".toList ++ (typeChars r ++ rest)) :=
    readList_slots room plain slotChars_of_isParameterName inner (fun cs => .mark (by simp) (' ' :: cs))
      (.mark (by simp) _) (by simp [after?]) (by simp; rfl) (by simp)
  simp only [readSignature, signatureChars, after?, if_true, Option.bind_eq_bind, Option.bind_some, params,
    after?_append, result rest ends]

private theorem readFunction_function {gs : List Generic} {ps : List Slot} {r : TypeExpr}
    (room : sizeOf (TypeExpr.function gs ps r) ≤ n) (plain : legible (.function gs ps r) = true)
    (inner : ∀ u, sizeOf u < sizeOf (TypeExpr.function gs ps r) → legible u = true → Reads type u)
    (ends : TypeEnds rest) :
    readFunction type n (typeChars (.function gs ps r) ++ rest) = some (.function gs ps r, rest) := by
  simp only [legible, Bool.and_eq_true] at plain
  rw [TypeExpr.function.sizeOf_spec] at room inner
  obtain ⟨⟨generics, params⟩, result⟩ := plain
  have signature : readSignature type n gs (signatureChars ps r rest) = some (.function gs ps r, rest) :=
    readSignature_signatureChars (by omega) params (inner r (by omega) result) (fun u less => inner u (by omega)) ends gs
  by_cases bare : gs = []
  · subst bare
    have shape : typeChars (.function [] ps r) ++ rest = signatureChars ps r rest := by
      simp [typeChars_function, signatureChars]
    rw [shape, ← signature]
    rfl
  · have shape : typeChars (.function gs ps r) ++ rest =
        '<' :: ([',', ' '].intercalate (gs.map genericChars) ++ (['>'] ++ signatureChars ps r rest)) := by
      simp [typeChars_function, bare, signatureChars]
    rw [shape, readFunction, readList_generics (by omega) generics fun u less => inner u (by omega)]
    exact signature

/-- One level of a type is read if the types inside it are. -/
theorem readWith_reads {t : TypeExpr} (room : sizeOf t ≤ n) (plain : legible t = true)
    (inner : ∀ u, sizeOf u < sizeOf t → legible u = true → Reads type u) : Reads (readWith type n) t := by
  intro rest ends
  cases function : isFunction t with
  | false => exact readWith_members function room plain inner ends
  | true =>
    obtain ⟨gs, ps, r, rfl⟩ : ∃ gs ps r, t = .function gs ps r := by cases t <;> simp_all [isFunction]
    have params : legibleSlots isParameterName ps = true := by
      simp only [legible, Bool.and_eq_true] at plain
      exact plain.1.2
    rw [readWith, opensFunction_function params, if_pos rfl, readFunction_function room plain inner ends]

end

/-- A plain type is read back from its text, to any depth that its size allows. -/
theorem readType_reads : ∀ (n : Nat) (t : TypeExpr), sizeOf t < n → legible t = true → Reads (readType n) t
  | n + 1, t, room, plain =>
    readWith_reads (Nat.le_of_lt_succ room) plain fun u smaller legible => readType_reads n u (by omega) legible

/-- Plain types with one text are one type. -/
theorem typeText_injective {t u : TypeExpr} (left : legible t = true) (right : legible u = true)
    (same : typeText t = typeText u) : t = u := by
  have depth : sizeOf t < sizeOf t + sizeOf u + 1 ∧ sizeOf u < sizeOf t + sizeOf u + 1 := by omega
  have first := readType_reads _ t depth.1 left [] .nil
  have second := readType_reads _ u depth.2 right [] .nil
  rw [typeChars, same, ← typeChars, second] at first
  injection first with pair
  injection pair with types
  exact types.symm

/-- Functions keep their parentheses under an array and inside a constraint, so a heritage entry is read one way. -/
theorem typeText_injective_heritage :
    typeText (.reference "Pick" [.array (.function [.mk "T" (some (.function [] [] (.basic .void)))]
        [.mk "...rest" (.array (.union [.literal "\"a\"", .literal "1"])) false] (.reference "T" []))]) =
      "Pick<(<T extends () => void>(...rest: (\"a\" | 1)[]) => T)[]>" ∧
    Reference.toType ⟨"Pick", [.array (.function [.mk "T" (some (.function [] [] (.basic .void)))]
        [.mk "...rest" (.array (.union [.literal "\"a\"", .literal "1"])) false] (.reference "T" []))]⟩ =
      .reference "Pick" [.array (.function [.mk "T" (some (.function [] [] (.basic .void)))]
        [.mk "...rest" (.array (.union [.literal "\"a\"", .literal "1"])) false] (.reference "T" []))] :=
  ⟨by decide +kernel, typeText_injective (by decide +kernel) (by decide +kernel) (by decide +kernel)⟩

end DocLocale.Render
