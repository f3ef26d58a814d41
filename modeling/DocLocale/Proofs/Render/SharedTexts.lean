import DocLocale.Proofs.Render.TypeChars
import Mathlib.Tactic.Common

/-!
Types that share a text. The text of a type does not show which kind of number is meant, nor which members of a union
stood in a union of their own.
-/

set_option autoImplicit false
set_option relaxedAutoImplicit false

namespace DocLocale.Render

/-- The basic type that its keyword stands for. -/
def numbered : Basic → Basic
  | .integer | .float => .number
  | b => b

/-- The members of a union, or a type alone. -/
def unionMembers : TypeExpr → List TypeExpr
  | .union (m :: ms) => m :: ms
  | t => [t]

mutual
/-- The type that the text of a type stands for: numbers of one kind, and unions directly inside unions resolved. -/
def reread : TypeExpr → TypeExpr
  | .basic b => .basic (numbered b)
  | .literal text => .literal text
  | .function generics params returns => .function (rereadGenerics generics) (rereadSlots params) (reread returns)
  | .union members => .union (rereadMembers members)
  | .array element => .array (reread element)
  | .tuple elements => .tuple (rereadAll elements)
  | .reference name args => .reference name (rereadAll args)
  | .object slots => .object (rereadSlots slots)

/-- The types that texts stand for. -/
def rereadAll : List TypeExpr → List TypeExpr
  | [] => []
  | t :: ts => reread t :: rereadAll ts

/-- The members that the texts of members stand for. -/
def rereadMembers : List TypeExpr → List TypeExpr
  | [] => []
  | t :: ts => unionMembers (reread t) ++ rereadMembers ts

/-- The generic parameters that texts stand for. -/
def rereadGenerics : List Generic → List Generic
  | [] => []
  | .mk name none :: gs => .mk name none :: rereadGenerics gs
  | .mk name (some c) :: gs => .mk name (some (reread c)) :: rereadGenerics gs

/-- The slots that texts stand for. -/
def rereadSlots : List Slot → List Slot
  | [] => []
  | .mk name type optional :: ss => .mk name (reread type) optional :: rereadSlots ss
end

private theorem intercalate_append (separator : List Char) {xs : List (List Char)} (nonempty : xs ≠ [])
    (ys : List (List Char)) :
    separator.intercalate (xs ++ ys) = separator.intercalate (separator.intercalate xs :: ys) := by
  induction xs with
  | nil => exact absurd rfl nonempty
  | cons x xs ih =>
    cases xs with
    | nil => simp
    | cons x' xs =>
      have later := ih (by simp)
      cases ys with
      | nil => simp
      | cons y ys =>
        rw [List.cons_append, List.cons_append, List.intercalate_cons_cons, ← List.cons_append, later]
        simp [List.intercalate_cons_cons]

private theorem intercalate_cons (separator x : List Char) {xs : List (List Char)} (nonempty : xs ≠ []) :
    separator.intercalate (x :: xs) = x ++ (separator ++ separator.intercalate xs) := by
  obtain ⟨y, ys, rfl⟩ := List.exists_cons_of_ne_nil nonempty
  rw [List.intercalate_cons_cons, List.append_assoc]

/-- The text of a member of a union. -/
private def memberText (t : TypeExpr) : List Char := wrappedChars (isFunction t) t

private theorem intercalate_unionMembers (t : TypeExpr) :
    " | ".toList.intercalate ((unionMembers t).map memberText) = memberText t := by
  cases t with
  | union ms =>
    cases ms with
    | nil => simp [unionMembers]
    | cons m ms => exact (typeChars_union (m :: ms)).symm
  | _ => simp [unionMembers]

private theorem unionMembers_ne_nil (t : TypeExpr) : unionMembers t ≠ [] := by
  cases t with
  | union ms => cases ms <;> simp [unionMembers]
  | _ => simp [unionMembers]

theorem isFunction_reread (t : TypeExpr) : isFunction (reread t) = isFunction t := by
  cases t <;> simp [reread, isFunction]

theorem isCompound_reread (t : TypeExpr) : isCompound (reread t) = isCompound t := by
  cases t <;> simp [reread, isCompound]

mutual
theorem typeChars_reread : ∀ t, typeChars (reread t) = typeChars t
  | .basic b => by
    rw [reread, typeChars_basic, typeChars_basic]
    cases b <;> rfl
  | .literal text => by rw [reread]
  | .function gs ps r => by
    have none : rereadGenerics gs = [] ↔ gs = [] := by
      cases gs with
      | nil => simp [rereadGenerics]
      | cons g gs => obtain ⟨name, _ | c⟩ := g <;> simp [rereadGenerics]
    rw [reread, typeChars_function, typeChars_function, genericChars_reread gs, slotChars_reread ps, typeChars_reread r]
    simp only [none]
  | .union ms => by
    rw [reread, typeChars_union, typeChars_union]
    exact memberChars_reread ms
  | .array e => by
    rw [reread, typeChars_array, typeChars_array, isCompound_reread, wrappedChars, wrappedChars, typeChars_reread e]
  | .tuple es => by rw [reread, typeChars_tuple, typeChars_tuple, typesChars_reread es]
  | .reference name args => by
    have none : rereadAll args = [] ↔ args = [] := by cases args <;> simp [rereadAll]
    rw [reread, typeChars_reference, typeChars_reference, typesChars_reread args]
    simp only [none]
  | .object ss => by
    have none : rereadSlots ss = [] ↔ ss = [] := by
      cases ss with
      | nil => simp [rereadSlots]
      | cons s ss => obtain ⟨name, t, optional⟩ := s; simp [rereadSlots]
    rw [reread, typeChars_object, typeChars_object, slotChars_reread ss]
    simp only [none]

private theorem typesChars_reread : ∀ ts, (rereadAll ts).map typeChars = ts.map typeChars
  | [] => by rw [rereadAll]
  | t :: ts => by rw [rereadAll, List.map_cons, List.map_cons, typeChars_reread t, typesChars_reread ts]

private theorem memberChars_reread : ∀ ts, " | ".toList.intercalate ((rereadMembers ts).map memberText) =
    " | ".toList.intercalate (ts.map memberText)
  | [] => by rw [rereadMembers]
  | t :: ts => by
    have first : memberText (reread t) = memberText t := by
      rw [memberText, memberText, isFunction_reread, wrappedChars, wrappedChars, typeChars_reread t]
    have later := memberChars_reread ts
    rw [rereadMembers, List.map_append, intercalate_append _ (by simpa using unionMembers_ne_nil (reread t)),
      intercalate_unionMembers, first, List.map_cons]
    cases ts with
    | nil => rw [rereadMembers, List.map_nil]
    | cons u us =>
      have more : (rereadMembers (u :: us)).map memberText ≠ [] := by
        rw [rereadMembers]
        simp [unionMembers_ne_nil]
      rw [intercalate_cons _ _ more, later, ← intercalate_cons _ _ (by simp)]

private theorem genericChars_reread : ∀ gs, (rereadGenerics gs).map genericChars = gs.map genericChars
  | [] => by rw [rereadGenerics]
  | .mk name none :: gs => by rw [rereadGenerics, List.map_cons, List.map_cons, genericChars_reread gs]
  | .mk name (some c) :: gs => by
    rw [rereadGenerics, List.map_cons, List.map_cons, genericChars_reread gs, genericChars, genericChars,
      typeChars_reread c]

private theorem slotChars_reread : ∀ ss, (rereadSlots ss).map slotChars = ss.map slotChars
  | [] => by rw [rereadSlots]
  | .mk name t optional :: ss => by
    rw [rereadSlots, List.map_cons, List.map_cons, slotChars_reread ss, slotChars, slotChars, typeChars_reread t]
end

/-- A type and the one that is read from its text have the same text. -/
theorem typeText_reread (t : TypeExpr) : typeText (reread t) = typeText t := by
  rw [← String.toList_inj]
  exact typeChars_reread t

end DocLocale.Render
