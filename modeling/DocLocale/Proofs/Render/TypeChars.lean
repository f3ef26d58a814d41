import DocLocale.Render.TypeText
import Mathlib.Tactic.Common

/-!
The texts of types as characters. Each form of a type has one equation, and what stands in a list is written with
separators between.
-/

set_option autoImplicit false
set_option relaxedAutoImplicit false

namespace DocLocale.Render

/-- The characters of a type's text. -/
def typeChars (t : TypeExpr) : List Char := (typeText t).toList

/-- The characters of a type in parentheses if asked for. -/
def wrappedChars (wanted : Bool) (t : TypeExpr) : List Char :=
  if wanted then '(' :: (typeChars t ++ [')']) else typeChars t

/-- The characters of a slot. -/
def slotChars : Slot → List Char
  | .mk name type optional => name.toList ++ ((if optional then ['?'] else []) ++ ':' :: ' ' :: typeChars type)

/-- The characters of a generic parameter. -/
def genericChars : Generic → List Char
  | .mk name none => name.toList
  | .mk name (some c) => name.toList ++ (" extends ".toList ++ typeChars c)

private theorem toList_parenthesized (wanted : Bool) (t : TypeExpr) :
    (parenthesized wanted (typeText t)).toList = wrappedChars wanted t := by
  rw [parenthesized, wrappedChars]
  cases wanted
  · rfl
  · simp [typeChars]

private theorem map_typeTexts (ts : List TypeExpr) : (typeTexts ts).map String.toList = ts.map typeChars := by
  induction ts with
  | nil => simp [typeTexts]
  | cons t ts ih => rw [typeTexts, List.map_cons, List.map_cons, ih, typeChars]

private theorem map_memberTexts (ts : List TypeExpr) :
    (memberTexts ts).map String.toList = ts.map fun t => wrappedChars (isFunction t) t := by
  induction ts with
  | nil => simp [memberTexts]
  | cons t ts ih => rw [memberTexts, List.map_cons, List.map_cons, ih, toList_parenthesized]

private theorem map_slotTexts (ss : List Slot) : (slotTexts ss).map String.toList = ss.map slotChars := by
  induction ss with
  | nil => simp [slotTexts]
  | cons s ss ih =>
    obtain ⟨name, type, optional⟩ := s
    rw [slotTexts, List.map_cons, List.map_cons, ih, slotChars, typeChars]
    cases optional <;> simp

private theorem map_genericTexts (gs : List Generic) :
    (genericTexts gs).map String.toList = gs.map genericChars := by
  induction gs with
  | nil => simp [genericTexts]
  | cons g gs ih =>
    obtain ⟨name, constraint⟩ := g
    cases constraint with
    | none => rw [genericTexts, List.map_cons, List.map_cons, ih, genericChars]
    | some c => simp [genericTexts, genericChars, typeChars, ih]

theorem typeChars_basic (b : Basic) : typeChars (.basic b) = b.keyword.toList := rfl

theorem typeChars_literal (text : String) : typeChars (.literal text) = text.toList := rfl

theorem typeChars_function (gs : List Generic) (ps : List Slot) (r : TypeExpr) :
    typeChars (.function gs ps r) =
      (if gs = [] then [] else '<' :: ([',', ' '].intercalate (gs.map genericChars) ++ ['>'])) ++
        '(' :: ([',', ' '].intercalate (ps.map slotChars) ++ (") => ".toList ++ typeChars r)) := by
  have text : typeText (.function gs ps r) =
      (if gs.isEmpty then "" else "<" ++ ", ".intercalate (genericTexts gs) ++ ">") ++
        "(" ++ ", ".intercalate (slotTexts ps) ++ ") => " ++ typeText r := rfl
  rw [typeChars, text]
  cases gs with
  | nil => simp [String.toList_intercalate, map_slotTexts, typeChars]
  | cons g gs => simp [String.toList_intercalate, map_slotTexts, map_genericTexts, typeChars]

theorem typeChars_union (ms : List TypeExpr) :
    typeChars (.union ms) = " | ".toList.intercalate (ms.map fun t => wrappedChars (isFunction t) t) := by
  have text : typeText (.union ms) = " | ".intercalate (memberTexts ms) := rfl
  rw [typeChars, text, String.toList_intercalate, map_memberTexts]

theorem typeChars_array (e : TypeExpr) :
    typeChars (.array e) = wrappedChars (isCompound e) e ++ ['[', ']'] := by
  have text : typeText (.array e) = parenthesized (isCompound e) (typeText e) ++ "[]" := rfl
  rw [typeChars, text, String.toList_append, toList_parenthesized]
  rfl

theorem typeChars_tuple (es : List TypeExpr) :
    typeChars (.tuple es) = '[' :: ([',', ' '].intercalate (es.map typeChars) ++ [']']) := by
  have text : typeText (.tuple es) = "[" ++ ", ".intercalate (typeTexts es) ++ "]" := rfl
  rw [typeChars, text]
  simp [String.toList_intercalate, map_typeTexts]

theorem typeChars_reference (name : String) (args : List TypeExpr) :
    typeChars (.reference name args) =
      name.toList ++ if args = [] then [] else '<' :: ([',', ' '].intercalate (args.map typeChars) ++ ['>']) := by
  have text : typeText (.reference name args) =
      if args.isEmpty then name else name ++ "<" ++ ", ".intercalate (typeTexts args) ++ ">" := rfl
  rw [typeChars, text]
  cases args with
  | nil => simp
  | cons a args => simp [String.toList_intercalate, map_typeTexts]

theorem typeChars_object (ss : List Slot) :
    typeChars (.object ss) =
      if ss = [] then ['\x7b', '\x7d']
      else '\x7b' :: ' ' :: ([';', ' '].intercalate (ss.map slotChars) ++ [' ', '\x7d']) := by
  have text : typeText (.object ss) =
      if ss.isEmpty then "\x7b\x7d" else "\x7b " ++ "; ".intercalate (slotTexts ss) ++ " \x7d" := rfl
  rw [typeChars, text]
  cases ss with
  | nil => rfl
  | cons s ss => simp [String.toList_intercalate, map_slotTexts]

end DocLocale.Render
