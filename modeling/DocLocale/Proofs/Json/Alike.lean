import DocLocale.Proofs.Json.RepeatedFields
import Mathlib.Data.List.Forall2
import Mathlib.Data.Option.Defs

/-!
JSON values that say the same. The order in which an object lists its fields carries no meaning, so two
objects are alike if every name stands in both or in neither, with values that are alike.
-/

set_option autoImplicit false
set_option relaxedAutoImplicit false

namespace DocLocale.Json

/-- The values are equal up to the order of fields. -/
inductive Alike : Json → Json → Prop
  | null : Alike .null .null
  | bool (b : Bool) : Alike (.bool b) (.bool b)
  | number (n : Number) : Alike (.number n) (.number n)
  | string (s : String) : Alike (.string s) (.string s)
  | array {xs ys : List Json} : List.Forall₂ Alike xs ys → Alike (.array xs) (.array ys)
  | object {fs gs : List (String × Json)} :
    (∀ key, Option.Rel Alike (field? key fs) (field? key gs)) → Alike (.object fs) (.object gs)

namespace Alike

mutual

theorem refl : ∀ v : Json, Alike v v
  | .null => .null
  | .bool b => .bool b
  | .number n => .number n
  | .string s => .string s
  | .array items => .array (refl_items items)
  | .object fields => .object (refl_fields fields)

theorem refl_items : ∀ items : List Json, List.Forall₂ Alike items items
  | [] => .nil
  | item :: items => .cons (refl item) (refl_items items)

theorem refl_fields : ∀ (fields : List (String × Json)) (key : String),
    Option.Rel Alike (field? key fields) (field? key fields)
  | [], _ => .none
  | (name, value) :: fields, key => by
    by_cases here : name = key
    · simpa [field?, here] using refl value
    · simpa [field?, here] using refl_fields fields key

end

theorem string_inj {a b : String} (alike : Alike (.string a) (.string b)) : a = b := by
  cases alike
  rfl

theorem bool_inj {a b : Bool} (alike : Alike (.bool a) (.bool b)) : a = b := by
  cases alike
  rfl

theorem items {xs ys : List Json} (alike : Alike (.array xs) (.array ys)) : List.Forall₂ Alike xs ys := by
  cases alike with
  | array items => exact items

theorem fields {fs gs : List (String × Json)} (alike : Alike (.object fs) (.object gs)) (key : String) :
    Option.Rel Alike (field? key fs) (field? key gs) := by
  cases alike with
  | object fields => exact fields key

/-- The values under a name that both lists have. -/
theorem of_related {fs gs : List (String × Json)} {key : String} {v w : Json}
    (related : Option.Rel Alike (field? key fs) (field? key gs)) (left : field? key fs = some v)
    (right : field? key gs = some w) : Alike v w := by
  rw [left, right] at related
  exact Option.rel_some_some.mp related

theorem field {fs gs : List (String × Json)} (alike : Alike (.object fs) (.object gs)) (key : String)
    {v w : Json} (left : field? key fs = some v) (right : field? key gs = some w) : Alike v w :=
  of_related (alike.fields key) left right

/-- Lists that are written down only when they have entries are alike entry by entry: a list that is left
out is empty in both. -/
theorem items_of_omitted {α β : Type} {encode : List α → List Json} {recode : List β → List Json}
    (none : encode [] = []) (also : recode [] = []) {xs : List α} {ys : List β}
    (related : Option.Rel Alike (if xs.isEmpty then .none else some (.array (encode xs)))
      (if ys.isEmpty then .none else some (.array (recode ys)))) :
    List.Forall₂ Alike (encode xs) (recode ys) := by
  cases xs <;> cases ys <;> simp only [List.isEmpty_nil, List.isEmpty_cons, if_true, Bool.false_eq_true,
    if_false] at related
  case nil.nil => simp [none, also]
  case nil.cons => cases related
  case cons.nil => cases related
  case cons.cons => exact (Option.rel_some_some.mp related).items

/-- Lists of values that can be told apart. -/
theorem map_inj {α : Type} {encode : α → Json} (apart : ∀ x y, Alike (encode x) (encode y) → x = y)
    {xs ys : List α} (alike : List.Forall₂ Alike (xs.map encode) (ys.map encode)) : xs = ys := by
  rw [List.forall₂_map_left_iff, List.forall₂_map_right_iff] at alike
  rw [← List.forall₂_eq_eq_eq]
  exact alike.imp apart

theorem option_inj {α : Type} {encode : α → Json} (apart : ∀ x y, Alike (encode x) (encode y) → x = y)
    {x y : Option α} (related : Option.Rel Alike (x.map encode) (y.map encode)) : x = y := by
  cases x <;> cases y <;> cases related
  · rfl
  · rename_i alike
    rw [apart _ _ alike]

end Alike

/-- A field that is left out on a condition. -/
theorem field?_unless (key name : String) (value : Json) (omitted : Prop) [Decidable omitted] :
    field? key (if omitted then [] else [(name, value)]) =
      if omitted then none else if name = key then some value else none := by
  split <;> rfl

end DocLocale.Json
