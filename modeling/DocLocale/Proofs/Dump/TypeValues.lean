import DocLocale.Decl.Dump
import DocLocale.Proofs.Json.Alike

/-!
A type is known by its JSON. The text of the kind tells the form of a type apart from the other forms,
which use some of the same field names; the remaining fields give its parts back, where a list that is left
out is the empty one.
-/

set_option autoImplicit false
set_option relaxedAutoImplicit false

namespace DocLocale

open Json (Alike field? field?_append field?_unless)

/-- The texts of the kinds of types, in the order of the forms. -/
def typeKinds : List String :=
  ["Type[0] Basic", "Type[1] Literal", "Type[2] Function", "Type[3] Union", "Type[4] Array", "Type[5] Tuple",
    "Type[6] TypeReference", "Type[7] TypeLiteral"]

theorem TypeExpr.toJson_eq (a : TypeExpr) : ∃ fields kind, a.toJson = .object fields ∧
    field? "kind" fields = some (.string kind) ∧ typeKinds.idxOf kind = a.index := by
  cases a <;> exact ⟨_, _, rfl, rfl, rfl⟩

/-- Types whose JSON is alike have the same form. -/
theorem TypeExpr.index_eq_of_alike {a b : TypeExpr} (alike : Alike a.toJson b.toJson) :
    a.index = b.index := by
  obtain ⟨fs, kind, left, found, position⟩ := a.toJson_eq
  obtain ⟨gs, other, right, also, place⟩ := b.toJson_eq
  rw [left, right] at alike
  have same : kind = other := (alike.field "kind" found also).string_inj
  rw [← position, ← place, same]

/-- Texts that a list of the values finds again are all different. -/
theorem injective_of_read {α : Type} {all : List α} {text : α → String}
    (read : ∀ a, all[(all.map text).idxOf (text a)]? = some a) : Function.Injective text := by
  intro a b same
  have both := read a
  rw [same, read b] at both
  exact (Option.some.inj both).symm

/-- The text of a basic type. -/
def Basic.text (b : Basic) : String := "TypeValue[" ++ toString b.index ++ "] " ++ b.label

theorem Basic.text_injective : Function.Injective Basic.text := by
  refine @injective_of_read _ Basic.all _ fun b => ?_
  cases b <;> decide

mutual

theorem TypeExpr.eq_of_alike {a b : TypeExpr} (alike : Alike a.toJson b.toJson) : a = b :=
  -- The equal positions leave the pairs of one form alone to be compared.
  match a, b, TypeExpr.index_eq_of_alike alike, alike with
  | .basic _, .basic _, _, alike => by
    have text := (alike.field "value" rfl rfl).string_inj
    rw [Basic.text_injective text]
  | .literal _, .literal _, _, alike => by
    rw [(alike.field "value" rfl rfl).string_inj]
  | .function _ _ _, .function _ _ _, _, alike => by
    simp only [TypeExpr.toJson] at alike
    have generics := alike.fields "typeParameters"
    have params := alike.fields "parameters"
    have result := alike.fields "returnType"
    simp only [field?_append, field?_unless, field?, String.reduceEq, reduceIte, ite_self, Option.none_or,
      Option.or_none, Option.rel_some_some] at generics params result
    rw [generics_eq_of_alike (Alike.items_of_omitted rfl rfl generics), slots_eq_of_alike params.items,
      TypeExpr.eq_of_alike result]
  | .union _, .union _, _, alike => by
    rw [types_eq_of_alike (alike.field "value" rfl rfl).items]
  | .array _, .array _, _, alike => by
    rw [TypeExpr.eq_of_alike (alike.field "value" rfl rfl)]
  | .tuple _, .tuple _, _, alike => by
    rw [types_eq_of_alike (alike.field "elements" rfl rfl).items]
  | .reference _ _, .reference _ _, _, alike => by
    have names := (alike.field "name" rfl rfl).string_inj
    simp only [TypeExpr.toJson] at alike
    have args := alike.fields "members"
    simp only [field?_append, field?_unless, field?, String.reduceEq, reduceIte, Option.none_or] at args
    rw [names, types_eq_of_alike (Alike.items_of_omitted rfl rfl args)]
  | .object _, .object _, _, alike => by
    rw [slots_eq_of_alike (alike.field "members" rfl rfl).items]

theorem types_eq_of_alike : ∀ {xs ys : List TypeExpr},
    List.Forall₂ Alike (typesToJson xs) (typesToJson ys) → xs = ys
  | [], [], _ => rfl
  | x :: xs, y :: ys, .cons first rest => by
    rw [TypeExpr.eq_of_alike first, types_eq_of_alike rest]

theorem generics_eq_of_alike : ∀ {gs hs : List Generic},
    List.Forall₂ Alike (genericsToJson gs) (genericsToJson hs) → gs = hs
  | [], [], _ => rfl
  | [], .mk _ none :: _, alike | [], .mk _ (some _) :: _, alike => nomatch alike
  | .mk _ none :: _, [], alike | .mk _ (some _) :: _, [], alike => nomatch alike
  | .mk name none :: gs, .mk name' none :: hs, .cons first rest => by
    rw [(first.field "name" rfl rfl).string_inj, generics_eq_of_alike rest]
  | .mk name (some c) :: gs, .mk name' (some c') :: hs, .cons first rest => by
    rw [(first.field "name" rfl rfl).string_inj, TypeExpr.eq_of_alike (first.field "constraint" rfl rfl),
      generics_eq_of_alike rest]
  | .mk name none :: gs, .mk name' (some c) :: hs, .cons first rest => nomatch first.fields "constraint"
  | .mk name (some c) :: gs, .mk name' none :: hs, .cons first rest => nomatch first.fields "constraint"

theorem slots_eq_of_alike : ∀ {ss rs : List Slot},
    List.Forall₂ Alike (slotsToJson ss) (slotsToJson rs) → ss = rs
  | [], [], _ => rfl
  | [], .mk .. :: _, alike | .mk .. :: _, [], alike => nomatch alike
  | .mk name type optional :: ss, .mk name' type' optional' :: rs, .cons first rest => by
    rw [(first.field "name" rfl rfl).string_inj, TypeExpr.eq_of_alike (first.field "type" rfl rfl),
      (first.field "isOptional" rfl rfl).bool_inj, slots_eq_of_alike rest]

end

end DocLocale
