import DocLocale.Proofs.Json.RepeatedFields
import DocLocale.Proofs.Key.Generated
import DocLocale.Proofs.Key.Stored
import Mathlib.Data.Set.Card

/-!
Which entries a merge fills. Both maps may hold any JSON, since they can be read without a look at their values.
Main statement: an entry takes the value of the earlier map exactly if that is a translation with something in it
and its own is not, the count is the number of values that changed, and a second merge finds nothing to fill.
-/

set_option autoImplicit false
set_option relaxedAutoImplicit false

namespace DocLocale

open scoped List

namespace Json

/-- A string. -/
def isString : Json → Bool
  | .string _ => true
  | _ => false

/-- A string that is not empty, or a list of strings that is not empty. -/
def isLive : Json → Bool
  | .string s => !s.isEmpty
  | .array items => !items.isEmpty && items.all isString
  | _ => false

theorem field?_map_snd (key : String) (change : String → Json → Json) (fields : List (String × Json)) :
    field? key (fields.map fun e => (e.1, change e.1 e.2)) = (field? key fields).map (change key) := by
  induction fields with
  | nil => rfl
  | cons e fields ih =>
    obtain ⟨k, v⟩ := e
    by_cases same : k = key
    · simp [field?, same]
    · simp [field?, same, ih]

theorem field?_of_mem {key : String} {value : Json} {fields : List (String × Json)}
    (distinct : (fields.map (·.1)).Nodup) (member : (key, value) ∈ fields) : field? key fields = some value := by
  induction fields with
  | nil => cases member
  | cons e fields ih =>
    obtain ⟨k, v⟩ := e
    obtain ⟨absent, distinct⟩ := List.nodup_cons.mp distinct
    rcases List.mem_cons.mp member with same | later
    · cases same
      simp [field?]
    · have other : k ≠ key := by
        rintro rfl
        exact absent (List.mem_map.mpr ⟨_, later, rfl⟩)
      rw [field?, if_neg other, ih distinct later]

end Json

namespace Translation

theorem stringsOf?_isSome (items : List Json) : (stringsOf? items).isSome = items.all Json.isString := by
  induction items with
  | nil => rfl
  | cons item items ih =>
    cases item with
    | string s => simp [stringsOf?, Json.isString, ih]
    | _ => rfl

theorem isLive_toJson (tr : Translation) : tr.toJson.isLive = !tr.isEmpty := by
  cases tr with
  | text s => rfl
  | lines ls =>
    have strings : (ls.map Json.string).all Json.isString = true := by simp [Json.isString]
    cases ls <;> simp_all [toJson, Json.isLive, isEmpty]

/-- A live value is a translation with something in it. -/
theorem isLive_eq (value : Json) : value.isLive = (ofJson? value).any (!·.isEmpty) := by
  cases found : ofJson? value with
  | some tr => rw [eq_toJson_of_ofJson? found, isLive_toJson, Option.any_some]
  | none =>
    cases value with
    | string s => cases found
    | array items =>
      have mixed : items.all Json.isString = false := by
        rw [← stringsOf?_isSome, Option.map_eq_none_iff.mp found]
        rfl
      simp [Json.isLive, mixed]
    | _ => rfl

theorem exists_of_isLive {value : Json} (live : value.isLive = true) : ∃ tr : Translation, value = tr.toJson := by
  rw [isLive_eq] at live
  cases found : ofJson? value with
  | none =>
    rw [found] at live
    cases live
  | some tr => exact ⟨tr, eq_toJson_of_ofJson? found⟩

end Translation

namespace KeyMap

/-- The value under a key, whether it is a translation or not. -/
def value? (m : KeyMap) (key : String) : Option Json := Json.field? key m.entries

/-- An entry is offered what the earlier map holds if that is live and its own value is not. -/
theorem offered?_eq_some_iff {previous : KeyMap} {key : String} {value : Json} {tr : Translation} :
    offered? previous (key, value) = some tr ↔
      previous.value? key = some tr.toJson ∧ tr.toJson.isLive = true ∧ value.isLive = false := by
  have earlier : previous.get? key = some tr ↔ previous.value? key = some tr.toJson := by
    rw [get?, value?, Option.bind_eq_some_iff]
    constructor
    · rintro ⟨held, found, translated⟩
      rw [found, Translation.eq_toJson_of_ofJson? translated]
    · intro found
      exact ⟨_, found, Translation.ofJson?_toJson tr⟩
  rw [← earlier, Translation.isLive_toJson, Translation.isLive_eq, offered?]
  cases previous.get? key with
  | none => simp
  | some held =>
    cases Translation.ofJson? value with
    | none => grind
    | some current => grind

/-- The value of an entry after a merge. -/
def filled (previous : KeyMap) (key : String) (value : Json) : Json :=
  match offered? previous (key, value) with
  | some tr => tr.toJson
  | none => value

section Entries

variable {previous : KeyMap} {key : String} {value : Json}

theorem offered?_isSome_iff :
    (offered? previous (key, value)).isSome ↔
      (previous.value? key).any Json.isLive = true ∧ value.isLive = false := by
  rw [Option.isSome_iff_exists]
  simp only [offered?_eq_some_iff]
  constructor
  · rintro ⟨tr, held, live, own⟩
    rw [held]
    exact ⟨live, own⟩
  · rintro ⟨live, own⟩
    cases held : previous.value? key with
    | none =>
      rw [held] at live
      cases live
    | some earlier =>
      rw [held, Option.any_some] at live
      obtain ⟨tr, rfl⟩ := Translation.exists_of_isLive live
      exact ⟨tr, rfl, live, own⟩

theorem filled_eq :
    some (filled previous key value) =
      if (previous.value? key).any Json.isLive ∧ value.isLive = false then previous.value? key
      else some value := by
  unfold filled
  cases offer : offered? previous (key, value) with
  | some tr =>
    obtain ⟨held, live, own⟩ := offered?_eq_some_iff.mp offer
    rw [if_pos ⟨by rw [held]; exact live, own⟩, held]
  | none =>
    have nothing := mt offered?_isSome_iff.mpr (by rw [offer]; simp)
    rw [if_neg nothing]

/-- A filled entry is offered nothing more. -/
theorem offered?_filled : offered? previous (key, filled previous key value) = none := by
  cases offer : offered? previous (key, value) with
  | none => simp only [filled, offer]
  | some tr =>
    have live := (offered?_eq_some_iff.mp offer).2.1
    simp only [filled, offer]
    rw [Option.eq_none_iff_forall_ne_some]
    intro more again
    rw [(offered?_eq_some_iff.mp again).2.2] at live
    cases live

/-- An entry changes exactly if something is offered to it. -/
theorem filled_ne_iff : filled previous key value ≠ value ↔ (offered? previous (key, value)).isSome := by
  unfold filled
  cases offer : offered? previous (key, value) with
  | none => simp
  | some tr =>
    obtain ⟨-, live, own⟩ := offered?_eq_some_iff.mp offer
    simp only [Option.isSome_some, iff_true]
    rintro rfl
    rw [live] at own
    cases own

end Entries

section Merges

variable (m previous : KeyMap)

theorem entries_mergeFrom :
    (m.mergeFrom previous).1.entries = m.entries.map fun e => (e.1, filled previous e.1 e.2) := by
  rw [mergeFrom]
  apply List.map_congr_left
  rintro ⟨key, value⟩ -
  simp only [filled]
  cases offered? previous (key, value) <;> rfl

theorem keys_mergeFrom : (m.mergeFrom previous).1.keys = m.keys := by
  rw [keys, entries_mergeFrom, List.map_map]
  rfl

theorem value?_mergeFrom (key : String) :
    (m.mergeFrom previous).1.value? key = (m.value? key).map (filled previous key) := by
  rw [value?, entries_mergeFrom, Json.field?_map_snd]
  rfl

/-- A merged map has no entries left to fill. -/
theorem mergeFrom_again :
    (m.mergeFrom previous).1.mergeFrom previous = ((m.mergeFrom previous).1, 0) := by
  have idle : ∀ e ∈ (m.mergeFrom previous).1.entries, offered? previous e = none := by
    rw [entries_mergeFrom]
    intro e member
    obtain ⟨own, -, rfl⟩ := List.mem_map.mp member
    exact offered?_filled
  generalize (m.mergeFrom previous).1 = merged at idle ⊢
  have same : (merged.mergeFrom previous).1.entries = merged.entries := by
    rw [entries_mergeFrom]
    conv_rhs => rw [← List.map_id merged.entries]
    apply List.map_congr_left
    intro e member
    simp only [filled, idle e member, id_eq]
  have none : (merged.mergeFrom previous).2 = 0 := by
    rw [mergeFrom, List.length_eq_zero_iff, List.filter_eq_nil_iff]
    intro e member
    rw [idle e member]
    simp
  exact Prod.ext (congrArg KeyMap.mk same) none

theorem count_mergeFrom (distinct : m.keys.Nodup) :
    (m.mergeFrom previous).2 = {key | (m.mergeFrom previous).1.value? key ≠ m.value? key}.ncard := by
  have offers : (m.entries.filter fun e => (offered? previous e).isSome).map (·.1) <+ m.keys :=
    List.filter_sublist.map _
  have changed : {key | (m.mergeFrom previous).1.value? key ≠ m.value? key} =
      ((m.entries.filter fun e => (offered? previous e).isSome).map (·.1)).toFinset := by
    ext key
    simp only [Set.mem_ofPred_eq, value?_mergeFrom, List.coe_toFinset, List.mem_map, List.mem_filter]
    constructor
    · intro differ
      cases found : m.value? key with
      | none => simp [found] at differ
      | some value =>
        rw [found, Option.map_some, ne_eq, Option.some.injEq] at differ
        exact ⟨(key, value), ⟨Json.mem_of_field?_eq_some found, filled_ne_iff.mp differ⟩, rfl⟩
    · rintro ⟨⟨key, value⟩, ⟨member, offer⟩, rfl⟩
      have found : m.value? key = some value := Json.field?_of_mem distinct member
      rw [found, Option.map_some, ne_eq, Option.some.injEq]
      exact filled_ne_iff.mpr offer
  rw [changed, Set.ncard_coe_finset, List.toFinset_card_of_nodup (offers.nodup distinct), List.length_map, mergeFrom]

end Merges

/-- A merge keeps the keys and their order. The value under a key is replaced by the one of the earlier map exactly
if that is a non-empty string or list of strings and the map's own value is not; the count is the number of keys
whose value changed, and merging the same map again changes nothing. -/
theorem mergeFrom_fills_exactly (fresh previous : KeyMap) (distinct : fresh.keys.Nodup) :
    let merged := (fresh.mergeFrom previous).1
    merged.keys = fresh.keys ∧
      (∀ key ∈ fresh.keys, merged.value? key =
        if (previous.value? key).any Json.isLive ∧ ¬ (fresh.value? key).any Json.isLive then previous.value? key
        else fresh.value? key) ∧
      (fresh.mergeFrom previous).2 = {key | merged.value? key ≠ fresh.value? key}.ncard ∧
      merged.mergeFrom previous = (merged, 0) := by
  refine ⟨keys_mergeFrom fresh previous, ?_, count_mergeFrom fresh previous distinct, mergeFrom_again fresh previous⟩
  intro key member
  obtain ⟨value, found⟩ := Option.isSome_iff_exists.mp (Json.field?_isSome_iff.mpr member)
  have own : fresh.value? key = some value := found
  rw [value?_mergeFrom, own, Option.map_some, filled_eq]
  simp only [Option.any_some, Bool.not_eq_true]

/-- A map that is read without a look at its values has distinct keys. -/
private theorem nodup_of_parseUnchecked {text : String} {m : KeyMap} (read : parseUnchecked text = .ok m) :
    m.keys.Nodup := by
  have fields : Json.parse? text = some (.object m.entries) := by
    unfold parseUnchecked Json.decodeFields at read
    split at read
    · cases read
    · split at read
      · split at read
        · rename_i found
          cases read
          exact found
        · cases read
      · cases read
  obtain ⟨written, -, entered⟩ := Json.parse?_eq_object_iff.mp fields
  rw [keys, entered]
  exact Json.nodup_enterAll List.nodup_nil

/-- Empty, filled and ill-typed values. -/
private def mixedValues : String :=
  "\x7b\"blank\": \"\", \"kept\": [\"\"], \"list\": [], " ++
    "\"number\": 7, \"mixed\": [\"a\", null], \"gone\": \"\"\x7d"

private def earlierValues : String :=
  "\x7b\"gone\": [], \"mixed\": [\"\"], \"number\": \"n\", \"list\": [1], " ++
    "\"kept\": \"old\", \"blank\": \"b\", \"stray\": \"s\"\x7d"

/-- Three of six entries are filled: one is kept, one is offered a number and one an empty list. -/
theorem mergeFrom_fills_exactly_mixed :
    ∃ fresh previous, parseUnchecked mixedValues = .ok fresh ∧ parseUnchecked earlierValues = .ok previous ∧
      (fresh.mergeFrom previous).1.keys = ["blank", "kept", "list", "number", "mixed", "gone"] ∧
      (fresh.mergeFrom previous).1.value? "number" = previous.value? "number" ∧
      {key | (fresh.mergeFrom previous).1.value? key ≠ fresh.value? key}.ncard = 3 ∧
      (fresh.mergeFrom previous).1.mergeFrom previous = ((fresh.mergeFrom previous).1, 0) := by
  have passed : (parseUnchecked mixedValues).toOption.any (fun fresh =>
      (parseUnchecked earlierValues).toOption.any fun previous =>
        fresh.keys = ["blank", "kept", "list", "number", "mixed", "gone"] ∧
          ((previous.value? "number").any Json.isLive ∧ ¬ (fresh.value? "number").any Json.isLive) ∧
          (fresh.mergeFrom previous).2 = 3) = true := by decide +kernel
  cases read : parseUnchecked mixedValues with
  | error e =>
    rw [read] at passed
    cases passed
  | ok fresh =>
    rw [read] at passed
    cases earlier : parseUnchecked earlierValues with
    | error e =>
      rw [earlier] at passed
      cases passed
    | ok previous =>
      rw [earlier] at passed
      obtain ⟨names, replaced, three⟩ := of_decide_eq_true passed
      obtain ⟨kept, values, count, again⟩ :=
        mergeFrom_fills_exactly fresh previous (nodup_of_parseUnchecked read)
      refine ⟨fresh, previous, rfl, rfl, kept.trans names, ?_, count.symm.trans three, again⟩
      rw [values "number" (by rw [names]; decide), if_pos replaced]

end KeyMap

end DocLocale
