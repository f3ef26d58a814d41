import DocLocale.Proofs.Key.Generated
import DocLocale.Proofs.Key.Stored

/-!
Merging of key maps. A generated map takes over the non-empty translations of an earlier one, and keeps its own
keys in their order. Main statement: what is merged depends on these translations only, so merging the result
into the same keys changes nothing.
-/

set_option autoImplicit false
set_option relaxedAutoImplicit false

namespace DocLocale

namespace KeyMap

/-- The translation under a key, if it is not empty. -/
def live? (m : KeyMap) (key : String) : Option Translation :=
  (m.get? key).filter fun tr => !tr.isEmpty

/-- How many translations are not empty. -/
def liveCount (m : KeyMap) : Nat :=
  m.entries.countP fun e => (Translation.ofJson? e.2).any fun tr => !tr.isEmpty

theorem live?_eq_some_iff {m : KeyMap} {key : String} {tr : Translation} :
    m.live? key = some tr ↔ m.get? key = some tr ∧ tr.isEmpty = false := by
  simp [live?, Option.filter_eq_some_iff]

theorem live?_eq_none_iff {m : KeyMap} {key : String} :
    m.live? key = none ↔ ∀ tr, m.get? key = some tr → tr.isEmpty = true := by
  simp [live?, Option.filter_eq_none_iff]

/-- The entry of a key under its live translation, or the empty text. -/
private def carried (previous : KeyMap) (key : String) : Translation :=
  (previous.live? key).getD (.text "")

private theorem offered?_eq (previous : KeyMap) (key : String) :
    offered? previous (key, .string "") = previous.live? key := by
  unfold offered? live?
  cases previous.get? key with
  | none => rfl
  | some tr =>
    have blank : (Translation.text "").isEmpty = true := rfl
    cases empty : tr.isEmpty with
    | true => simp [Option.filter_some, empty]
    | false => simp [Option.filter_some, empty, Translation.ofJson?, blank]

namespace Untranslated

variable {m : KeyMap}

/-- Merging fills every key with its live translation. -/
private theorem entries_mergeFrom (untranslated : m.Untranslated) (previous : KeyMap) :
    (m.mergeFrom previous).1.entries = m.keys.map fun key => (key, (carried previous key).toJson) := by
  rw [mergeFrom, keys, List.map_map]
  apply List.map_congr_left
  intro e member
  obtain ⟨key, value⟩ := e
  obtain rfl : value = .string "" := untranslated _ member
  simp only [offered?_eq, carried, Function.comp_apply]
  cases previous.live? key <;> rfl

theorem keys_mergeFrom (untranslated : m.Untranslated) (previous : KeyMap) :
    (m.mergeFrom previous).1.keys = m.keys := by
  rw [keys, untranslated.entries_mergeFrom, List.map_map]
  exact List.map_id _

theorem count_mergeFrom (untranslated : m.Untranslated) (previous : KeyMap) :
    (m.mergeFrom previous).2 = m.keys.countP fun key => (previous.live? key).isSome := by
  rw [mergeFrom, keys, List.countP_map, List.countP_eq_length_filter]
  refine congrArg _ (List.filter_congr fun e member => ?_)
  obtain ⟨key, value⟩ := e
  obtain rfl : value = .string "" := untranslated _ member
  rw [offered?_eq]
  rfl

theorem stored_mergeFrom (untranslated : m.Untranslated) (distinct : m.keys.Nodup) (previous : KeyMap) :
    (m.mergeFrom previous).1.Stored where
  distinct := by rwa [untranslated.keys_mergeFrom]
  translations := by
    rw [untranslated.entries_mergeFrom]
    intro e member
    obtain ⟨key, -, rfl⟩ := List.mem_map.mp member
    exact ⟨_, rfl⟩

private theorem field?_map {keys : List String} {key : String} (value : String → Json)
    (member : key ∈ keys) : Json.field? key (keys.map fun k => (k, value k)) = some (value key) := by
  induction keys with
  | nil => cases member
  | cons k keys ih =>
    by_cases same : k = key
    · simp [Json.field?, same]
    · simp [Json.field?, same, ih ((List.mem_cons.mp member).resolve_left (Ne.symm same))]

theorem get?_mergeFrom (untranslated : m.Untranslated) (previous : KeyMap) {key : String}
    (member : key ∈ m.keys) :
    (m.mergeFrom previous).1.get? key = some ((previous.live? key).getD (.text "")) := by
  rw [get?, untranslated.entries_mergeFrom, field?_map _ member, Option.bind_some,
    Translation.ofJson?_toJson]
  rfl

theorem live?_mergeFrom (untranslated : m.Untranslated) (previous : KeyMap) {key : String}
    (member : key ∈ m.keys) : (m.mergeFrom previous).1.live? key = previous.live? key := by
  cases live : previous.live? key with
  | none =>
    rw [live?, untranslated.get?_mergeFrom previous member, live]
    rfl
  | some tr =>
    rw [live?_eq_some_iff, untranslated.get?_mergeFrom previous member, live]
    exact ⟨rfl, (live?_eq_some_iff.mp live).2⟩

theorem liveCount_mergeFrom (untranslated : m.Untranslated) (previous : KeyMap) :
    (m.mergeFrom previous).1.liveCount = (m.mergeFrom previous).2 := by
  rw [untranslated.count_mergeFrom, liveCount, untranslated.entries_mergeFrom, List.countP_map]
  refine List.countP_congr fun key _ => ?_
  simp only [Function.comp_apply, Translation.ofJson?_toJson, carried, Option.any_some]
  cases live : previous.live? key with
  | none => simp [Translation.isEmpty]
  | some tr => simp [(live?_eq_some_iff.mp live).2]

/-- Merging a merged map into the same keys changes nothing. -/
theorem mergeFrom_mergeFrom (untranslated : m.Untranslated) (previous : KeyMap) :
    m.mergeFrom (m.mergeFrom previous).1 = m.mergeFrom previous := by
  have same : ∀ key ∈ m.keys, (m.mergeFrom previous).1.live? key = previous.live? key :=
    fun key member => untranslated.live?_mergeFrom previous member
  refine Prod.ext ?_ ?_
  · have entries : (m.mergeFrom (m.mergeFrom previous).1).1.entries = (m.mergeFrom previous).1.entries := by
      rw [untranslated.entries_mergeFrom, untranslated.entries_mergeFrom]
      refine List.map_congr_left fun key member => ?_
      rw [carried, carried, same key member]
    exact congrArg KeyMap.mk entries
  · rw [untranslated.count_mergeFrom, untranslated.count_mergeFrom]
    exact List.countP_congr fun key member => by rw [same key member]

end Untranslated

end KeyMap

end DocLocale
