import DocLocale.Proofs.Tree.Walk
import DocLocale.Proofs.Tree.Wiring
import DocLocale.Translation.Translator

/-!
The keys that a tree generates. Main statement: in a spanning tree they are the keys of all records of all
nodes, and each of them stands for itself.
-/

set_option autoImplicit false
set_option relaxedAutoImplicit false

namespace DocLocale

theorem Json.field?_isSome_iff {key : String} {fields : List (String × Json)} :
    (Json.field? key fields).isSome ↔ key ∈ fields.map (·.1) := by
  induction fields with
  | nil => simp [field?]
  | cons e fields ih =>
    obtain ⟨k, v⟩ := e
    by_cases same : k = key
    · simp [field?, same]
    · simp [field?, same, ih, Ne.symm same]

theorem Json.mem_of_field?_eq_some {key : String} {fields : List (String × Json)} {value : Json}
    (found : Json.field? key fields = some value) : (key, value) ∈ fields := by
  induction fields with
  | nil => simp [field?] at found
  | cons e fields ih =>
    obtain ⟨k, v⟩ := e
    by_cases same : k = key
    · simp only [field?, same, if_true, Option.some.injEq] at found
      simp [same, found]
    · simp only [field?, same, if_false] at found
      exact List.mem_cons_of_mem _ (ih found)

namespace KeyMap

/-- A new key goes to the end. -/
theorem keys_insert (m : KeyMap) (key : String) (value : Translation) :
    (m.insert key value).1.keys = if key ∈ m.keys then m.keys else m.keys ++ [key] := by
  have present : m.contains key = true ↔ key ∈ m.keys := Json.field?_isSome_iff
  unfold insert
  by_cases known : key ∈ m.keys
  · rw [if_pos (present.mpr known), if_pos known]
  · rw [if_neg (mt present.mp known), if_neg known]
    simp [keys]

theorem mem_keys_insert {m : KeyMap} {key other : String} {value : Translation} :
    other ∈ (m.insert key value).1.keys ↔ other ∈ m.keys ∨ key = other := by
  rw [keys_insert]
  split
  · rename_i present
    constructor
    · exact .inl
    · rintro (old | rfl)
      · exact old
      · exact present
  · simp [eq_comm]

theorem mem_keys_insertRecords {m : KeyMap} {records : List Doc.Record} {key : String} :
    key ∈ (m.insertRecords records).keys ↔ key ∈ m.keys ∨ ∃ r ∈ records, r.key = key := by
  induction records generalizing m with
  | nil => simp [insertRecords]
  | cons r records ih =>
    have step : m.insertRecords (r :: records) =
        (m.insert r.key (.text "")).1.insertRecords records := rfl
    rw [step, ih, mem_keys_insert]
    simp only [List.mem_cons, exists_eq_or_imp, or_assoc]

theorem nodup_keys_insert {m : KeyMap} (distinct : m.keys.Nodup) (key : String) (value : Translation) :
    (m.insert key value).1.keys.Nodup := by
  rw [keys_insert]
  split
  · exact distinct
  · rename_i new
    refine List.nodup_append.mpr ⟨distinct, List.nodup_singleton _, ?_⟩
    rintro a member b single rfl
    exact new (List.mem_singleton.mp single ▸ member)

theorem nodup_keys_insertRecords {m : KeyMap} (distinct : m.keys.Nodup) (records : List Doc.Record) :
    (m.insertRecords records).keys.Nodup := by
  induction records generalizing m with
  | nil => exact distinct
  | cons r records ih => exact ih (nodup_keys_insert distinct r.key (.text ""))

theorem insertRecords_append (m : KeyMap) (records more : List Doc.Record) :
    m.insertRecords (records ++ more) = (m.insertRecords records).insertRecords more :=
  List.foldl_append

/-- A map in which every key still waits for its translation. -/
def Untranslated (m : KeyMap) : Prop := ∀ e ∈ m.entries, e.2 = .string ""

theorem Untranslated.insert {m : KeyMap} (untranslated : m.Untranslated) (key : String) :
    (m.insert key (.text "")).1.Untranslated := by
  unfold KeyMap.insert
  split
  · exact untranslated
  · intro e member
    rcases List.mem_append.mp member with old | new
    · exact untranslated e old
    · rw [List.mem_singleton.mp new]
      rfl

theorem Untranslated.insertRecords {m : KeyMap} (untranslated : m.Untranslated)
    (records : List Doc.Record) : (m.insertRecords records).Untranslated := by
  induction records generalizing m with
  | nil => exact untranslated
  | cons r records ih => exact ih (untranslated.insert r.key)

theorem Untranslated.translate {m : KeyMap} (untranslated : m.Untranslated) (format : LineFormat)
    (key : String) : (Translator.mk m format).translate key = .text key := by
  have value : m.get? key = none ∨ m.get? key = some (.text "") := by
    unfold get?
    cases found : Json.field? key m.entries with
    | none => exact .inl rfl
    | some v =>
      have empty : v = .string "" := untranslated _ (Json.mem_of_field?_eq_some found)
      exact .inr (by rw [empty]; rfl)
  unfold Translator.translate
  rcases value with none | empty
  · simp [none]
  · simp [empty, Translation.isEmpty]

end KeyMap

namespace Tree

variable {t : Tree} {languages : List String}

/-- The outcome of recording the nodes `ids` behind those of `outcome`. -/
private def recordNodes (t : Tree) (languages : List String) (outcome : KeyMapOutcome)
    (ids : List NodeId) : KeyMapOutcome :=
  ids.foldl
    (fun outcome id =>
      let e := Doc.expand t id languages
      ⟨outcome.keys.insertRecords e.records, outcome.misplaced ++ e.misplaced⟩)
    outcome

private theorem keys_recordNodes (outcome : KeyMapOutcome) (ids : List NodeId) :
    (t.recordNodes languages outcome ids).keys =
      outcome.keys.insertRecords (ids.flatMap fun id => (Doc.expand t id languages).records) := by
  induction ids generalizing outcome with
  | nil => rfl
  | cons id ids ih =>
    have step : t.recordNodes languages outcome (id :: ids) =
        t.recordNodes languages
          ⟨outcome.keys.insertRecords (Doc.expand t id languages).records,
            outcome.misplaced ++ (Doc.expand t id languages).misplaced⟩ ids := rfl
    rw [step, ih, List.flatMap_cons, KeyMap.insertRecords_append]

private theorem misplaced_recordNodes (outcome : KeyMapOutcome) (ids : List NodeId) :
    (t.recordNodes languages outcome ids).misplaced =
      outcome.misplaced ++ ids.flatMap fun id => (Doc.expand t id languages).misplaced := by
  induction ids generalizing outcome with
  | nil => simp [recordNodes]
  | cons id ids ih =>
    have step : t.recordNodes languages outcome (id :: ids) =
        t.recordNodes languages
          ⟨outcome.keys.insertRecords (Doc.expand t id languages).records,
            outcome.misplaced ++ (Doc.expand t id languages).misplaced⟩ ids := rfl
    rw [step, ih, List.flatMap_cons, List.append_assoc]

/-- Misplaced tags are collected in the order of the walk. -/
theorem misplaced_keyMap (t : Tree) (languages : List String) :
    (t.keyMap languages).misplaced = t.walk.flatMap fun id => (Doc.expand t id languages).misplaced :=
  misplaced_recordNodes {} t.walk

/-- The key map takes in the records of the nodes in the order of the walk. -/
theorem keys_keyMap (t : Tree) (languages : List String) :
    (t.keyMap languages).keys =
      KeyMap.insertRecords {} (t.walk.flatMap fun id => (Doc.expand t id languages).records) :=
  keys_recordNodes {} t.walk

/-- The generated keys are those of the records of the nodes walked. -/
theorem mem_keys_keyMap {key : String} :
    key ∈ (t.keyMap languages).keys.keys ↔
      ∃ id ∈ t.walk, ∃ r ∈ (Doc.expand t id languages).records, r.key = key := by
  rw [keys_keyMap, KeyMap.mem_keys_insertRecords]
  simp only [KeyMap.keys, List.map_nil, List.not_mem_nil, false_or, List.mem_flatMap]
  constructor
  · rintro ⟨r, ⟨id, walked, found⟩, same⟩
    exact ⟨id, walked, r, found, same⟩
  · rintro ⟨id, walked, r, found, same⟩
    exact ⟨r, ⟨id, walked, found⟩, same⟩

theorem untranslated_keyMap : (t.keyMap languages).keys.Untranslated := by
  have empty : KeyMap.Untranslated {} := by simp [KeyMap.Untranslated]
  exact keys_keyMap t languages ▸ empty.insertRecords _

theorem nodup_keys_keyMap : (t.keyMap languages).keys.keys.Nodup := by
  have empty : (KeyMap.keys {}).Nodup := List.nodup_nil
  exact keys_keyMap t languages ▸ KeyMap.nodup_keys_insertRecords empty _

/-- Every record of a node of a spanning tree has a generated key. -/
theorem key_mem_keyMap (spanning : t.Spanning) {id : NodeId} {r : Doc.Record}
    (member : r ∈ (Doc.expand t id languages).records) : r.key ∈ (t.keyMap languages).keys.keys := by
  rw [mem_keys_keyMap]
  refine ⟨id, (mem_walk spanning).mpr ?_, r, member, rfl⟩
  unfold Doc.expand at member
  split at member
  · cases member
  · rename_i n found
    exact lt_size_of_node? found

end Tree

end DocLocale
