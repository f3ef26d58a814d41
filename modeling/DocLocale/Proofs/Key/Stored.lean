import DocLocale.Key.Map
import DocLocale.Proofs.Json.Quoting

/-!
Key maps as text. Main statement: a map whose keys are distinct and whose values are translations is read back
from its text as it was.
-/

set_option autoImplicit false
set_option relaxedAutoImplicit false

namespace DocLocale

namespace Translation

@[simp] theorem stringsOf?_map (ss : List String) : stringsOf? (ss.map .string) = some ss := by
  induction ss with
  | nil => rfl
  | cons s ss ih => simp [stringsOf?, ih]

theorem eq_map_of_stringsOf? {items : List Json} {ss : List String} (found : stringsOf? items = some ss) :
    items = ss.map .string := by
  induction items generalizing ss with
  | nil =>
    cases found
    rfl
  | cons item items ih =>
    cases item with
    | string s =>
      obtain ⟨rest, later, rfl⟩ := Option.map_eq_some_iff.mp found
      rw [ih later, List.map_cons]
    | _ => cases found

@[simp] theorem ofJson?_toJson (tr : Translation) : ofJson? tr.toJson = some tr := by
  cases tr with
  | text s => rfl
  | lines ls => simp [toJson, ofJson?]

theorem eq_toJson_of_ofJson? {value : Json} {tr : Translation} (found : ofJson? value = some tr) :
    value = tr.toJson := by
  cases value with
  | string s =>
    cases found
    rfl
  | array items =>
    obtain ⟨ss, strings, rfl⟩ := Option.map_eq_some_iff.mp found
    rw [eq_map_of_stringsOf? strings, toJson]
  | _ => cases found

end Translation

namespace Json

/-- How many steps reading a translation takes. -/
private def readSteps : Json → Nat
  | .array items => items.length + 2
  | _ => 1

private theorem length_le_writeItems (indent level : Nat) (items : List Json) :
    items.length ≤ (writeItems indent level items).length := by
  induction items with
  | nil => simp
  | cons x items ih =>
    simp only [writeItems, List.length_cons, List.length_append]
    omega

private theorem readSteps_le_write (indent level : Nat) (tr : Translation) :
    readSteps tr.toJson ≤ (write indent level tr.toJson).length := by
  match tr with
  | .text s => simp [Translation.toJson, readSteps, write, quote]
  | .lines [] => simp [Translation.toJson, readSteps, write]
  | .lines (l :: ls) =>
    have items := length_le_writeItems indent (level + 1) (ls.map .string)
    have first : 2 ≤ (write indent (level + 1) (.string l)).length := by simp [write, quote]
    simp only [List.length_map] at items
    simp only [Translation.toJson, List.map_cons, readSteps, write, List.length_cons, List.length_append,
      List.length_map, List.length_nil]
    simp only [write] at first
    omega

private theorem value?_translation {fuel : Nat} (depth indent level : Nat) (tr : Translation)
    (enough : readSteps tr.toJson ≤ fuel) (rest : List Char) :
    value? fuel (depth + 1) (write indent level tr.toJson ++ rest) = some (tr.toJson, rest) := by
  match fuel, tr, enough with
  | fuel + 1, .text s, _ => exact value?_quote fuel (depth + 1) s rest
  | fuel + 1, .lines [], _ => exact value?_emptyArray fuel depth rest
  | fuel + 1, .lines (l :: ls), enough =>
    have items := items?_strings depth indent (level + 1) level l ls
      (by simpa [Translation.toJson, readSteps] using enough) rest
    simp only [Translation.toJson, List.map_cons, write, List.cons_append, List.append_assoc,
      List.nil_append]
    rw [value?_array fuel depth ((skipBlanks_gap ..).trans (skipBlanks_quote ..))]
    exact congrArg _ items

theorem setField_of_new {key : String} {fields : List (String × Json)}
    (new : key ∉ fields.map (·.1)) (value : Json) : setField key value fields = fields ++ [(key, value)] := by
  induction fields with
  | nil => rfl
  | cons e fields ih =>
    obtain ⟨k, v⟩ := e
    simp only [List.map_cons, List.mem_cons, not_or] at new
    rw [setField, if_neg (Ne.symm new.1), ih new.2, List.cons_append]

/-- The fields of keys and translations. -/
private def fieldsOf (es : List (String × Translation)) : List (String × Json) :=
  es.map fun e => (e.1, e.2.toJson)

private theorem exists_fieldsOf {fields : List (String × Json)}
    (translations : ∀ e ∈ fields, ∃ tr : Translation, e.2 = tr.toJson) : ∃ es, fields = fieldsOf es := by
  induction fields with
  | nil => exact ⟨[], rfl⟩
  | cons e fields ih =>
    obtain ⟨k, v⟩ := e
    obtain ⟨tr, rfl⟩ := translations (k, v) List.mem_cons_self
    obtain ⟨es, rfl⟩ := ih fun e member => translations e (List.mem_cons_of_mem _ member)
    exact ⟨(k, tr) :: es, rfl⟩

/-- A translation under a new key is entered at the end. -/
private theorem fields?_translation {fuel : Nat} (depth indent level : Nat) {seen : List (String × Json)}
    {key : String} (new : key ∉ seen.map (·.1)) {tr : Translation} (enough : readSteps tr.toJson ≤ fuel)
    {c : Char} {rest after : List Char} (next : skipBlanks rest = c :: after) :
    fields? (fuel + 1) (depth + 1) seen
        (quote key ++ (colon indent ++ (write indent level tr.toJson ++ rest))) =
      if c = Char.ofNat 0x7D then some (seen ++ [(key, tr.toJson)], after)
      else if c = ',' then fields? fuel (depth + 1) (seen ++ [(key, tr.toJson)]) after
      else none := by
  rw [fields?_field indent seen (value?_translation depth indent level tr enough rest) next,
    setField_of_new new]

private theorem notMem_of_distinct {key : String} {before after : List String}
    (distinct : (before ++ key :: after).Nodup) : key ∉ before := fun member =>
  (List.nodup_append.mp distinct).2.2 key member key List.mem_cons_self rfl

-- A field takes one step and leaves the rest to its value, so the longest value behind all fields is enough.
/-- Translations under new and distinct keys are entered in their order. -/
private theorem fields?_translations {fuel : Nat} (depth indent level outer : Nat)
    (seen : List (String × Json)) (key : String) (tr : Translation) (es : List (String × Translation))
    (distinct : (seen.map (·.1) ++ key :: es.map (·.1)).Nodup)
    (enough : ∀ e ∈ (key, tr) :: es, readSteps e.2.toJson + es.length + 1 ≤ fuel) (rest : List Char) :
    fields? fuel (depth + 1) seen (quote key ++ (colon indent ++ (write indent level tr.toJson ++
      (writeFields indent level (fieldsOf es) ++ (gap indent outer ++ Char.ofNat 0x7D :: rest))))) =
      some (seen ++ fieldsOf ((key, tr) :: es), rest) := by
  induction es generalizing fuel seen key tr with
  | nil =>
    have new : key ∉ seen.map (·.1) := notMem_of_distinct distinct
    have first : readSteps tr.toJson + 1 ≤ fuel := enough (key, tr) List.mem_cons_self
    obtain ⟨fuel, rfl⟩ : ∃ less, fuel = less + 1 := Nat.exists_eq_add_of_le' (by omega)
    exact fields?_translation depth indent level new (by omega)
      ((skipBlanks_gap ..).trans (skipBlanks_cons rfl _))
  | cons e es ih =>
    obtain ⟨k, next⟩ := e
    have new : key ∉ seen.map (·.1) := notMem_of_distinct distinct
    have first : readSteps tr.toJson + (es.length + 1) + 1 ≤ fuel := enough (key, tr) List.mem_cons_self
    obtain ⟨fuel, rfl⟩ : ∃ less, fuel = less + 1 := Nat.exists_eq_add_of_le' (by omega)
    have later : ∀ e ∈ (k, next) :: es, readSteps e.2.toJson + es.length + 1 ≤ fuel := by
      intro e member
      have := enough e (List.mem_cons_of_mem _ member)
      rw [List.length_cons] at this
      omega
    have behind := ih (seen ++ [(key, tr.toJson)]) k next (by simpa using distinct) later
    rw [fieldsOf, List.map_cons, writeFields, List.cons_append,
      fields?_translation depth indent level new (by omega) (skipBlanks_cons rfl _), if_neg (by decide),
      if_pos rfl]
    simp only [List.append_assoc, fields?_gap]
    simpa only [fieldsOf, List.map_cons, List.append_assoc, List.cons_append, List.nil_append] using behind

private theorem length_le_writeFields (indent level : Nat) (fields : List (String × Json)) :
    fields.length ≤ (writeFields indent level fields).length := by
  induction fields with
  | nil => simp
  | cons e fields ih =>
    simp only [writeFields, List.length_cons, List.length_append]
    omega

/-- Written fields leave enough room for the steps of reading them. -/
private theorem readSteps_le_writeFields (indent level : Nat) (es : List (String × Translation)) :
    ∀ e ∈ es, readSteps e.2.toJson + es.length ≤ (writeFields indent level (fieldsOf es)).length := by
  induction es with
  | nil => simp
  | cons f es ih =>
    obtain ⟨k, tr⟩ := f
    have room := length_le_writeFields indent level (fieldsOf es)
    have here := readSteps_le_write indent level tr
    simp only [fieldsOf, List.length_map] at room
    intro e member
    simp only [fieldsOf, List.map_cons, writeFields, List.length_cons, List.length_append]
    rcases List.mem_cons.mp member with rfl | member
    · dsimp only
      omega
    · have later := ih e member
      simp only [fieldsOf] at later
      omega

/-- An object of translations under distinct keys is read back. -/
private theorem value?_translations {fuel : Nat} (depth indent level : Nat)
    {es : List (String × Translation)} (distinct : (es.map (·.1)).Nodup)
    (enough : (write indent level (.object (fieldsOf es))).length ≤ fuel) (rest : List Char) :
    value? (fuel + 1) (depth + 2) (write indent level (.object (fieldsOf es)) ++ rest) =
      some (.object (fieldsOf es), rest) := by
  cases es with
  | nil => exact value?_emptyObject fuel (depth + 1) rest
  | cons e es =>
    obtain ⟨key, tr⟩ := e
    have room : ∀ e ∈ (key, tr) :: es, readSteps e.2.toJson + es.length + 1 ≤ fuel := by
      have all := length_le_writeFields indent (level + 1) (fieldsOf es)
      have here := readSteps_le_write indent (level + 1) tr
      simp only [fieldsOf, List.map_cons, write, List.length_cons, List.length_append,
        List.length_map] at enough all
      intro e member
      rcases List.mem_cons.mp member with rfl | member
      · dsimp only
        omega
      · have later := readSteps_le_writeFields indent (level + 1) es e member
        rw [fieldsOf] at later
        omega
    have fields := fields?_translations depth indent (level + 1) level [] key tr es
      (by simpa using distinct) room rest
    have found : ∀ cs, skipBlanks (gap indent (level + 1) ++ (quote key ++ cs)) = quote key ++ cs :=
      fun cs => (skipBlanks_gap ..).trans (skipBlanks_quote ..)
    simp only [fieldsOf, List.map_cons, write, List.cons_append, List.append_assoc, List.nil_append]
    rw [value?_object fuel (depth + 1) (found _)]
    exact congrArg _ fields

end Json

namespace KeyMap

/-- A map that its text keeps: distinct keys, and translations under them. -/
structure Stored (m : KeyMap) : Prop where
  distinct : m.keys.Nodup
  translations : ∀ e ∈ m.entries, ∃ tr : Translation, e.2 = tr.toJson

theorem firstBad?_eq_none_iff {entries : List (String × Json)} :
    firstBad? entries = none ↔ ∀ e ∈ entries, ∃ tr : Translation, e.2 = tr.toJson := by
  induction entries with
  | nil => simp [firstBad?]
  | cons e entries ih =>
    obtain ⟨k, v⟩ := e
    rw [firstBad?]
    cases found : Translation.ofJson? v with
    | none =>
      have bad : ¬ ∃ tr : Translation, v = tr.toJson := by
        rintro ⟨tr, rfl⟩
        rw [Translation.ofJson?_toJson] at found
        cases found
      simp [bad]
    | some tr =>
      have good : ∃ tr : Translation, v = tr.toJson := ⟨tr, Translation.eq_toJson_of_ofJson? found⟩
      simp [ih, good]

private theorem toList_toText (m : KeyMap) :
    m.toText.toList = Json.write 4 0 (.object m.entries) ++ ['\n'] := by
  rw [toText, Json.render, String.toList_append, String.toList_ofList]
  rfl

private theorem value?_toText {m : KeyMap} (stored : m.Stored) :
    Json.value? (m.toText.toList.length + 1) Json.maxDepth m.toText.toList =
      some (.object m.entries, ['\n']) := by
  obtain ⟨es, fields⟩ := Json.exists_fieldsOf stored.translations
  have distinct : (es.map (·.1)).Nodup := by
    have keys : m.keys = es.map (·.1) := by
      rw [keys, fields, Json.fieldsOf, List.map_map]
      rfl
    exact keys ▸ stored.distinct
  rw [toList_toText, fields]
  exact Json.value?_translations 125 4 0 distinct (by simp) ['\n']

private theorem parse?_toText {m : KeyMap} (stored : m.Stored) :
    Json.parse? m.toText = some (.object m.entries) := by
  rw [Json.parse?]
  simp only [value?_toText stored, Option.bind_eq_bind, Option.bind_some]
  rfl

/-- A stored map is read back from its text. -/
theorem parse_toText {m : KeyMap} (stored : m.Stored) : parse m.toText = .ok m := by
  rw [parse, parse?_toText stored]
  simp only [firstBad?_eq_none_iff.mpr stored.translations]

end KeyMap

end DocLocale
