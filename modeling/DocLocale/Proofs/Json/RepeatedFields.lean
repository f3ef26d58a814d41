import DocLocale.Json.Reader
import Mathlib.Tactic.Common

/-!
Fields that a text names more than once. Main statement: a text is read as an object exactly if it lists fields,
and the object then has their names in the order of first mention, each with the value that was written last.
-/

set_option autoImplicit false
set_option relaxedAutoImplicit false

namespace DocLocale.Json

section Entering

variable {seen fields : List (String × Json)}

theorem field?_setField (key name : String) (value : Json) :
    field? key (setField name value fields) = if name = key then some value else field? key fields := by
  induction fields with
  | nil => simp [setField, field?]
  | cons e fields ih =>
    obtain ⟨k, v⟩ := e
    by_cases same : k = name
    · subst same
      by_cases here : k = key
      · simp [setField, field?, here]
      · simp [setField, field?, here]
    · by_cases here : k = key
      · subst here
        have other : name ≠ k := fun equal => same equal.symm
        simp [setField, field?, same, other]
      · simp [setField, field?, same, here, ih]

/-- A name that is there keeps its place, a new one goes to the end. -/
theorem map_fst_setField (name : String) (value : Json) :
    (setField name value fields).map (·.1) =
      if name ∈ fields.map (·.1) then fields.map (·.1) else fields.map (·.1) ++ [name] := by
  induction fields with
  | nil => simp [setField]
  | cons e fields ih =>
    obtain ⟨k, v⟩ := e
    by_cases same : k = name
    · simp [setField, same]
    · have other : name ≠ k := fun equal => same equal.symm
      simp only [setField, same, if_false, List.map_cons, ih, List.mem_cons, other, false_or]
      split <;> rfl

theorem nodup_setField (distinct : (fields.map (·.1)).Nodup) (name : String) (value : Json) :
    ((setField name value fields).map (·.1)).Nodup := by
  rw [map_fst_setField]
  split
  · exact distinct
  · rename_i new
    refine List.nodup_append.mpr ⟨distinct, List.pairwise_singleton _ _, ?_⟩
    intro a member b single equal
    rw [equal, List.mem_singleton.mp single] at member
    exact new member

/-- Enters fields one after the other. -/
def enterAll (seen fields : List (String × Json)) : List (String × Json) :=
  fields.foldl (fun seen field => setField field.1 field.2 seen) seen

theorem field?_append (key : String) (front back : List (String × Json)) :
    field? key (front ++ back) = (field? key front).or (field? key back) := by
  induction front with
  | nil => rfl
  | cons e front ih =>
    obtain ⟨k, v⟩ := e
    by_cases here : k = key
    · simp [field?, here]
    · simp [field?, here, ih]

/-- The last field of a name counts. -/
theorem field?_enterAll (key : String) :
    field? key (enterAll seen fields) = (field? key fields.reverse).or (field? key seen) := by
  induction fields generalizing seen with
  | nil => rfl
  | cons e fields ih =>
    obtain ⟨k, v⟩ := e
    have step : enterAll seen ((k, v) :: fields) = enterAll (setField k v seen) fields := rfl
    rw [step, ih, field?_setField, List.reverse_cons, field?_append]
    cases field? key fields.reverse with
    | some value => rfl
    | none =>
      by_cases here : k = key
      · simp [field?, here]
      · simp [field?, here]

theorem nodup_enterAll (distinct : (seen.map (·.1)).Nodup) : ((enterAll seen fields).map (·.1)).Nodup := by
  induction fields generalizing seen with
  | nil => exact distinct
  | cons e fields ih => exact ih (nodup_setField distinct e.1 e.2)

private theorem eraseDups_of_nodup {names : List String} (distinct : names.Nodup) : names.eraseDups = names := by
  induction names with
  | nil => rfl
  | cons name names ih =>
    obtain ⟨absent, distinct⟩ := List.nodup_cons.mp distinct
    have others : names.filter (fun other => !other == name) = names := by
      rw [List.filter_eq_self]
      intro other member
      have differ : other ≠ name := fun equal => absent (equal ▸ member)
      simpa using differ
    rw [List.eraseDups_cons, others, ih distinct]

/-- The first field of a name gives it its place. -/
theorem map_fst_enterAll (distinct : (seen.map (·.1)).Nodup) :
    (enterAll seen fields).map (·.1) = (seen.map (·.1) ++ fields.map (·.1)).eraseDups := by
  induction fields generalizing seen with
  | nil =>
    rw [List.map_nil, List.append_nil, eraseDups_of_nodup distinct]
    rfl
  | cons e fields ih =>
    obtain ⟨k, v⟩ := e
    have step : enterAll seen ((k, v) :: fields) = enterAll (setField k v seen) fields := rfl
    rw [step, ih (nodup_setField distinct k v), map_fst_setField, List.map_cons]
    split
    · rename_i known
      rw [List.eraseDups_append, List.eraseDups_append, List.removeAll, List.removeAll,
        List.filter_cons_of_neg (by simpa using known)]
    · rw [List.append_assoc, List.singleton_append]

end Entering

section Reading

/-- The text behind a mark that only blanks stand in front of. -/
def behind? (mark : Char) (cs : List Char) : Option (List Char) :=
  if (skipBlanks cs).head? = some mark then some (skipBlanks cs).tail else none

private theorem behind?_of_eq {mark : Char} {cs rest : List Char} (found : skipBlanks cs = mark :: rest) :
    behind? mark cs = some rest := by
  simp [behind?, found]

private theorem behind?_of_ne {mark : Char} {cs : List Char} (other : ∀ rest, skipBlanks cs = mark :: rest → False) :
    behind? mark cs = none := by
  rw [behind?, if_neg]
  intro first
  obtain ⟨rest, found⟩ := List.head?_eq_some_iff.mp first
  exact other rest found

/-- Reads one field, the character behind it, and the rest. -/
def fieldAsWritten? (fuel depth : Nat) (cs : List Char) : Option ((String × Json) × Char × List Char) := do
  let rest ← behind? '"' cs
  let (key, rest) ← stringBody? rest
  let rest ← behind? ':' rest
  let (v, rest) ← value? fuel depth rest
  match skipBlanks rest with
  | [] => none
  | c :: rest => some ((String.ofList key, v), c, rest)

/-- The fields of an object up to its closing brace, as they are written. -/
def fieldsAsWritten? : Nat → Nat → List Char → Option (List (String × Json) × List Char)
  | 0, _, _ => none
  | fuel + 1, depth, cs => do
    let (field, c, rest) ← fieldAsWritten? fuel depth cs
    if c = Char.ofNat 0x7D then some ([field], rest)
    else if c = ',' then
      (fieldsAsWritten? fuel depth rest).map fun (more, rest) => (field :: more, rest)
    else none

private theorem fields?_succ (fuel depth : Nat) (seen : List (String × Json)) (cs : List Char) :
    fields? (fuel + 1) depth seen cs =
      (fieldAsWritten? fuel depth cs).bind fun (field, c, rest) =>
        if c = Char.ofNat 0x7D then some (setField field.1 field.2 seen, rest)
        else if c = ',' then fields? fuel depth (setField field.1 field.2 seen) rest
        else none := by
  rw [fields?, fieldAsWritten?]
  split
  · rename_i rest quoted
    rw [behind?_of_eq quoted]
    simp only [Option.bind_eq_bind, Option.bind_some]
    cases stringBody? rest with
    | none => rfl
    | some name =>
      obtain ⟨key, rest⟩ := name
      simp only [Option.bind_some]
      split
      · rename_i rest colon
        rw [behind?_of_eq colon]
        simp only [Option.bind_some]
        cases value? fuel depth rest with
        | none => rfl
        | some value =>
          obtain ⟨v, rest⟩ := value
          simp only [Option.bind_some]
          cases skipBlanks rest with
          | nil => rfl
          | cons c rest => rfl
      · rename_i other
        rw [behind?_of_ne other]
        rfl
  · rename_i other
    rw [behind?_of_ne other]
    rfl

/-- Reading an object enters its fields as they are written. -/
theorem fields?_eq (fuel depth : Nat) (seen : List (String × Json)) (cs : List Char) :
    fields? fuel depth seen cs =
      (fieldsAsWritten? fuel depth cs).map fun (written, rest) => (enterAll seen written, rest) := by
  induction fuel generalizing seen cs with
  | zero => rw [fields?]; rfl
  | succ fuel ih =>
    rw [fields?_succ, fieldsAsWritten?]
    cases fieldAsWritten? fuel depth cs with
    | none => rfl
    | some read =>
      obtain ⟨field, c, rest⟩ := read
      simp only [Option.bind_eq_bind, Option.bind_some]
      by_cases closed : c = Char.ofNat 0x7D
      · simp only [closed, if_true, Option.map_some]
        rfl
      · by_cases comma : c = ','
        · rw [if_neg closed, if_pos comma, if_neg closed, if_pos comma, ih, Option.map_map]
          rfl
        · rw [if_neg closed, if_neg comma, if_neg closed, if_neg comma]
          rfl

/-- The fields of the object that a text holds, as they are written. -/
def objectAsWritten? (fuel depth : Nat) (cs : List Char) : Option (List (String × Json) × List Char) :=
  match skipBlanks cs with
  | [] => none
  | c :: rest =>
    if c = Char.ofNat 0x7B then
      match skipBlanks rest with
      | [] => none
      | d :: after => if d = Char.ofNat 0x7D then some ([], after) else fieldsAsWritten? fuel depth (d :: after)
    else none

theorem value?_eq_object_iff {fuel depth : Nat} {cs rest : List Char} {fields : List (String × Json)} :
    value? (fuel + 1) (depth + 1) cs = some (.object fields, rest) ↔
      ∃ written, objectAsWritten? fuel depth cs = some (written, rest) ∧ fields = enterAll [] written := by
  rw [value?, objectAsWritten?]
  cases skipBlanks cs with
  | nil => simp
  | cons c inner =>
    by_cases brace : c = Char.ofNat 0x7B
    · subst brace
      have others : Char.ofNat 0x7B ≠ 'n' ∧ Char.ofNat 0x7B ≠ 't' ∧ Char.ofNat 0x7B ≠ 'f' ∧
          Char.ofNat 0x7B ≠ '"' ∧ Char.ofNat 0x7B ≠ '[' := by
        decide
      simp only [others, if_true, if_false, Nat.add_eq_zero_iff, Nat.one_ne_zero, and_false, Nat.add_sub_cancel]
      cases skipBlanks inner with
      | nil => simp
      | cons d after =>
        by_cases closed : d = Char.ofNat 0x7D
        · simp only [closed, if_true, Option.some.injEq, Prod.mk.injEq, Json.object.injEq]
          constructor
          · rintro ⟨rfl, rfl⟩
            exact ⟨[], ⟨rfl, rfl⟩, rfl⟩
          · rintro ⟨written, ⟨rfl, rfl⟩, rfl⟩
            exact ⟨rfl, rfl⟩
        · simp only [closed, if_false, fields?_eq, Option.map_map, Option.map_eq_some_iff, Prod.exists,
            Function.comp_apply, Prod.mk.injEq, Json.object.injEq]
          constructor
          · rintro ⟨written, behind, read, rfl, rfl⟩
            exact ⟨written, read, rfl⟩
          · rintro ⟨written, read, rfl⟩
            exact ⟨written, rest, read, rfl, rfl⟩
    · -- Every other first character starts a value of another kind.
      refine iff_of_false ?_ (by simp [brace])
      intro read
      simp only [brace, if_false] at read
      split_ifs at read
      · simp at read
      · simp at read
      · simp at read
      · simp at read
      · split at read
        · simp at read
        · simp at read
      · simp at read

/-- The fields that a text lists between braces, as they are written. -/
def textAsWritten? (text : String) : Option (List (String × Json)) := do
  let (written, rest) ← objectAsWritten? text.toList.length (maxDepth - 1) text.toList
  if skipBlanks rest = [] then some written else none

/-- A text is read as an object exactly if it lists fields; the object has them entered in order. -/
theorem parse?_eq_object_iff {text : String} {fields : List (String × Json)} :
    parse? text = some (.object fields) ↔
      ∃ written, textAsWritten? text = some written ∧ fields = enterAll [] written := by
  have read : ∀ rest, value? (text.toList.length + 1) maxDepth text.toList = some (.object fields, rest) ↔
      ∃ written, objectAsWritten? text.toList.length (maxDepth - 1) text.toList = some (written, rest) ∧
        fields = enterAll [] written := fun rest => value?_eq_object_iff
  constructor
  · intro parsed
    obtain ⟨⟨value, rest⟩, found, ended⟩ := Option.bind_eq_some_iff.mp parsed
    dsimp only at ended
    split at ended
    · rename_i blank
      obtain rfl := Option.some.inj ended
      obtain ⟨written, listed, entered⟩ := (read rest).mp found
      refine ⟨written, ?_, entered⟩
      simp [textAsWritten?, listed, blank]
    · cases ended
  · rintro ⟨written, listed, entered⟩
    obtain ⟨⟨fields', rest⟩, found, ended⟩ := Option.bind_eq_some_iff.mp listed
    dsimp only at ended
    split at ended
    · rename_i blank
      obtain rfl := Option.some.inj ended
      have value := (read rest).mpr ⟨fields', found, entered⟩
      simp [parse?, value, blank]
    · cases ended

end Reading

end DocLocale.Json
