import DocLocale.Proofs.Json.RepeatedFields
import DocLocale.Proofs.Key.Stored

/-!
Key maps that are read from texts and written again. Main statement: writing keeps every map of translations, and
reading any text that is accepted gives such a map, with repeated keys in their first place and with their last
value.
-/

set_option autoImplicit false
set_option relaxedAutoImplicit false

namespace DocLocale.KeyMap

theorem parse_eq_ok_iff {text : String} {m : KeyMap} :
    parse text = .ok m ↔ Json.parse? text = some (.object m.entries) ∧ firstBad? m.entries = none := by
  rw [parse]
  cases Json.parse? text with
  | none => simp
  | some value =>
    cases value with
    | object entries =>
      cases bad : firstBad? entries with
      | some key =>
        refine iff_of_false (by simp [bad]) ?_
        rintro ⟨same, good⟩
        cases same
        rw [bad] at good
        cases good
      | none =>
        simp only [bad, Option.some.injEq, Json.object.injEq, Except.ok.injEq]
        constructor
        · rintro rfl
          exact ⟨rfl, bad⟩
        · rintro ⟨rfl, -⟩
          rfl
    | _ => simp

/-- A map that was read holds translations under distinct keys. -/
theorem stored_of_parse {text : String} {m : KeyMap} (accepted : parse text = .ok m) : m.Stored := by
  obtain ⟨parsed, good⟩ := parse_eq_ok_iff.mp accepted
  obtain ⟨written, -, entered⟩ := Json.parse?_eq_object_iff.mp parsed
  refine ⟨?_, firstBad?_eq_none_iff.mp good⟩
  rw [keys, entered]
  exact Json.nodup_enterAll List.nodup_nil

/-- Key maps survive their text. A map of translations under distinct keys is read back as it was. Every text that
is accepted lists fields, of which the map keeps each key in its first place and with its last value, and the map
is read back from its own text in turn. -/
theorem parse_toText_roundTrip :
    (∀ m : KeyMap, m.Stored → parse m.toText = .ok m) ∧
    ∀ (text : String) (m : KeyMap), parse text = .ok m →
      (∃ written, Json.textAsWritten? text = some written ∧
        m.keys = (written.map (·.1)).eraseDups ∧
        ∀ key, m.get? key = (Json.field? key written.reverse).bind Translation.ofJson?) ∧
      m.Stored ∧ parse m.toText = .ok m := by
  refine ⟨fun m stored => parse_toText stored, ?_⟩
  intro text m accepted
  have stored := stored_of_parse accepted
  refine ⟨?_, stored, parse_toText stored⟩
  obtain ⟨written, listed, entered⟩ := Json.parse?_eq_object_iff.mp (parse_eq_ok_iff.mp accepted).1
  refine ⟨written, listed, ?_, ?_⟩
  · have names : (Json.enterAll [] written).map (·.1) = (written.map (·.1)).eraseDups :=
      Json.map_fst_enterAll List.nodup_nil
    rw [keys, entered, names]
  · intro key
    rw [get?, entered, Json.field?_enterAll]
    cases Json.field? key written.reverse <;> rfl

/-- A text that repeats a key, spells a quote and a line break in two ways each and has an empty key and list. -/
private def repeatedContent : String :=
  "\x7b\"a\\n\": \"old\", \"\": [], \"a\\u000a\": [\"\\\"\", \"\\u0022\"]\x7d"

theorem parse_toText_roundTrip_repeatedKey :
    ∃ m, parse repeatedContent = .ok m ∧ m.Stored ∧ m.keys = ["a\n", ""] ∧
      m.get? "a\n" = some (.lines ["\"", "\""]) ∧ m.get? "" = some (.lines []) ∧
      parse m.toText = .ok m := by
  have passed : (parse repeatedContent).toOption.any (fun m => m.keys = ["a\n", ""] ∧
      m.get? "a\n" = some (.lines ["\"", "\""]) ∧ m.get? "" = some (.lines [])) = true := by decide +kernel
  cases accepted : parse repeatedContent with
  | error e =>
    rw [accepted] at passed
    cases passed
  | ok m =>
    rw [accepted] at passed
    obtain ⟨names, doubled, empty⟩ := of_decide_eq_true passed
    obtain ⟨-, stored, -⟩ := parse_toText_roundTrip.2 repeatedContent m accepted
    exact ⟨m, rfl, stored, names, doubled, empty, parse_toText_roundTrip.1 m stored⟩

end DocLocale.KeyMap
