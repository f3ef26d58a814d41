import DocLocale.Json.Reader
import DocLocale.Json.Writer
import Mathlib.Tactic.Common

/-!
Strings in JSON text. Every character is written in a way that reading takes back, so a quoted string is read
as what it was, whatever follows it. Lists of strings are read back from their written form too.
-/

set_option autoImplicit false
set_option relaxedAutoImplicit false

namespace DocLocale.Json

/-- A character before what was read from the rest of a string. -/
private def onto (c : Char) : Option (List Char × List Char) → Option (List Char × List Char) :=
  Option.map fun (cs, rest) => (c :: cs, rest)

private theorem stringBody?_simple {e c : Char} (simple : simpleEscape? e = some c) (rest : List Char) :
    stringBody? ('\\' :: e :: rest) = onto c (stringBody? rest) := by
  have other : e ≠ 'u' := by
    rintro rfl
    simp [simpleEscape?] at simple
  rw [stringBody?.eq_5, simple]
  · cases stringBody? rest <;> rfl
  · intro _ _ _ _ _ _ _ _ _ u _
    exact other u
  · intro _ _ _ _ _ u _
    exact other u

/-- An escaped code unit that is no half of a pair is one character, also before another one. -/
private theorem stringBody?_unicode {a b c d : Char} {n : Nat} (hex : hex4? a b c d = some n)
    (small : n < 0xD800) (rest : List Char) :
    stringBody? ('\\' :: 'u' :: a :: b :: c :: d :: rest) = onto (Char.ofNat n) (stringBody? rest) := by
  have whole : isTrailing n = false ∧ isLeading n = false := by
    simp only [isTrailing, isLeading, Bool.and_eq_false_iff, decide_eq_false_iff_not]
    omega
  by_cases pair : ∃ e f g h more, rest = '\\' :: 'u' :: e :: f :: g :: h :: more
  · obtain ⟨e, f, g, h, more, rfl⟩ := pair
    rw [stringBody?.eq_3, hex]
    simp only [Option.bind_eq_bind, Option.bind_some, whole, Bool.false_eq_true, if_false]
    cases stringBody? ('\\' :: 'u' :: e :: f :: g :: h :: more) <;> rfl
  · rw [stringBody?.eq_4, hex]
    · simp only [Option.bind_eq_bind, Option.bind_some, whole, Bool.or_self, Bool.false_eq_true, if_false]
      cases stringBody? rest <;> rfl
    · intro e f g h more same
      exact pair ⟨e, f, g, h, more, same⟩

private theorem stringBody?_plain {c : Char} (proper : 32 ≤ c.toNat) (unquoted : c ≠ '"')
    (unescaped : c ≠ '\\') (rest : List Char) :
    stringBody? (c :: rest) = onto c (stringBody? rest) := by
  rw [stringBody?.eq_6]
  · have kept : (decide (c.toNat < 32) || decide (c = '\\')) = false := by
      simp [unescaped, proper]
    simp only [kept, Bool.false_eq_true, if_false]
    cases stringBody? rest <;> rfl
  · exact unquoted
  · intro _ _ _ _ _ _ _ _ _ back _
    exact unescaped back
  · intro _ _ _ _ _ back _
    exact unescaped back
  · intro _ _ back _
    exact unescaped back

private theorem hex4?_control : ∀ n < 32,
    hex4? '0' '0' (Nat.digitChar (n / 16)) (Nat.digitChar (n % 16)) = some n := by
  decide

private theorem eq_ofNat {c : Char} {n : Nat} (same : c.toNat = n) : c = Char.ofNat n := by
  rw [← same, Char.ofNat_toNat]

private theorem stringBody?_escapeChar (c : Char) (rest : List Char) :
    stringBody? (escapeChar c ++ rest) = onto c (stringBody? rest) := by
  unfold escapeChar
  by_cases quote : c = '"'
  · subst quote
    exact stringBody?_simple rfl rest
  by_cases back : c = '\\'
  · subst back
    exact stringBody?_simple rfl rest
  by_cases feed : c = '\n'
  · subst feed
    exact stringBody?_simple rfl rest
  by_cases return' : c = '\r'
  · subst return'
    exact stringBody?_simple rfl rest
  by_cases tab : c = '\t'
  · subst tab
    exact stringBody?_simple rfl rest
  by_cases eight : c.toNat = 8
  · obtain rfl := eq_ofNat eight
    exact stringBody?_simple rfl rest
  by_cases twelve : c.toNat = 12
  · obtain rfl := eq_ofNat twelve
    exact stringBody?_simple rfl rest
  simp only [quote, back, feed, return', tab, eight, twelve, if_false]
  by_cases control : c.toNat < 32
  · have read := stringBody?_unicode (hex4?_control c.toNat control) (by omega) rest
    rw [Char.ofNat_toNat] at read
    simp only [control, if_true]
    exact read
  · simp only [control, if_false]
    exact stringBody?_plain (by omega) quote back rest

/-- The written characters of a string are read back up to the closing quote. -/
theorem stringBody?_escaped (cs rest : List Char) :
    stringBody? (cs.flatMap escapeChar ++ '"' :: rest) = some (cs, rest) := by
  induction cs with
  | nil => exact stringBody?_close rest
  | cons c cs ih =>
    rw [List.flatMap_cons, List.append_assoc, stringBody?_escapeChar, ih]
    rfl

theorem isBlank_of_mem_gap {indent depth : Nat} : ∀ c ∈ gap indent depth, isBlank c = true := by
  intro c member
  unfold gap at member
  split at member
  · cases member
  · rcases List.mem_cons.mp member with rfl | space
    · rfl
    · rw [List.eq_of_mem_replicate space]
      rfl

theorem skipBlanks_gap (indent depth : Nat) (cs : List Char) :
    skipBlanks (gap indent depth ++ cs) = skipBlanks cs :=
  skipBlanks_append isBlank_of_mem_gap cs

theorem skipBlanks_quote (s : String) (cs : List Char) : skipBlanks (quote s ++ cs) = quote s ++ cs :=
  skipBlanks_cons rfl _

private theorem items?_gap (fuel depth indent level : Nat) (cs : List Char) :
    items? fuel depth (gap indent level ++ cs) = items? fuel depth cs :=
  items?_blanks fuel depth isBlank_of_mem_gap cs

theorem value?_emptyArray (fuel depth : Nat) (rest : List Char) :
    value? (fuel + 1) (depth + 1) ('[' :: ']' :: rest) = some (.array [], rest) := by
  rw [value?, skipBlanks_cons rfl]
  simp only [Char.reduceEq, if_false, if_true, Nat.add_eq_zero_iff, Nat.one_ne_zero, and_false,
    skipBlanks_cons (c := ']') rfl]

theorem value?_array (fuel depth : Nat) {rest cs : List Char} (found : skipBlanks rest = '"' :: cs) :
    value? (fuel + 1) (depth + 1) ('[' :: rest) =
      (items? fuel depth ('"' :: cs)).map fun (xs, r) => (.array xs, r) := by
  rw [value?, skipBlanks_cons rfl]
  simp only [Char.reduceEq, if_false, if_true, Nat.add_eq_zero_iff, Nat.one_ne_zero, and_false, found,
    Nat.add_sub_cancel]
  rfl

/-- The brace that opens an object is none of the characters that other values start with. -/
private theorem brace_ne : Char.ofNat 0x7B ≠ 'n' ∧ Char.ofNat 0x7B ≠ 't' ∧ Char.ofNat 0x7B ≠ 'f' ∧
    Char.ofNat 0x7B ≠ '"' ∧ Char.ofNat 0x7B ≠ '[' := by
  decide

theorem value?_emptyObject (fuel depth : Nat) (rest : List Char) :
    value? (fuel + 1) (depth + 1) (Char.ofNat 0x7B :: Char.ofNat 0x7D :: rest) =
      some (.object [], rest) := by
  rw [value?, skipBlanks_cons rfl]
  simp only [brace_ne, if_false, if_true, Nat.add_eq_zero_iff, Nat.one_ne_zero, and_false,
    skipBlanks_cons (c := Char.ofNat 0x7D) rfl]

theorem value?_object (fuel depth : Nat) {rest cs : List Char} (found : skipBlanks rest = '"' :: cs) :
    value? (fuel + 1) (depth + 1) (Char.ofNat 0x7B :: rest) =
      (fields? fuel depth [] ('"' :: cs)).map fun (fs, r) => (.object fs, r) := by
  have field : '"' ≠ Char.ofNat 0x7D := by decide
  rw [value?, skipBlanks_cons rfl]
  simp only [brace_ne, if_false, if_true, Nat.add_eq_zero_iff, Nat.one_ne_zero, and_false, found, field,
    Nat.add_sub_cancel]

private theorem stringBody?_quoted (s : String) (rest : List Char) :
    stringBody? (s.toList.flatMap escapeChar ++ ['"'] ++ rest) = some (s.toList, rest) := by
  rw [List.append_assoc]
  exact stringBody?_escaped s.toList rest

/-- A quoted string is read back. -/
theorem value?_quote (fuel depth : Nat) (s : String) (rest : List Char) :
    value? (fuel + 1) depth (quote s ++ rest) = some (.string s, rest) := by
  rw [quote, List.cons_append, value?, skipBlanks_cons rfl]
  simp only [stringBody?_quoted]
  simp

private theorem exists_colon (indent : Nat) :
    ∃ blanks, colon indent = ':' :: blanks ∧ ∀ c ∈ blanks, isBlank c = true := by
  unfold colon
  split
  · exact ⟨[], rfl, by simp⟩
  · exact ⟨[' '], rfl, fun c member => by rw [List.mem_singleton.mp member]; rfl⟩

/-- A field is entered once its value was read, and the character behind it decides how to go on. -/
theorem fields?_field {fuel depth : Nat} {key : String} {value : Json} {cs rest after : List Char}
    {c : Char} (indent : Nat) (seen : List (String × Json))
    (read : value? fuel depth cs = some (value, rest)) (next : skipBlanks rest = c :: after) :
    fields? (fuel + 1) depth seen (quote key ++ (colon indent ++ cs)) =
      if c = Char.ofNat 0x7D then some (setField key value seen, after)
      else if c = ',' then fields? fuel depth (setField key value seen) after
      else none := by
  obtain ⟨blanks, colon, all⟩ := exists_colon indent
  rw [fields?, skipBlanks_quote, quote, colon]
  simp only [List.cons_append, stringBody?_quoted, Option.bind_eq_bind, Option.bind_some,
    skipBlanks_cons (c := ':') rfl, value?_blanks _ _ all, read, next, String.ofList_toList]

theorem fields?_gap (fuel depth indent level : Nat) (seen : List (String × Json)) (cs : List Char) :
    fields? fuel depth seen (gap indent level ++ cs) = fields? fuel depth seen cs :=
  fields?_blanks fuel depth isBlank_of_mem_gap cs seen

/-- Strings in an array are read back up to the closing bracket. -/
theorem items?_strings {fuel : Nat} (depth indent level outer : Nat) (s : String) (ss : List String)
    (enough : ss.length + 2 ≤ fuel) (rest : List Char) :
    items? fuel depth (quote s ++ (writeItems indent level (ss.map .string) ++
      (gap indent outer ++ ']' :: rest))) = some ((s :: ss).map .string, rest) := by
  induction ss generalizing fuel s with
  | nil =>
    obtain ⟨fuel, rfl⟩ := Nat.exists_eq_add_of_le' (Nat.le_of_add_left_le enough)
    have closing : skipBlanks (gap indent outer ++ ']' :: rest) = ']' :: rest := by
      rw [skipBlanks_gap, skipBlanks_cons rfl]
    rw [items?, value?_quote, List.map_nil, writeItems, List.nil_append]
    simp only [Option.bind_eq_bind, Option.bind_some, closing, List.map_cons, List.map_nil]
  | cons next ss ih =>
    obtain ⟨fuel, rfl⟩ := Nat.exists_eq_add_of_le' (Nat.le_of_add_left_le enough)
    have behind := ih next (Nat.le_of_succ_le_succ enough)
    rw [← items?_gap _ _ indent level] at behind
    rw [items?, value?_quote, List.map_cons, writeItems, write]
    simp only [Option.bind_eq_bind, Option.bind_some, List.cons_append, List.append_assoc,
      skipBlanks_cons (c := ',') rfl, behind]
    rfl

end DocLocale.Json
