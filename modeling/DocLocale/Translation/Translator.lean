import DocLocale.Key.Map
import DocLocale.Translation.Wrap

/-!
Translating records into comment lines. A key without a translation stands for itself, and the lines
are laid out by the rule of the language.
-/

set_option autoImplicit false
set_option relaxedAutoImplicit false

namespace DocLocale

/-- How the lines of a language are laid out. -/
inductive LineFormat
  /-- Words wrapped to a number of columns. -/
  | wrapped (limit : Nat)
  /-- Lines as they are. -/
  | verbatim
  deriving DecidableEq, Repr

namespace LineFormat

/-- The layout for a language code: English is wrapped, everything else is left alone. -/
def ofLanguage (language : String) (maxWidth : Nat) : LineFormat :=
  if language = "en_us" then .wrapped maxWidth else .verbatim

/-- Lays out lines. -/
def apply : LineFormat → List String → List String
  | .wrapped limit, lines => Translation.wrap limit lines
  | .verbatim, lines => lines

end LineFormat

/-- A key map read in one language. -/
structure Translator where
  keys : KeyMap
  format : LineFormat

namespace Translator

/-- A translator for a language code and a comment width. -/
def ofLanguage (keys : KeyMap) (language : String) (maxWidth : Nat) : Translator :=
  ⟨keys, .ofLanguage language maxWidth⟩

/-- The translation of a key; a missing or empty one is the key itself. -/
def translate (t : Translator) (key : String) : Translation :=
  match t.keys.get? key with
  | some value => if value.isEmpty then .text key else value
  | none => .text key

/-- Puts a lead and a space in front of the first line. -/
def withLead (lead : String) : List String → List String
  | [] => []
  | first :: rest => (if lead.isEmpty then first else lead ++ " " ++ first) :: rest

/-- The lines of a record before layout: a text continues on the line of its lead, a list starts
below it. -/
def rawLines (t : Translator) (r : Doc.Record) : List String :=
  match t.translate r.key with
  | .text s => withLead r.lead ((Text.splitAt '\n' s.toList).map String.ofList)
  | .lines ls => if r.lead.isEmpty then ls else r.lead :: ls

/-- The comment lines of a record. -/
def recordLines (t : Translator) (r : Doc.Record) : List String := t.format.apply (t.rawLines r)

end Translator

end DocLocale
