import DocLocale.Doc.Record
import DocLocale.Json.Decode
import DocLocale.Json.Writer

/-!
Key maps: translations by dotted key, in the order in which the keys were entered. A key that is
present keeps its first value, and merging carries earlier translations over to empty entries.
-/

set_option autoImplicit false
set_option relaxedAutoImplicit false

namespace DocLocale

/-- A translation: one text, or a list of lines. -/
inductive Translation
  | text (s : String)
  | lines (ls : List String)
  deriving DecidableEq, Repr

namespace Translation

/-- An empty text or an empty list. -/
def isEmpty : Translation → Bool
  | text s => s.isEmpty
  | lines ls => ls.isEmpty

/-- The strings of a list of JSON values, if all of them are strings. -/
def stringsOf? : List Json → Option (List String)
  | [] => some []
  | .string s :: rest => (stringsOf? rest).map (s :: ·)
  | _ :: _ => none

/-- The translation that a JSON value stands for. -/
def ofJson? : Json → Option Translation
  | .string s => some (text s)
  | .array items => (stringsOf? items).map lines
  | _ => none

/-- A translation as a JSON value. -/
def toJson : Translation → Json
  | text s => .string s
  | lines ls => .array (ls.map .string)

end Translation

/-- Translations by key. Values are JSON, since a map that was read without checks may hold others
than translations. -/
structure KeyMap where
  entries : List (String × Json) := []

/-- Why a text is not a key map. -/
inductive KeyMap.LoadError
  | malformed
  | notObject
  | badValue (key : String)
  deriving DecidableEq, Repr

/-- The wording of a fault in JSON text. -/
def Json.Fault.message : Json.Fault → String
  | .malformed => "json:syntax"
  | .mismatch => "json:data"

/-- The causes of a load error, outermost first. -/
def KeyMap.LoadError.causes : KeyMap.LoadError → List String
  | .malformed => ["Invalid key map JSON", Json.Fault.malformed.message]
  | .notObject => ["Key map must be a JSON object of key -> translation"]
  | .badValue key => ["Translation for '" ++ key ++ "' must be a string or an array of strings"]

namespace KeyMap

/-- The keys in order. -/
def keys (m : KeyMap) : List String := m.entries.map (·.1)

/-- The number of entries. -/
def size (m : KeyMap) : Nat := m.entries.length

/-- Whether a key is present. -/
def contains (m : KeyMap) (key : String) : Bool := (Json.field? key m.entries).isSome

/-- Enters a translation at the end, unless the key is present. Says whether it was entered. -/
def insert (m : KeyMap) (key : String) (value : Translation) : KeyMap × Bool :=
  if m.contains key then (m, false) else (⟨m.entries ++ [(key, value.toJson)]⟩, true)

/-- The translation under a key. -/
def get? (m : KeyMap) (key : String) : Option Translation :=
  (Json.field? key m.entries).bind Translation.ofJson?

/-- The translation that `previous` offers for an entry: a non-empty one, where the entry holds
none. -/
def offered? (previous : KeyMap) (entry : String × Json) : Option Translation :=
  match previous.get? entry.1 with
  | some value =>
    if value.isEmpty then none
    else
      match Translation.ofJson? entry.2 with
      | some current => if current.isEmpty then some value else none
      | none => some value
  | none => none

/-- Carries the translations of `previous` over to the empty entries of the map. Returns the map with
the number of entries filled; keys of `previous` that the map does not have are dropped. -/
def mergeFrom (m previous : KeyMap) : KeyMap × Nat :=
  (⟨m.entries.map fun e =>
      match offered? previous e with
      | some value => (e.1, value.toJson)
      | none => e⟩,
    (m.entries.filter fun e => (offered? previous e).isSome).length)

/-- The first key whose value is no translation. -/
def firstBad? : List (String × Json) → Option String
  | [] => none
  | (key, value) :: rest =>
    if (Translation.ofJson? value).isNone then some key else firstBad? rest

/-- Reads a key map from JSON text. -/
def parse (text : String) : Except LoadError KeyMap :=
  match Json.parse? text with
  | none => .error .malformed
  | some (.object entries) =>
    match firstBad? entries with
    | some key => .error (.badValue key)
    | none => .ok ⟨entries⟩
  | some _ => .error .notObject

/-- Reads any JSON object as a key map, without looking at its values. -/
def parseUnchecked (text : String) : Except Json.Fault KeyMap :=
  (Json.decodeFields text).map KeyMap.mk

/-- The JSON text of a key map, four spaces to a level and a line break at the end. -/
def toText (m : KeyMap) : String := (Json.object m.entries).render 4 ++ "\n"

/-- The key map of a tree: the keys of all records in walk order, each with an empty translation. -/
def insertRecords (m : KeyMap) (records : List Doc.Record) : KeyMap :=
  records.foldl (fun m r => (m.insert r.key (.text "")).1) m

end KeyMap

/-- A key map and the misplaced tags met while building it. -/
structure KeyMapOutcome where
  keys : KeyMap := {}
  misplaced : List Doc.Misplaced := []

/-- Walks a tree and records every key that its flags expand to. -/
def Tree.keyMap (t : Tree) (languages : List String) : KeyMapOutcome :=
  t.walk.foldl
    (fun outcome id =>
      let e := Doc.expand t id languages
      ⟨outcome.keys.insertRecords e.records, outcome.misplaced ++ e.misplaced⟩)
    {}

end DocLocale
