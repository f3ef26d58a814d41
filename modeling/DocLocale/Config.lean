import DocLocale.Glob
import DocLocale.Json.Decode
import DocLocale.Json.Writer
import DocLocale.Render.Layout
import DocLocale.Text.Quoted

/-!
Configuration: how code is laid out, which languages there are and which files are left out.
-/

set_option autoImplicit false
set_option relaxedAutoImplicit false

namespace DocLocale

/-- The settings of a project. -/
structure Config where
  indentSize : Nat := 4
  newline : String := "\n"
  commentMaxWidth : Nat := 80
  /-- Languages that examples are written for. -/
  supportedLanguages : List String := ["ts"]
  /-- Language in which comments are rendered. -/
  language : String := "en_us"
  /-- Patterns of referenced files that are not read, seen from the directory of the entry. -/
  ignores : List String := []
  /-- Where the key map is kept. -/
  keysFile : String := "./i18n/keys.json"
  deriving DecidableEq, Repr

namespace Config

/-- The name of the configuration file. -/
def fileName : String := ".dtsi18nrc.json"

/-- The narrowest comment that is accepted. -/
def minCommentWidth : Nat := 10

/-- Reads the value of one field. -/
def readField (name : String) (c : Config) (cs : List Char) :
    Except Json.Fault (Config × List Char) :=
  if name = "indentSize" then
    (Json.decodeNat cs).map fun (n, r) => ({ c with indentSize := n }, r)
  else if name = "newline" then
    (Json.decodeString cs).map fun (s, r) => ({ c with newline := s }, r)
  else if name = "commentMaxWidth" then
    (Json.decodeNat cs).map fun (n, r) => ({ c with commentMaxWidth := n }, r)
  else if name = "supportedLanguages" then
    (Json.decodeStringList cs).map fun (l, r) => ({ c with supportedLanguages := l }, r)
  else if name = "language" then
    (Json.decodeString cs).map fun (s, r) => ({ c with language := s }, r)
  else if name = "ignores" then
    (Json.decodeStringList cs).map fun (l, r) => ({ c with ignores := l }, r)
  else if name = "keysFile" then
    (Json.decodeString cs).map fun (s, r) => ({ c with keysFile := s }, r)
  else .error .mismatch

/-- The fields of a configuration. -/
def fields : Json.Fields Config where
  names := ["indentSize", "newline", "commentMaxWidth", "supportedLanguages", "language", "ignores",
    "keysFile"]
  read := readField

/-- Reads a configuration from JSON text. -/
def parse (text : String) : Except Json.Fault Config := fields.decode {} text

/-- Why a configuration is refused. -/
inductive Invalid
  | indentSize
  | newline (got : String)
  | commentMaxWidth (got : Nat)
  | noLanguages
  | ignorePattern (pattern : String) (error : Glob.PatternError)
  deriving DecidableEq, Repr

/-- The causes of a refusal, outermost first. -/
def Invalid.causes : Invalid → List String
  | indentSize => ["'indentSize' must be greater than 0"]
  | newline got => ["'newline' must be \"\\n\" or \"\\r\\n\", got " ++ Text.quoted got]
  | commentMaxWidth got =>
    ["'commentMaxWidth' must be at least " ++ toString minCommentWidth ++ ", got " ++ toString got]
  | noLanguages => ["'supportedLanguages' must not be empty"]
  | ignorePattern pattern error =>
    ["Invalid glob pattern in 'ignores': \"" ++ pattern ++ "\"", error.message]

/-- The first pattern that cannot be read. -/
def firstBadPattern? : List String → Option (String × Glob.PatternError)
  | [] => none
  | p :: ps =>
    match Glob.parse p with
    | .ok _ => firstBadPattern? ps
    | .error e => some (p, e)

/-- The first reason to refuse a configuration. -/
def invalid? (c : Config) : Option Invalid :=
  if c.indentSize = 0 then some .indentSize
  else if c.newline ≠ "\n" && c.newline ≠ "\r\n" then some (.newline c.newline)
  else if c.commentMaxWidth < minCommentWidth then some (.commentMaxWidth c.commentMaxWidth)
  else if c.supportedLanguages.isEmpty then some .noLanguages
  else (firstBadPattern? c.ignores).map fun (p, e) => .ignorePattern p e

/-- The layout of code under a configuration. -/
def style (c : Config) : Render.Style := ⟨c.indentSize, c.newline⟩

/-- A configuration as JSON. -/
def toJson (c : Config) : Json :=
  .object [("indentSize", .nat c.indentSize), ("newline", .string c.newline),
    ("commentMaxWidth", .nat c.commentMaxWidth),
    ("supportedLanguages", .array (c.supportedLanguages.map .string)),
    ("language", .string c.language), ("ignores", .array (c.ignores.map .string)),
    ("keysFile", .string c.keysFile)]

/-- The text of the configuration that holds when none is given. -/
def defaultText : String := (toJson {}).render 2

end Config

end DocLocale
