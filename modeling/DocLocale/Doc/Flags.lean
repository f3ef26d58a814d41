import DocLocale.Decl.Kind

/-!
Doc flags: the ordered tag names that decide which comment lines a declaration gets. They start from
the defaults of the declaration's kind and take in the tags of its doc comment.
-/

set_option autoImplicit false
set_option relaxedAutoImplicit false

namespace DocLocale.Doc

/-- The tag that switches documentation off for a declaration. -/
def disableTag : String := "disable"

/-- Tags with a meaning of their own. -/
inductive Tag
  | deprecated | text | sample | params | returns
  deriving DecidableEq, Repr

namespace Tag

/-- All tags. -/
def all : List Tag := [deprecated, text, sample, params, returns]

/-- The name of a tag in flag lists. -/
def name : Tag → String
  | deprecated => "deprecated"
  | text => "text"
  | sample => "example"
  | params => "params"
  | returns => "returns"

/-- The tag of a given name. -/
def ofName? (s : String) : Option Tag := all.find? (·.name = s)

/-- The tag a comment means by a word: also `param`, which comments write once per parameter. -/
def ofSourceName? (s : String) : Option Tag := if s = "param" then some params else ofName? s

/-- A repeatable tag keeps every occurrence; the others are kept once. -/
def isRepeatable : Tag → Bool
  | text => true
  | _ => false

end Tag

/-- Whether a name is a tag, the disabling one included. -/
def isKnownTag (name : String) : Bool := name = disableTag || (Tag.ofName? name).isSome

/-- Whether every occurrence of a name is kept. -/
def isRepeatable (name : String) : Bool := (Tag.ofName? name).any Tag.isRepeatable

/-- The flag name that a word of a comment stands for. -/
def canonicalName (word : String) : String :=
  match Tag.ofSourceName? word with
  | some tag => tag.name
  | none => word

/-- Whether a declaration is documented, and by which flags. -/
structure Flags where
  enabled : Bool
  names : List String
  deriving DecidableEq, Repr

namespace Flags

/-- Flags of a declaration whose documentation is off. -/
def disabled : Flags := ⟨false, []⟩

/-- The flags that give comment lines. -/
def active (f : Flags) : List String := if f.enabled then f.names else []

/-- Adds a name at the end, unless it is already there and not repeatable. -/
def push (names : List String) (name : String) : List String :=
  if isRepeatable name || !names.contains name then names ++ [name] else names

end Flags

/-- The flags every declaration of a kind starts with. -/
def defaultFlags : Kind → List String
  | .constructor => [Tag.text.name, Tag.params.name]
  | .function | .method => [Tag.text.name, Tag.params.name, Tag.returns.name]
  | _ => [Tag.text.name]

/-- Flags together with the positions of the tags that are not known. -/
structure FlagOutcome where
  flags : Flags
  unknown : List Nat
  deriving DecidableEq, Repr

/-- Takes in the tags of a comment one by one. `index` is the position of the next tag and `met` holds
the repeatable names seen so far: as many of them as the defaults hold stand for the default entries.
The disabling tag ends the scan. -/
def scanTags (defaults : List String) (index : Nat) (names : List String) (unknown : List Nat)
    (met : List String) : List String → FlagOutcome
  | [] => ⟨⟨true, names⟩, unknown⟩
  | word :: words =>
    let name := canonicalName word
    if name = disableTag then ⟨Flags.disabled, unknown⟩
    else
      let unknown := if isKnownTag name then unknown else unknown ++ [index]
      if isRepeatable name && met.count name < defaults.count name then
        scanTags defaults (index + 1) names unknown (name :: met) words
      else
        scanTags defaults (index + 1) (Flags.push names name) unknown (name :: met) words

/-- The flags of a declaration of the given kind with the given tags, in source order. Unknown tags are
kept as flags and reported by position. -/
def buildFlags (kind : Kind) (tags : List String) : FlagOutcome :=
  scanTags (defaultFlags kind) 0 (defaultFlags kind) [] [] tags

end DocLocale.Doc
