import DocLocale.Decl.Tree

/-!
Keys of declarations. A name becomes a lower-case segment with hyphens, and the key of a node is the
list of segments from below the root down to it, joined by dots.
-/

set_option autoImplicit false
set_option relaxedAutoImplicit false

namespace DocLocale.Key

/-- One character of a name behind the first: a capital becomes a hyphen and its small letter. -/
def hyphenate (c : Char) : List Char := if c.isUpper then ['-', c.toLower] else [c]

/-- The segment of a name. The first character is only lowered. -/
def segmentChars : List Char → List Char
  | [] => []
  | c :: cs => c.toLower :: cs.flatMap hyphenate

/-- The key segment of a declaration name: `getValue` gives `get-value`. -/
def segment (name : String) : String := String.ofList (segmentChars name.toList)

/-- The dotted key of a node; the root has the empty key. -/
def ofNode (t : Tree) (id : NodeId) : String :=
  ".".intercalate ((t.ancestry (t.size + 1) id).dropLast.reverse.map fun i => segment (t.name i))

end DocLocale.Key
