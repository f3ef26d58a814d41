import DocLocale.Doc.Record

/-!
Issues found while reading declarations. They do not stop anything: each says where it was found, what
it is about and what could be done.
-/

set_option autoImplicit false
set_option relaxedAutoImplicit false

namespace DocLocale

/-- A place in a file, counted from one, with the line it is on. -/
structure Place where
  file : String
  line : Nat
  column : Nat
  source : String
  deriving DecidableEq, Repr

/-- The rules that issues fall under. -/
inductive Rule
  | unknownTag | misplacedTag | unsupported
  deriving DecidableEq, Repr

/-- The name of a rule. -/
def Rule.label : Rule → String
  | unknownTag => "unknown-tag"
  | misplacedTag => "misplaced-tag"
  | unsupported => "unsupported-syntax"

/-- An issue. -/
inductive Issue
  /-- A tag that is not known; it is kept and expanded under its own name. -/
  | unknownTag (place : Place) (tag : String)
  /-- A known tag on a declaration that does not take it. -/
  | misplacedTag (tag : Doc.Misplaced)
  /-- A construct that is left out of the tree. -/
  | unsupported (place : Place) (construct : String)
  deriving DecidableEq, Repr

namespace Issue

/-- The rule of an issue. -/
def rule : Issue → Rule
  | unknownTag .. => .unknownTag
  | misplacedTag _ => .misplacedTag
  | unsupported .. => .unsupported

/-- What an issue says. -/
def message : Issue → String
  | unknownTag _ tag => "unknown doc tag '@" ++ tag ++ "'"
  | misplacedTag m => "'@" ++ m.tag ++ "' is not allowed on " ++ m.kind.label ++ " '" ++ m.node ++ "'"
  | unsupported _ construct => construct ++ " is not supported and was skipped"

/-- How an issue can be mended. -/
def hint? : Issue → Option String
  | unknownTag .. => some "known tags: @text, @deprecated, @example, @params, @returns, @disable"
  | _ => none

/-- A note to an issue. -/
def note? : Issue → Option String
  | misplacedTag _ => some "only functions, methods and constructors take this tag"
  | _ => none

/-- Where issues are sorted to: those with a place in a file come first, by file, line and column, and
the others follow by key. -/
def sortKey : Issue → Nat × String × Nat × Nat
  | unknownTag p _ | unsupported p _ => (0, p.file, p.line, p.column)
  | misplacedTag m => (1, m.key, 0, 0)

/-- Whether an issue may stand before another. -/
def le (a b : Issue) : Bool :=
  let (ga, na, la, ca) := a.sortKey
  let (gb, nb, lb, cb) := b.sortKey
  ga < gb || (ga = gb && (na < nb || (na = nb && (la < lb || (la = lb && ca ≤ cb)))))

/-- Issues in the order of their places; equal places keep their order. -/
def sort (issues : List Issue) : List Issue := issues.mergeSort le

end Issue

end DocLocale
