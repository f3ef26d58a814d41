import DocLocale.Text.Blank

/-!
Paths of a file system with one root. A path is a text; what matters is the list of its components,
from which repeated slashes, a trailing slash and dots that are not at the front have vanished.
-/

set_option autoImplicit false
set_option relaxedAutoImplicit false

namespace DocLocale.Path

/-- A component of a path. -/
inductive Component
  | root
  | current
  | parent
  | normal (name : String)
  deriving DecidableEq, Repr

namespace Component

/-- The text of a component. -/
def text : Component → String
  | root => "/"
  | current => "."
  | parent => ".."
  | normal name => name

end Component

/-- The component of one part between slashes; empty parts and dots have none. -/
def partComponent? (part : List Char) : Option Component :=
  if part = [] || part = ['.'] then none
  else if part = ['.', '.'] then some .parent
  else some (.normal (String.ofList part))

/-- Whether a path starts at the root. -/
def isAbsolute (path : String) : Bool := path.toList.head? = some '/'

/-- The components of a path. -/
def components (path : String) : List Component :=
  let parts := Text.splitAt '/' path.toList
  let front :=
    if isAbsolute path then [Component.root]
    else if parts.head? = some ['.'] then [Component.current]
    else []
  front ++ parts.filterMap partComponent?

/-- The path with the given components. -/
def ofComponents : List Component → String
  | .root :: cs => "/" ++ "/".intercalate (cs.map Component.text)
  | cs => "/".intercalate (cs.map Component.text)

/-- `path` seen from `base`: an absolute path replaces it, any other is put behind it. -/
def join (base path : String) : String :=
  if isAbsolute path || base.isEmpty then path
  else if base.toList.getLast? = some '/' then base ++ path
  else base ++ "/" ++ path

/-- One step of resolving components, on the reversed list of those kept. A step up removes the last
one; where nothing is left to remove it is kept itself. -/
def resolveStep (kept : List Component) : Component → List Component
  | .current => kept
  | .parent =>
    match kept with
    | [] | [.root] => .parent :: kept
    | _ :: rest => rest
  | c => c :: kept

/-- Resolves dots and steps up without looking at the file system. -/
def resolve (cs : List Component) : List Component := (cs.foldl resolveStep []).reverse

/-- The path with dots and steps up resolved. -/
def normalize (path : String) : String := ofComponents (resolve (components path))

/-- Drops the longest common front of two lists. -/
def dropCommon : List Component → List Component → List Component × List Component
  | a :: as, b :: bs => if a = b then dropCommon as bs else (a :: as, b :: bs)
  | as, bs => (as, bs)

/-- The path that leads from `base` to `target`: a step up for each component of `base` that they do
not share, then the rest of `target`. -/
def relative (base target : String) : String :=
  let (up, down) := dropCommon (components base) (components target)
  "/".intercalate (up.map (fun _ => "..") ++ down.map Component.text)

/-- The directory that holds a path: the path without its last component. The root and the empty path
have none. -/
def parent? (path : String) : Option String :=
  match (components path).reverse with
  | [] | [.root] => none
  | _ =>
    let text := (path.toList.reverse.dropWhile (· = '/'))
    let trimmed := dropTrailing text
    some (String.ofList trimmed.reverse)
where
  /-- Drops the last component and the slashes and dots before it, on the reversed text. -/
  dropTrailing (text : List Char) : List Char :=
    let rest := (dropDots (text.length + 1) text).dropWhile (· ≠ '/')
    match rest.dropWhile (· = '/') with
    | [] => if rest.isEmpty then [] else ['/']
    | _ => dropDots (rest.length + 1) rest
  /-- Drops trailing slashes and trailing parts that are a single dot behind a slash. -/
  dropDots : Nat → List Char → List Char
    | 0, text => text
    | fuel + 1, text =>
      match text with
      | '/' :: rest => if rest.isEmpty then text else dropDots fuel rest
      | '.' :: '/' :: rest => if rest.isEmpty then ['/'] else dropDots fuel ('/' :: rest)
      | text => text

/-- The place of a kind of component among the others. -/
def Component.rank : Component → Nat
  | root => 0
  | current => 1
  | parent => 2
  | normal _ => 3

/-- Whether a component may stand before another: first by kind, then by name. -/
def Component.le (a b : Component) : Bool :=
  match a, b with
  | .normal x, .normal y => x ≤ y
  | a, b => a.rank ≤ b.rank

/-- The order of component lists: by the first component that differs, a front before the longer
list. -/
def componentsLe : List Component → List Component → Bool
  | [], _ => true
  | _ :: _, [] => false
  | a :: as, b :: bs => if a = b then componentsLe as bs else a.le b

/-- The order of paths. -/
def le (a b : String) : Bool := componentsLe (components a) (components b)

/-- Paths in order. -/
def sort (paths : List String) : List String := paths.mergeSort le

/-- The parts of a text around the last slash. -/
def splitLastSlash : List Char → Option (List Char × List Char)
  | [] => none
  | c :: cs =>
    match splitLastSlash cs with
    | some (before, after) => some (c :: before, after)
    | none => if c = '/' then some ([], cs) else none

/-- Replaces every step up with its slash by a hash, from left to right. -/
def markSteps : List Char → List Char
  | '.' :: '.' :: '/' :: rest => '#' :: markSteps rest
  | c :: rest => c :: markSteps rest
  | [] => []

/-- The name under which a file enters keys: its path from `base` with steps up as hashes, a dot
between directory and file, and hyphens for the dots of the file name. -/
def fileKey (base file : String) : String :=
  let rel := (relative base file).toList
  let (dir, last) := (splitLastSlash rel).getD ([], rel)
  let dir := ((markSteps (dir ++ ['/'])).reverse.dropWhile (· = '/')).reverse
  let last := last.map fun c => if c = '.' then '-' else c
  if dir = [] then String.ofList last else String.ofList (dir ++ '.' :: last)

end DocLocale.Path
