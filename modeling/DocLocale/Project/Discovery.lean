import DocLocale.Disk
import DocLocale.Glob
import DocLocale.Source.Reference

/-!
Discovery of the files of a project: the entry, and every file that it refers to directly or through
others. Files that match an ignore pattern are left out, and what only they refer to with them.
-/

set_option autoImplicit false
set_option relaxedAutoImplicit false

namespace DocLocale.Project

/-- A search for files. Every file is entered once, when it is first referred to. -/
structure Search where
  seen : List String
  ignored : List String := []
  /-- Files that are still to be read, latest first. -/
  pending : List String

/-- The directory of a file. -/
def directoryOf (file : String) : String := (Path.parent? file).getD ""

/-- What a search is about: the directory that ignore patterns are seen from, and the patterns. -/
structure Scope where
  base : String
  patterns : List (List Glob.Token)

/-- Whether a file is left out. -/
def Scope.ignores (s : Scope) (file : String) : Bool :=
  s.patterns.any fun p => Glob.matchTokens p (Path.relative s.base file).toList

namespace Search

/-- Enters a file that was referred to, unless it is known or left out. -/
def enter (scope : Scope) (s : Search) (target : String) : Search :=
  if s.seen.contains target || s.ignored.contains target then s
  else if scope.ignores target then { s with ignored := target :: s.ignored }
  else { s with seen := target :: s.seen, pending := target :: s.pending }

/-- The files that a file with the given text refers to. -/
def targets (file text : String) : List String :=
  (Source.referencePaths text).map fun r => Path.normalize (Path.join (directoryOf file) r)

/-- Enters what a file with the given text refers to. -/
def visit (scope : Scope) (s : Search) (file text : String) : Search :=
  (targets file text).foldl (enter scope) s

/-- Reads pending files, at most `fuel` of them: the search at its end, and the file that could not be
read, if there was one. -/
def run (read : String → Except FileError String) (scope : Scope) :
    Nat → Search → Search × Option (String × FileError)
  | 0, s => (s, none)
  | fuel + 1, s =>
    match s.pending with
    | [] => (s, none)
    | file :: pending =>
      match read file with
      | .error e => (s, some (file, e))
      | .ok text => run read scope fuel (visit scope { s with pending := pending } file text)

end Search

/-- Why files cannot be discovered. -/
inductive DiscoveryError
  | badPattern (pattern : String) (error : Glob.PatternError)
  | unresolved (path : String) (error : FileError)
  | unreadable (path : String) (error : FileError)
  deriving DecidableEq, Repr

/-- The causes of a discovery error, outermost first. -/
def DiscoveryError.causes : DiscoveryError → List String
  | badPattern pattern e => ["Invalid ignore pattern: " ++ pattern, e.message]
  | unresolved path e => ["Failed to resolve path: " ++ Text.quoted path, e.label]
  | unreadable path e => ["Failed to read declaration file: " ++ Text.quoted path, e.label]

/-- The files of a project: its entry, all files that belong to it and those left out, both in order. -/
structure Discovered where
  entry : String
  files : List String
  ignored : List String

/-- Reads patterns; the first that cannot be read is an error. -/
def readPatterns : List String → Except DiscoveryError (List (List Glob.Token))
  | [] => .ok []
  | p :: ps =>
    match Glob.parse p with
    | .error e => .error (.badPattern p e)
    | .ok tokens => (readPatterns ps).map (tokens :: ·)

/-- The absolute path of an entry. -/
def absolute (d : Disk) (entry : String) : Except DiscoveryError String :=
  if entry.isEmpty then .error (.unresolved entry .invalidInput)
  else .ok (Path.normalize (Path.join d.herePath entry))

/-- How many files a search can read: two paths lead to each, one of them with a step up at the root. -/
def searchLimit (d : Disk) : Nat := 2 * (d.entries.length + 1)

/-- The search from an entry whose absolute path is given. -/
def search (d : Disk) (scope : Scope) (entry : String) : Search × Option (String × FileError) :=
  Search.run d.read scope (searchLimit d) { seen := [entry], pending := [entry] }

/-- Discovers the files of a project. -/
def discover (d : Disk) (entry : String) (ignores : List String) :
    Except DiscoveryError Discovered := do
  let patterns ← readPatterns ignores
  let entry ← absolute d entry
  match search d ⟨directoryOf entry, patterns⟩ entry with
  | (s, none) => return ⟨entry, Path.sort s.seen, Path.sort s.ignored⟩
  | (_, some (file, e)) => throw (.unreadable file e)

end DocLocale.Project
