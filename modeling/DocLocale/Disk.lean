import DocLocale.Path
import DocLocale.Text.Quoted

/-!
A finite file system: what is found under each place, and the working directory. Places are lists of
names from the root on; a path is followed part by part, so a step up behind a missing directory fails.
-/

set_option autoImplicit false
set_option relaxedAutoImplicit false

namespace DocLocale

/-- Why a file cannot be used. -/
inductive FileError
  | notFound
  | isADirectory
  | notADirectory
  | alreadyExists
  /-- The file is no text. -/
  | invalidData
  /-- The path is none. -/
  | invalidInput
  deriving DecidableEq, Repr

/-- The label of a file error. -/
def FileError.label : FileError → String
  | notFound => "io:NotFound"
  | isADirectory => "io:IsADirectory"
  | notADirectory => "io:NotADirectory"
  | alreadyExists => "io:AlreadyExists"
  | invalidData => "io:InvalidData"
  | invalidInput => "io:InvalidInput"

/-- What is found at a place. -/
inductive Entry
  | directory
  | text (content : String)
  /-- A file that is no text. -/
  | binary
  deriving DecidableEq, Repr

/-- A file system. -/
structure Disk where
  entries : List (List String × Entry) := []
  /-- The working directory. -/
  here : List String := []
  deriving DecidableEq, Repr

namespace Disk

/-- What is found at a place; the root is always there. -/
def entry? (d : Disk) (place : List String) : Option Entry :=
  if place = [] then some .directory
  else (d.entries.find? fun e => e.1 = place).map (·.2)

/-- Puts an entry at a place. -/
def put (d : Disk) (place : List String) (e : Entry) : Disk :=
  if d.entries.any fun x => x.1 = place then
    { d with entries := d.entries.map fun x => if x.1 = place then (place, e) else x }
  else { d with entries := d.entries ++ [(place, e)] }

/-- Follows the parts of a path from a place. All parts but the last have to lead to directories. -/
def follow (d : Disk) (place : List String) : List (List Char) → Except FileError (List String)
  | [] => .ok place
  | part :: parts =>
    match d.entry? place with
    | none => .error .notFound
    | some .directory =>
      if part = [] || part = ['.'] then d.follow place parts
      else if part = ['.', '.'] then d.follow place.dropLast parts
      else d.follow (place ++ [String.ofList part]) parts
    | some _ => .error .notADirectory

/-- The place a path leads to; there may be nothing there. -/
def locate (d : Disk) (path : String) : Except FileError (List String) :=
  if path.isEmpty then .error .notFound
  else if path.toList.contains (Char.ofNat 0) then .error .invalidInput
  else d.follow (if Path.isAbsolute path then [] else d.here) (Text.splitAt '/' path.toList)

/-- The working directory as a path. -/
def herePath (d : Disk) : String := "/" ++ "/".intercalate d.here

/-- What a path leads to. -/
def find? (d : Disk) (path : String) : Option Entry :=
  match d.locate path with
  | .ok place => d.entry? place
  | .error _ => none

/-- Whether a path leads to something. -/
def exists? (d : Disk) (path : String) : Bool := (d.find? path).isSome

/-- Whether a path leads to a directory. -/
def isDirectory (d : Disk) (path : String) : Bool := d.find? path = some .directory

/-- Reads a text. -/
def read (d : Disk) (path : String) : Except FileError String :=
  match d.locate path with
  | .error e => .error e
  | .ok place =>
    match d.entry? place with
    | none => .error .notFound
    | some .directory => .error .isADirectory
    | some .binary => .error .invalidData
    | some (.text content) => .ok content

/-- A path without the slashes at its end. -/
def withoutSlash (path : String) : String :=
  String.ofList (path.toList.reverse.dropWhile (· = '/')).reverse

/-- Writes a text. A path that ends with a slash names no file. -/
def write (d : Disk) (path content : String) : Except FileError Disk :=
  let bare := withoutSlash path
  match d.locate (if bare.isEmpty then path else bare) with
  | .error e => .error e
  | .ok place =>
    match d.entry? place with
    | some .directory => .error .isADirectory
    | some _ => if bare = path then .ok (d.put place (.text content)) else .error .notADirectory
    | none =>
      if bare ≠ path then .error .isADirectory
      else
        match d.entry? place.dropLast with
        | some .directory => .ok (d.put place (.text content))
        | some _ => .error .notADirectory
        | none => .error .notFound

/-- Makes a directory in one that exists. -/
def makeDirectory (d : Disk) (path : String) : Except FileError Disk :=
  let bare := withoutSlash path
  match d.locate (if bare.isEmpty then path else bare) with
  | .error e => .error e
  | .ok place =>
    match d.entry? place with
    | some _ => .error .alreadyExists
    | none =>
      match d.entry? place.dropLast with
      | some .directory => .ok (d.put place .directory)
      | some _ => .error .notADirectory
      | none => .error .notFound

/-- Makes a directory, together with those above it that are missing, at most `depth` of them. An error
comes with the file system that is left, where some of them may have been made. -/
def makeDirectories (d : Disk) : Nat → String → Except (FileError × Disk) Disk
  | 0, _ => .error (.notFound, d)
  | depth + 1, path =>
    if path.isEmpty then .ok d
    else
      let again (d : Disk) (e : FileError) : Except (FileError × Disk) Disk :=
        if d.isDirectory path then .ok d else .error (e, d)
      match d.makeDirectory path with
      | .ok d => .ok d
      | .error .notFound =>
        match Path.parent? path with
        | none => .error (.notFound, d)
        | some parent =>
          match d.makeDirectories depth parent with
          | .error e => .error e
          | .ok d =>
            match d.makeDirectory path with
            | .ok d => .ok d
            | .error e => again d e
      | .error e => again d e

/-- Why a text cannot be kept, and the file system that is left. -/
inductive SaveError
  | directory (path : String) (error : FileError) (left : Disk)
  | file (path : String) (error : FileError) (left : Disk)
  deriving DecidableEq, Repr

/-- The causes of a save error, outermost first. -/
def SaveError.causes : SaveError → List String
  | directory path e _ => ["Failed to create directory: " ++ Text.quoted path, e.label]
  | file path e _ => ["Failed to write file: " ++ Text.quoted path, e.label]

/-- The file system that a save error leaves. -/
def SaveError.left : SaveError → Disk
  | directory _ _ d | file _ _ d => d

/-- Writes a text and makes the directories above it that are missing. -/
def save (d : Disk) (path content : String) : Except SaveError Disk :=
  let prepared : Except SaveError Disk :=
    match Path.parent? path with
    | none => .ok d
    | some parent =>
      match d.makeDirectories (parent.length + 1) parent with
      | .ok d => .ok d
      | .error (e, left) => .error (.directory parent e left)
  match prepared with
  | .error e => .error e
  | .ok d =>
    match d.write path content with
    | .ok d => .ok d
    | .error e => .error (.file path e d)

end Disk

end DocLocale
