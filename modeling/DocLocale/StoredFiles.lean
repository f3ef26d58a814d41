import DocLocale.Config
import DocLocale.Disk
import DocLocale.Key.Map

/-!
Files of settings and key maps. The settings that hold in a directory are in the nearest configuration
file above it, up to the directory that holds the repository.
-/

set_option autoImplicit false
set_option relaxedAutoImplicit false

namespace DocLocale

namespace Config

/-- What marks the topmost directory of a repository. -/
def repositoryMark : String := ".git"

/-- The configuration file of a directory, looked for in at most `depth` directories upwards. -/
def findFrom? (d : Disk) : Nat → String → Option String
  | 0, _ => none
  | depth + 1, directory =>
    if d.exists? (Path.join directory fileName) then some (Path.join directory fileName)
    else if d.exists? (Path.join directory repositoryMark) then none
    else (Path.parent? directory).bind (findFrom? d depth)

/-- The configuration file of a directory. -/
def find? (d : Disk) (directory : String) : Option String :=
  findFrom? d (directory.length + 1) directory

/-- Why a configuration file cannot be used. -/
inductive FileFault
  | unreadable (path : String) (error : FileError)
  | malformed (path : String) (fault : Json.Fault)
  | refused (path : String) (reason : Invalid)

/-- The causes of a fault, outermost first. -/
def FileFault.causes : FileFault → List String
  | unreadable path e => ["Failed to read config file: " ++ Text.quoted path, e.label]
  | malformed path f => ["Failed to parse config file: " ++ Text.quoted path, f.message]
  | refused path r => ("Invalid config file: " ++ Text.quoted path) :: r.causes

/-- A configuration and the file it was read from, if there was one. -/
structure Found where
  config : Config
  path : Option String

/-- Reads a configuration file. -/
def loadFrom (d : Disk) (path : String) : Except FileFault Config :=
  match d.read path with
  | .error e => .error (.unreadable path e)
  | .ok text =>
    match parse text with
    | .error f => .error (.malformed path f)
    | .ok c =>
      match c.invalid? with
      | some r => .error (.refused path r)
      | none => .ok c

/-- The configuration that holds in a directory. -/
def load (d : Disk) (directory : String) : Except FileFault Found :=
  match find? d directory with
  | none => .ok ⟨{}, none⟩
  | some path => (loadFrom d path).map fun c => ⟨c, some path⟩

end Config

namespace KeyMap

/-- Why a key map cannot be read from or written to a file. -/
inductive FileFault
  | unreadable (path : String) (error : FileError)
  | malformed (path : String) (error : LoadError)
  | unwritable (path : String) (error : Disk.SaveError)

/-- The causes of a fault, outermost first. -/
def FileFault.causes : FileFault → List String
  | unreadable path e => ["Failed to read key map: " ++ Text.quoted path, e.label]
  | malformed path e => ("Failed to load key map: " ++ Text.quoted path) :: e.causes
  | unwritable path e => ("Failed to save key map: " ++ Text.quoted path) :: e.causes

/-- The file system that a fault leaves of the one it started from. -/
def FileFault.left (d : Disk) : FileFault → Disk
  | unwritable _ e => e.left
  | _ => d

/-- Reads a key map from a file. -/
def load (d : Disk) (path : String) : Except FileFault KeyMap :=
  match d.read path with
  | .error e => .error (.unreadable path e)
  | .ok text =>
    match parse text with
    | .error e => .error (.malformed path e)
    | .ok m => .ok m

/-- Writes a key map to a file. -/
def save (d : Disk) (path : String) (m : KeyMap) : Except FileFault Disk :=
  match d.save path m.toText with
  | .error e => .error (.unwritable path e)
  | .ok d => .ok d

end KeyMap

end DocLocale
