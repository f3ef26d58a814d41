import DocLocale.Project.Assembly
import DocLocale.Project.Discovery

/-!
Loading of a project: its files are discovered, read, and built into one tree.
-/

set_option autoImplicit false
set_option relaxedAutoImplicit false

namespace DocLocale.Project

/-- Why a project cannot be loaded. -/
inductive LoadingError
  | discovery (error : DiscoveryError)
  | assembly (error : AssemblyError)

/-- The causes of a loading error, outermost first. -/
def LoadingError.causes : LoadingError → List String
  | discovery e => e.causes
  | assembly e => [e.message]

/-- A loaded project. -/
structure Loaded where
  assembly : Assembly
  /-- The files of the tree in order. -/
  files : List String
  ignored : List String

/-- Reads the files of a project. They are shown under the directory that the entry was given with. -/
def readInputs (d : Disk) (base shown : String) : List String → Except DiscoveryError (List Input)
  | [] => .ok []
  | file :: files =>
    match d.read file with
    | .error e => .error (.unreadable file e)
    | .ok text =>
      (readInputs d base shown files).map
        (⟨Path.fileKey base file, Path.join shown (Path.relative base file), text⟩ :: ·)

/-- Loads a project. -/
def load (d : Disk) (entry : String) (ignores : List String) : Except LoadingError Loaded :=
  match discover d entry ignores with
  | .error e => .error (.discovery e)
  | .ok found =>
    match readInputs d (directoryOf found.entry) (directoryOf entry) found.files with
    | .error e => .error (.discovery e)
    | .ok inputs =>
      match assemble inputs with
      | .error e => .error (.assembly e)
      | .ok a => .ok ⟨a, found.files, found.ignored⟩

end DocLocale.Project
