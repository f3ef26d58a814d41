import DocLocale.Command.Report
import DocLocale.Command.Request
import DocLocale.Decl.Dump
import DocLocale.Project.Loading
import DocLocale.Render.Declaration
import DocLocale.StoredFiles

/-!
Commands. A run reads from a file system and gives what is printed, the file system afterwards, and how
it ended.
-/

set_option autoImplicit false
set_option relaxedAutoImplicit false

namespace DocLocale.Command

/-- How a run ends: with an exit code, or with an error and its causes, outermost first. -/
inductive Ending
  | exit (code : Nat)
  | fatal (causes : List String)
  deriving DecidableEq, Repr

/-- A run. -/
structure Outcome where
  output : String := ""
  errors : String := ""
  disk : Disk
  ending : Ending

/-- A command with its settings and project, and the notes printed so far. -/
structure Setting where
  config : Config
  project : Project.Loaded
  notes : String

/-- A note. -/
def note (text : String) : String := "Note: " ++ text ++ "\n"

/-- The note on the settings. -/
def configNote (found : Config.Found) : String :=
  match found.path with
  | some path => note ("Using config " ++ path)
  | none => note ("No " ++ Config.fileName ++ " found, using default configuration")

/-- The notes on the files of a project. -/
def fileNotes (p : Project.Loaded) : String :=
  String.join (p.files.map fun f => note ("Loaded " ++ f)) ++
    String.join (p.ignored.map fun f => note ("Ignored " ++ f))

/-- An error before anything was printed but notes, and the file system that is left. -/
structure Failure where
  notes : String
  causes : List String
  disk : Disk

/-- Notes, if they are asked for. -/
def noted (c : Common) (text : String) : String := if c.verbose then text else ""

/-- Reads the settings and the project of a command. -/
def prepare (d : Disk) (c : Common) : Except Failure Setting :=
  match Config.load d d.herePath with
  | .error e => .error ⟨"", e.causes, d⟩
  | .ok found =>
    let notes := noted c (configNote found)
    match Project.load d c.entry found.config.ignores with
    | .error e => .error ⟨notes, ("Failed to load " ++ c.entry) :: e.causes, d⟩
    | .ok p => .ok ⟨found.config, p, notes ++ noted c (fileNotes p)⟩

/-- What a command did: the text it printed, the file system, notes and issues. -/
structure Done where
  output : String
  disk : Disk
  notes : String
  issues : List Issue

/-- The issues of a project and misplaced tags, sorted. -/
def allIssues (p : Project.Loaded) (misplaced : List Doc.Misplaced) : List Issue :=
  Issue.sort (p.assembly.issues ++ misplaced.map .misplacedTag)

/-- How many files there are, in words. -/
def fileCount (p : Project.Loaded) : String :=
  let n := p.files.length
  toString n ++ " " ++ plural n "file" "files"

/-- The key map of a project with the translations kept from a file, and their number. -/
def mergedKeys (d : Disk) (path : String) (merge : Bool) (keys : KeyMap) :
    Except KeyMap.FileFault (KeyMap × Nat) :=
  if merge && d.exists? path then
    (KeyMap.load d path).map fun previous => keys.mergeFrom previous
  else .ok (keys, 0)

/-- The remark on translations that were kept. -/
def keptRemark (kept : Nat) : String :=
  if kept = 0 then ""
  else " (" ++ toString kept ++ " " ++ plural kept "translation" "translations" ++ " kept)"

/-- Writes the key map of a project. -/
def runKeys (colored : Colored) (d : Disk) (c : Common) (output : Option String) (merge : Bool) :
    Except Failure Done := do
  let s ← prepare d c
  let built := s.project.assembly.tree.keyMap s.config.supportedLanguages
  let path := output.getD s.config.keysFile
  match mergedKeys d path merge built.keys with
  | .error e => throw ⟨s.notes, e.causes, d⟩
  | .ok (keys, kept) =>
    let notes := s.notes ++
      if merge && !d.exists? path then
        noted c (note (path ++ " does not exist yet, nothing to merge"))
      else ""
    match keys.save d path with
    | .error e => throw ⟨notes, e.causes, e.left d⟩
    | .ok d =>
      let n := keys.size
      let message := "Wrote " ++ toString n ++ " " ++ plural n "key" "keys" ++ " from " ++
        fileCount s.project ++ " to " ++ path ++ keptRemark kept
      return ⟨success colored message, d, notes, allIssues s.project built.misplaced⟩

/-- The key map to translate from. One that is named has to be there; the configured one may be
missing. -/
def renderKeys (d : Disk) (c : Common) (s : Setting) (keys : Option String) :
    Except KeyMap.FileFault (KeyMap × String) :=
  match keys with
  | some path => (KeyMap.load d path).map fun m => (m, "")
  | none =>
    let path := s.config.keysFile
    if d.exists? path then (KeyMap.load d path).map fun m => (m, "")
    else .ok ({}, noted c (note (path ++ " not found, rendering untranslated keys")))

/-- Writes a text to a file, if one is named, and prints the message; prints the text otherwise. -/
def deliver (colored : Colored) (d : Disk) (output : Option String) (text message : String) :
    Except Disk.SaveError (String × Disk) :=
  match output with
  | none => .ok (text, d)
  | some path =>
    (d.save path text).map fun d => (success colored (message ++ " to " ++ path), d)

/-- Renders the declarations of a project with translated comments. -/
def runRender (colored : Colored) (d : Disk) (c : Common) (keys language output : Option String) :
    Except Failure Done := do
  let s ← prepare d c
  match renderKeys d c s keys with
  | .error e => throw ⟨s.notes, e.causes, d⟩
  | .ok (keys, remark) =>
    let notes := s.notes ++ remark
    let language := language.getD s.config.language
    let translator := Translator.ofLanguage keys language s.config.commentMaxWidth
    let source : Render.Source :=
      ⟨s.project.assembly.tree, translator, s.config.supportedLanguages⟩
    match Render.renderText source s.config.style with
    | (.error e, _) => throw ⟨notes, [e.message], d⟩
    | (.ok text, misplaced) =>
      let message := "Rendered " ++ fileCount s.project ++ " in '" ++ language ++ "'"
      match deliver colored d output text message with
      | .error e => throw ⟨notes, e.causes, e.left⟩
      | .ok (printed, d) => return ⟨printed, d, notes, allIssues s.project misplaced⟩

/-- Spaces to a level of a printed tree. -/
def treeIndent : Nat := 4

/-- Prints the tree of a project. -/
def runAst (colored : Colored) (d : Disk) (c : Common) (output : Option String) :
    Except Failure Done := do
  let s ← prepare d c
  let tree := s.project.assembly.tree
  let message := "Wrote " ++ toString tree.size ++ " " ++ plural tree.size "node" "nodes"
  match deliver colored d output (tree.dump treeIndent ++ "\n") message with
  | .error e => throw ⟨s.notes, e.causes, e.left⟩
  | .ok (printed, d) => return ⟨printed, d, s.notes, allIssues s.project []⟩

/-- Writes a configuration file, unless there is one. -/
def runInit (colored : Colored) (d : Disk) : Outcome :=
  let path := Config.fileName
  if d.exists? path then
    { errors := paint colored .red failureMark ++ " " ++ path ++
        " already exists, leaving it unchanged\n",
      disk := d, ending := .exit 1 }
  else
    match d.save path (Config.defaultText ++ "\n") with
    | .error e => { disk := e.left, ending := .fatal (("Failed to create " ++ path) :: e.causes) }
    | .ok d => { output := success colored ("Created " ++ path), disk := d, ending := .exit 0 }

/-- The outcome of a command on a project. Warnings are a failure if they are denied. -/
def conclude (colored : Colored) (c : Common) : Except Failure Done → Outcome
  | .error f => { errors := f.notes, disk := f.disk, ending := .fatal f.causes }
  | .ok done =>
    { output := done.output, errors := done.notes ++ report colored done.issues, disk := done.disk,
      ending := .exit (if c.denyWarnings && !done.issues.isEmpty then 1 else 0) }

/-- Runs a request. -/
def run (colored : Colored) (d : Disk) : Request → Outcome
  | .keys c output merge => conclude colored c (runKeys colored d c output merge)
  | .render c keys language output => conclude colored c (runRender colored d c keys language output)
  | .ast c output => conclude colored c (runAst colored d c output)
  | .init => runInit colored d

/-- A directory and those above it, at most `depth` of them. -/
def upward : Nat → String → List String
  | 0, _ => []
  | depth + 1, directory =>
    directory :: ((Path.parent? directory).map (upward depth)).getD []

/-- The files of a project that are known to belong to it, as far as they can be read. -/
def knownFiles (d : Disk) (config : Config) (entry : String) : List String :=
  match Project.readPatterns config.ignores, Project.absolute d entry with
  | .ok patterns, .ok entry =>
    (Project.search d ⟨Project.directoryOf entry, patterns⟩ entry).1.seen
  | _, _ => []

/-- The paths that a request looks at, as far as the file system is known. More of it may show more. -/
def consulted (d : Disk) (r : Request) : List String :=
  let settings := (upward (d.herePath.length + 1) d.herePath).flatMap fun directory =>
    [Path.join directory Config.fileName, Path.join directory Config.repositoryMark]
  match Config.load d d.herePath with
  | .error _ => settings
  | .ok found =>
    match r with
    | .keys c output _ =>
      settings ++ [output.getD found.config.keysFile] ++ knownFiles d found.config c.entry
    | .render c keys _ output =>
      settings ++ [keys.getD found.config.keysFile] ++ output.toList ++
        knownFiles d found.config c.entry
    | .ast c output => settings ++ output.toList ++ knownFiles d found.config c.entry
    | .init => settings ++ [Config.fileName]

/-- A chain of causes in one line. -/
def chain (causes : List String) : String := ": ".intercalate causes

/-- The exit code of an error. -/
def fatalCode : Nat := 2

end DocLocale.Command
