import DocLocale.Project.Outline

/-!
Trees of several files. The files hang below one root in the order they are given.
-/

set_option autoImplicit false
set_option relaxedAutoImplicit false

namespace DocLocale.Project

/-- A file to be read: the name of its node, the path it is shown under, and its text. -/
structure Input where
  name : String
  path : String
  text : String

/-- Why files give no tree. -/
inductive AssemblyError
  /-- The text of a file does not follow the grammar. -/
  | unreadable (path : String)
  | noTree (error : TreeError)

/-- The wording of an assembly error. -/
def AssemblyError.message : AssemblyError → String
  | unreadable path => "Failed to parse " ++ path
  | noTree e => e.message

/-- The name of the root; it is part of no key. -/
def rootName : String := "root"

/-- A way to read the text of a file, for texts that follow a grammar. -/
abbrev Reader := String → Option Source.File

/-- Adds files in order and gives the numbers of their nodes. -/
def addInputs (read? : Reader) : List Input → Draft → Except AssemblyError (List NodeId × Draft)
  | [], d => .ok ([], d)
  | i :: is, d =>
    match read? i.text with
    | none => .error (.unreadable i.path)
    | some file =>
      let (id, d) := Sheet.addFile ⟨file, i.path⟩ i.name d
      match addInputs read? is d with
      | .ok (ids, d) => .ok (id :: ids, d)
      | .error e => .error e

/-- A tree of files and the issues met while building it, in source order. -/
structure Assembly where
  tree : Tree
  issues : List Issue

/-- Builds the tree of some files that are read in a given way. -/
def assembleWith (read? : Reader) (inputs : List Input) : Except AssemblyError Assembly :=
  match addInputs read? inputs {} with
  | .error e => .error e
  | .ok (children, d) =>
    let (root, d) := add ⟨rootName, none, .root children, none⟩ d
    match Tree.finish d.nodes root with
    | .ok t => .ok ⟨t, d.issues.toList⟩
    | .error e => .error (.noTree e)

/-- Builds the tree of some files. -/
def assemble (inputs : List Input) : Except AssemblyError Assembly :=
  assembleWith Source.File.parse? inputs

end DocLocale.Project
