import DocLocale.Command.Run

/-!
The command line. A request runs on as much of the file system as it looks at: paths are looked up until
it asks for no new ones, and what it changed is written back.
-/

set_option autoImplicit false
set_option relaxedAutoImplicit false

namespace DocLocale

/-- The names of a path from the root. -/
def namesOf (path : String) : List String :=
  (Path.components path).filterMap fun c =>
    match c with
    | .normal name => some name
    | _ => none

/-- The path of a place. -/
def pathOf (place : List String) : String := "/" ++ "/".intercalate place

/-- What is found at a place. -/
def lookUp (place : List String) : IO (Option Entry) := do
  let path := (← IO.currentDir).join (pathOf place)
  if ← path.isDir then return some .directory
  if !(← path.pathExists) then return none
  match String.fromUTF8? (← IO.FS.readBinFile path) with
  | some text => return some (.text text)
  | none => return some .binary

/-- Enters what is found on the way along the parts of a path. -/
def lookUpAlong (d : Disk) (place : List String) : List (List Char) → IO Disk
  | [] => return d
  | part :: parts => do
    if part = [] || part = ['.'] then lookUpAlong d place parts
    else if part = ['.', '.'] then lookUpAlong d place.dropLast parts
    else
      let place := place ++ [String.ofList part]
      match ← lookUp place with
      | some e => lookUpAlong (d.put place e) place parts
      | none => return d

/-- Enters what is found along a path. -/
def lookUpPath (d : Disk) (path : String) : IO Disk :=
  lookUpAlong d [] (Text.splitAt '/' (Path.join d.herePath path).toList)

/-- Looks up paths until a request asks for no new ones. -/
partial def gather (r : Command.Request) (asked : List String) (d : Disk) : IO Disk := do
  let fresh := (Command.consulted d r).filter fun path => !asked.contains path
  if fresh.isEmpty then return d
  gather r (asked ++ fresh) (← fresh.foldlM lookUpPath d)

/-- Writes back what differs between two file systems. -/
def writeBack (before after : Disk) : IO Unit := do
  for (place, entry) in after.entries do
    if before.entry? place != some entry then
      match entry with
      | .directory => IO.FS.createDirAll (pathOf place)
      | .text content => IO.FS.writeFile (pathOf place) content
      | .binary => pure ()

/-- Whether output is coloured: on a terminal, unless the environment says otherwise. -/
def isColored : IO Bool := do
  match ← IO.getEnv "CLICOLOR_FORCE" with
  | some v => if v ≠ "0" then return true
  | none => pure ()
  if (← IO.getEnv "NO_COLOR").isSome then return false
  if (← IO.getEnv "CLICOLOR") = some "0" then return false
  (← IO.getStdout).isTty

/-- The version of the program. -/
def versionText : String := "0.1.0\n"

/-- How the program is used. -/
def usageText : String :=
  "Usage: [COMMAND]\n\nCommands:\n" ++
    "  keys <ENTRY> [-o FILE] [--merge]                    Write the key map of a project\n" ++
    "  render <ENTRY> [-k FILE] [-l LANGUAGE] [-o FILE]    Render it with translated comments\n" ++
    "  ast <ENTRY> [-o FILE]                               Print its declaration tree\n" ++
    "  init                                                Write a configuration file\n\n" ++
    "Options of all commands on a project:\n" ++
    "  -v, --verbose          Say what is read\n" ++
    "      --deny-warnings    Exit with status 1 when there are warnings\n"

/-- Runs a request on the real file system. -/
def runRequest (r : Command.Request) : IO UInt32 := do
  let here := namesOf (← IO.currentDir).toString
  let start : Disk :=
    { entries := (List.range here.length).map fun i => (here.take (i + 1), .directory), here := here }
  let before ← gather r [] start
  let o := Command.run (← isColored) before r
  writeBack before o.disk
  IO.print o.output
  IO.eprint o.errors
  match o.ending with
  | .exit code => return code.toUInt32
  | .fatal causes =>
    IO.eprintln ("Error: " ++ Command.chain causes)
    return Command.fatalCode.toUInt32

end DocLocale

/-- Runs the command line. -/
def main (args : List String) : IO UInt32 := do
  match DocLocale.Command.parse args with
  | .ok (some r) => DocLocale.runRequest r
  | .ok none =>
    IO.print DocLocale.usageText
    return 0
  | .error .versionAsked =>
    IO.print DocLocale.versionText
    return 0
  | .error r =>
    if r = .helpAsked then IO.print DocLocale.usageText else IO.eprint DocLocale.usageText
    return r.exitCode.toUInt32
