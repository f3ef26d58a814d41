/-!
Requests on the command line. Words are taken in order; a value is checked only when the next word or
the end shows that it is complete, so the first fault met in this order decides.
-/

set_option autoImplicit false
set_option relaxedAutoImplicit false

namespace DocLocale.Command

/-- What all commands on a project take. -/
structure Common where
  entry : String
  verbose : Bool := false
  denyWarnings : Bool := false
  deriving DecidableEq, Repr

/-- A request. -/
inductive Request
  | keys (common : Common) (output : Option String) (merge : Bool)
  | render (common : Common) (keys language output : Option String)
  | ast (common : Common) (output : Option String)
  | init
  deriving DecidableEq, Repr

/-- Why a command line is no request. -/
inductive Rejection
  | helpAsked
  | versionAsked
  | invalidSubcommand
  | missingRequiredArgument
  | unknownArgument
  | invalidValue
  | tooManyValues
  | argumentConflict
  deriving DecidableEq, Repr

/-- The exit code of a rejection; to ask for help is no fault. -/
def Rejection.exitCode : Rejection → Nat
  | helpAsked | versionAsked => 0
  | _ => 2

/-- The options of the commands. -/
inductive Opt
  | verbose | denyWarnings | output | merge | keys | language
  deriving DecidableEq, Repr

namespace Opt

/-- The long name of an option. -/
def long : Opt → String
  | verbose => "verbose"
  | denyWarnings => "deny-warnings"
  | output => "output"
  | merge => "merge"
  | keys => "keys"
  | language => "language"

/-- The letter of an option. -/
def short? : Opt → Option Char
  | verbose => some 'v'
  | output => some 'o'
  | keys => some 'k'
  | language => some 'l'
  | denyWarnings | merge => none

/-- Whether an option takes a value. -/
def takesValue : Opt → Bool
  | output | keys | language => true
  | verbose | denyWarnings | merge => false

/-- Whether a value is accepted; paths may not be empty. -/
def accepts (o : Opt) (value : String) : Bool := o = language || !value.isEmpty

end Opt

/-- The commands. -/
inductive Name
  | keys | render | ast | init
  deriving DecidableEq, Repr

/-- The command of a name. -/
def Name.ofWord? (w : String) : Option Name :=
  if w = "keys" then some keys
  else if w = "render" then some render
  else if w = "ast" then some ast
  else if w = "init" then some init
  else none

/-- The options of a command. -/
def Name.options : Name → List Opt
  | keys => [.verbose, .denyWarnings, .output, .merge]
  | render => [.verbose, .denyWarnings, .keys, .language, .output]
  | ast => [.verbose, .denyWarnings, .output]
  | init => []

/-- Whether a command takes an entry file. -/
def Name.takesEntry : Name → Bool
  | init => false
  | _ => true

/-- A value that is not yet complete. -/
inductive Pending
  | option (o : Opt) (value : Option String)
  | entry (value : String)

/-- What was given so far. -/
structure Given where
  entry : Option String := none
  options : List (Opt × String) := []
  pending : Option Pending := none

namespace Given

/-- Enters an option; it may be given once, and its value has to be accepted. -/
def enter (g : Given) (o : Opt) (value : String) : Except Rejection Given :=
  if g.options.any fun x => x.1 = o then .error .argumentConflict
  else if o.takesValue && !o.accepts value then .error .invalidValue
  else .ok { g with options := g.options ++ [(o, value)] }

/-- Completes the pending value. -/
def settle (g : Given) : Except Rejection Given :=
  match g.pending with
  | none => .ok g
  | some (.option _ none) => .error .invalidValue
  | some (.option o (some value)) => { g with pending := none }.enter o value
  | some (.entry value) =>
    if value.isEmpty then .error .invalidValue
    else .ok { g with entry := some value, pending := none }

/-- Whether an option was given. -/
def has (g : Given) (o : Opt) : Bool := g.options.any fun x => x.1 = o

/-- The value of an option. -/
def value? (g : Given) (o : Opt) : Option String :=
  (g.options.find? fun x => x.1 = o).map (·.2)

/-- Whether an entry was given, complete or not. -/
def hasEntry (g : Given) : Bool :=
  g.entry.isSome ||
    match g.pending with
    | some (.entry _) => true
    | _ => false

end Given

/-- Splits a text at the first equals sign. -/
def splitEquals (cs : List Char) : String × Option String :=
  let name := cs.takeWhile (· ≠ '=')
  match cs.dropWhile (· ≠ '=') with
  | _ :: value => (String.ofList name, some (String.ofList value))
  | [] => (String.ofList name, none)

/-- Takes an option with the value attached to it, if there is one. -/
def takeOption (g : Given) (o : Opt) (attached : Option String) : Except Rejection Given := do
  let g ← g.settle
  if !o.takesValue then g.enter o ""
  else
    match attached with
    | some value => g.enter o value
    | none => return { g with pending := some (.option o none) }

/-- Takes a long option, behind its hyphens. -/
def takeLong (n : Name) (g : Given) (cs : List Char) : Except Rejection Given := do
  let (name, attached) := splitEquals cs
  if name = "help" then
    if attached.isSome then throw .tooManyValues
    let _ ← g.settle
    throw .helpAsked
  else
    match n.options.find? fun o => o.long = name with
    | none => throw .unknownArgument
    | some o =>
      if attached.isSome && !o.takesValue then throw .tooManyValues
      takeOption g o attached

/-- Takes letters behind a hyphen. What follows the letter of an option with a value is the value. -/
def takeShort (n : Name) (g : Given) : List Char → Except Rejection Given
  | [] => .ok g
  | c :: cs =>
    if c = 'h' then
      match g.settle with
      | .error e => .error e
      | .ok _ => .error .helpAsked
    else
      match n.options.find? fun o => o.short? = some c with
      | none => .error .unknownArgument
      | some o =>
        if o.takesValue then
          match cs with
          | [] => takeOption g o none
          | '=' :: value => takeOption g o (some (String.ofList value))
          | value => takeOption g o (some (String.ofList value))
        else
          match takeOption g o none with
          | .error e => .error e
          | .ok g => takeShort n g cs

/-- Takes a word as the entry. -/
def takeEntry (n : Name) (g : Given) (w : String) : Except Rejection Given :=
  if !n.takesEntry || g.hasEntry then .error .unknownArgument
  else
    match g.settle with
    | .error e => .error e
    | .ok g => .ok { g with pending := some (.entry w) }

/-- Takes a word that is no option: the value that an option waits for, or the entry. -/
def takeWord (n : Name) (g : Given) (w : String) : Except Rejection Given :=
  match g.pending with
  | some (.option o none) => .ok { g with pending := some (.option o (some w)) }
  | _ => takeEntry n g w

/-- Takes the words of a command; behind two hyphens alone all words are entries. -/
def takeWords (n : Name) : Bool → Given → List String → Except Rejection Given
  | _, g, [] => .ok g
  | true, g, w :: ws =>
    match takeEntry n g w with
    | .error e => .error e
    | .ok g => takeWords n true g ws
  | false, g, w :: ws =>
    let taken : Except Rejection Given :=
      match w.toList with
      | '-' :: '-' :: cs => if cs.isEmpty then .ok g else takeLong n g cs
      | '-' :: c :: cs => takeShort n g (c :: cs)
      | _ => takeWord n g w
    match taken with
    | .error e => .error e
    | .ok g => takeWords n (w = "--") g ws

/-- The request of a command with what was given. -/
def request (n : Name) (g : Given) : Except Rejection Request :=
  match n, g.entry with
  | .init, _ => .ok .init
  | _, none => .error .missingRequiredArgument
  | n, some entry =>
    let common : Common := ⟨entry, g.has .verbose, g.has .denyWarnings⟩
    match n with
    | .keys => .ok (.keys common (g.value? .output) (g.has .merge))
    | .render =>
      .ok (.render common (g.value? .keys) (g.value? .language) (g.value? .output))
    | .ast => .ok (.ast common (g.value? .output))
    | .init => .ok .init

/-- The request of a command with its words. -/
def parseCommand (n : Name) (ws : List String) : Except Rejection Request := do
  let g ← takeWords n false {} ws
  request n (← g.settle)

/-- What is asked behind `help`: at most one command. -/
def parseHelp : List String → Rejection
  | [] => .helpAsked
  | [w] => if (Name.ofWord? w).isSome || w = "help" then .helpAsked else .invalidSubcommand
  | _ => .invalidSubcommand

/-- The request of a command line; `none` if it is empty. -/
def parse : List String → Except Rejection (Option Request)
  | [] => .ok none
  | w :: ws =>
    match w.toList with
    | '-' :: '-' :: cs =>
      if cs.isEmpty then
        match ws with
        | [] => .ok none
        | w :: _ =>
          if (Name.ofWord? w).isSome || w = "help" then .error .unknownArgument
          else .error .invalidSubcommand
      else
        match splitEquals cs with
        | ("help", none) => .error .helpAsked
        | ("version", none) => .error .versionAsked
        | ("help", some _) | ("version", some _) => .error .tooManyValues
        | _ => .error .unknownArgument
    | '-' :: c :: _ =>
      if c = 'h' then .error .helpAsked
      else if c = 'V' then .error .versionAsked
      else .error .unknownArgument
    | _ =>
      match Name.ofWord? w with
      | some n => (parseCommand n ws).map some
      | none => if w = "help" then .error (parseHelp ws) else .error .invalidSubcommand

end DocLocale.Command
