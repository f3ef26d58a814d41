import DocLocale.Json.Reader

/-!
Reading JSON text straight into records. The text is read from front to back and the first fault
decides: a value of another shape than its place asks for is a mismatch as soon as its own text is
well formed, everything else is malformed.
-/

set_option autoImplicit false
set_option relaxedAutoImplicit false

namespace DocLocale.Json

/-- Why a JSON text was refused. -/
inductive Fault
  | malformed
  | mismatch
  deriving DecidableEq, Repr

/-- Turns a piece that could not be read into a malformed text. -/
def orMalformed {α : Type} : Option α → Except Fault α
  | some a => .ok a
  | none => .error .malformed

/-- The fault of a value that has another shape than asked for. -/
def unexpected (cs : List Char) : Fault :=
  match skipBlanks cs with
  | [] => .malformed
  | c :: rest =>
    let wellFormed :=
      if c = 'n' then (literal? ['u', 'l', 'l'] rest).isSome
      else if c = 't' then (literal? ['r', 'u', 'e'] rest).isSome
      else if c = 'f' then (literal? ['a', 'l', 's', 'e'] rest).isSome
      else if c = '"' then (stringBody? rest).isSome
      else c = '[' || c = Char.ofNat 0x7B || (number? (c :: rest)).isSome
    if wellFormed then .mismatch else .malformed

/-- A string. -/
def decodeString (cs : List Char) : Except Fault (String × List Char) :=
  match skipBlanks cs with
  | '"' :: rest => do
    let (s, rest) ← orMalformed (stringBody? rest)
    return (String.ofList s, rest)
  | _ => .error (unexpected cs)

/-- A whole number of at most 64 bits. -/
def decodeNat (cs : List Char) : Except Fault (Nat × List Char) :=
  match skipBlanks cs with
  | c :: rest =>
    if c = '-' || c.isDigit then do
      match ← orMalformed (number? (c :: rest)) with
      | (.natural n, rest) => return (n, rest)
      | _ => .error .mismatch
    else .error (unexpected cs)
  | [] => .error .malformed

/-- The strings behind the first of a list, up to its closing bracket. -/
def decodeStrings (fuel : Nat) (cs : List Char) : Except Fault (List String × List Char) :=
  match fuel with
  | 0 => .error .malformed
  | fuel + 1 =>
    match skipBlanks cs with
    | ']' :: rest => .ok ([], rest)
    | ',' :: rest => do
      let (s, rest) ← decodeString rest
      let (ss, rest) ← decodeStrings fuel rest
      return (s :: ss, rest)
    | _ => .error .malformed

/-- A list of strings. -/
def decodeStringList (cs : List Char) : Except Fault (List String × List Char) :=
  match skipBlanks cs with
  | '[' :: rest =>
    match skipBlanks rest with
    | ']' :: rest => .ok ([], rest)
    | rest => do
      let (s, rest) ← decodeString rest
      let (ss, rest) ← decodeStrings (rest.length + 1) rest
      return (s :: ss, rest)
  | _ => .error (unexpected cs)

/-- A record type that can be read field by field. -/
structure Fields (σ : Type) where
  /-- The names, in the order in which a list gives their values. -/
  names : List String
  /-- Reads the value of one field. -/
  read : String → σ → List Char → Except Fault (σ × List Char)

/-- Reads the fields of an object up to its closing brace; `seen` names those read so far. A field
given twice is a mismatch at its name, and the value of a name that is no field is skipped. -/
def Fields.decodeObject {σ : Type} (f : Fields σ) (fuel : Nat) (seen : List String) (s : σ)
    (cs : List Char) : Except Fault (σ × List Char) :=
  match fuel with
  | 0 => .error .malformed
  | fuel + 1 =>
    match skipBlanks cs with
    | '"' :: rest => do
      let (key, rest) ← orMalformed (stringBody? rest)
      let name := String.ofList key
      if f.names.contains name && seen.contains name then .error .mismatch
      else
        match skipBlanks rest with
        | ':' :: rest => do
          let (s, rest) ←
            if f.names.contains name then f.read name s rest
            else (orMalformed (skipValue? (rest.length + 1) rest)).map fun rest => (s, rest)
          match skipBlanks rest with
          | [] => .error .malformed
          | c :: rest =>
            if c = Char.ofNat 0x7D then .ok (s, rest)
            else if c = ',' then f.decodeObject fuel (name :: seen) s rest
            else .error .malformed
        | _ => .error .malformed
    | _ => .error .malformed

/-- Reads the values of the named fields from a list, in order; a short list leaves the rest as they
are and a long one is malformed. -/
def Fields.decodeList {σ : Type} (f : Fields σ) (first : Bool) :
    List String → σ → List Char → Except Fault (σ × List Char)
  | [], s, cs =>
    match skipBlanks cs with
    | ']' :: rest => .ok (s, rest)
    | _ => .error .malformed
  | name :: names, s, cs =>
    match skipBlanks cs with
    | ']' :: rest => .ok (s, rest)
    | ',' :: rest =>
      if first then .error .malformed
      else
        match skipBlanks rest with
        | ']' :: _ => .error .malformed
        | rest => do
          let (s, rest) ← f.read name s rest
          f.decodeList false names s rest
    | rest =>
      if first then do
        let (s, rest) ← f.read name s rest
        f.decodeList false names s rest
      else .error .malformed

/-- Reads a record, given as an object or as a list of its values, from a text that holds nothing
else. Fields that are not given keep their value in `defaults`. -/
def Fields.decode {σ : Type} (f : Fields σ) (defaults : σ) (text : String) : Except Fault σ := do
  let cs := text.toList
  let (s, rest) ←
    match skipBlanks cs with
    | [] => .error .malformed
    | c :: rest =>
      if c = '[' then f.decodeList true f.names defaults rest
      else if c = Char.ofNat 0x7B then
        match skipBlanks rest with
        | [] => .error .malformed
        | d :: after =>
          if d = Char.ofNat 0x7D then .ok (defaults, after)
          else f.decodeObject (rest.length + 1) [] defaults (d :: after)
      else .error (unexpected cs)
  if skipBlanks rest = [] then .ok s else .error .malformed

/-- Reads a text that holds one object, keeping its fields as they are. -/
def decodeFields (text : String) : Except Fault (List (String × Json)) :=
  match skipBlanks text.toList with
  | [] => .error .malformed
  | c :: _ =>
    if c = Char.ofNat 0x7B then
      match parse? text with
      | some (.object fields) => .ok fields
      | _ => .error .malformed
    else .error (unexpected text.toList)

end DocLocale.Json
