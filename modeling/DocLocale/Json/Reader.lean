import DocLocale.Json.Token

/-!
Reading JSON values. Values nest at most 127 levels deep; a field named twice keeps its first place
and its last value.
-/

set_option autoImplicit false
set_option relaxedAutoImplicit false

namespace DocLocale.Json

/-- How deep arrays and objects may nest. -/
def maxDepth : Nat := 127

mutual
/-- Reads a value behind blanks, with `depth` levels of nesting left. -/
def value? (fuel depth : Nat) (cs : List Char) : Option (Json × List Char) :=
  match fuel with
  | 0 => none
  | fuel + 1 =>
    match skipBlanks cs with
    | [] => none
    | c :: rest =>
      if c = 'n' then (literal? ['u', 'l', 'l'] rest).map (fun r => (.null, r))
      else if c = 't' then (literal? ['r', 'u', 'e'] rest).map (fun r => (.bool true, r))
      else if c = 'f' then (literal? ['a', 'l', 's', 'e'] rest).map (fun r => (.bool false, r))
      else if c = '"' then (stringBody? rest).map (fun (s, r) => (.string (String.ofList s), r))
      else if c = '[' then
        if depth = 0 then none
        else
          match skipBlanks rest with
          | ']' :: rest => some (.array [], rest)
          | rest => (items? fuel (depth - 1) rest).map (fun (xs, r) => (.array xs, r))
      else if c = Char.ofNat 0x7B then
        if depth = 0 then none
        else
          match skipBlanks rest with
          | [] => none
          | d :: after =>
            if d = Char.ofNat 0x7D then some (.object [], after)
            else (fields? fuel (depth - 1) [] (d :: after)).map (fun (fs, r) => (.object fs, r))
      else (number? (c :: rest)).map (fun (n, r) => (.number n, r))

/-- Reads the items of an array up to its closing bracket; at least one follows. -/
def items? (fuel depth : Nat) (cs : List Char) : Option (List Json × List Char) :=
  match fuel with
  | 0 => none
  | fuel + 1 => do
    let (x, rest) ← value? fuel depth cs
    match skipBlanks rest with
    | ']' :: rest => some ([x], rest)
    | ',' :: rest => do
      let (xs, rest) ← items? fuel depth rest
      return (x :: xs, rest)
    | _ => none

/-- Reads the fields of an object up to its closing brace and enters them into `seen`; at least one
follows. -/
def fields? (fuel depth : Nat) (seen : List (String × Json)) (cs : List Char) :
    Option (List (String × Json) × List Char) :=
  match fuel with
  | 0 => none
  | fuel + 1 =>
    match skipBlanks cs with
    | '"' :: rest => do
      let (key, rest) ← stringBody? rest
      match skipBlanks rest with
      | ':' :: rest => do
        let (v, rest) ← value? fuel depth rest
        let seen := setField (String.ofList key) v seen
        match skipBlanks rest with
        | [] => none
        | c :: rest =>
          if c = Char.ofNat 0x7D then some (seen, rest)
          else if c = ',' then fields? fuel depth seen rest
          else none
      | _ => none
    | _ => none
end

section Blanks

variable (fuel depth : Nat) {blanks : List Char} (all : ∀ c ∈ blanks, isBlank c = true) (cs : List Char)

include all

theorem value?_blanks : value? fuel depth (blanks ++ cs) = value? fuel depth cs := by
  cases fuel with
  | zero => rfl
  | succ fuel => rw [value?, value?, skipBlanks_append all]

theorem items?_blanks : items? fuel depth (blanks ++ cs) = items? fuel depth cs := by
  cases fuel with
  | zero => rfl
  | succ fuel => rw [items?, items?, value?_blanks _ _ all]

theorem fields?_blanks (seen : List (String × Json)) :
    fields? fuel depth seen (blanks ++ cs) = fields? fuel depth seen cs := by
  cases fuel with
  | zero => rfl
  | succ fuel => rw [fields?, fields?, skipBlanks_append all]

end Blanks

/-- Reads a text that holds one value and nothing else. -/
def parse? (s : String) : Option Json := do
  let cs := s.toList
  let (v, rest) ← value? (cs.length + 1) maxDepth cs
  if skipBlanks rest = [] then some v else none

mutual
/-- Skips a value behind blanks; neither depth nor the size of numbers is checked. -/
def skipValue? (fuel : Nat) (cs : List Char) : Option (List Char) :=
  match fuel with
  | 0 => none
  | fuel + 1 =>
    match skipBlanks cs with
    | [] => none
    | c :: rest =>
      if c = 'n' then literal? ['u', 'l', 'l'] rest
      else if c = 't' then literal? ['r', 'u', 'e'] rest
      else if c = 'f' then literal? ['a', 'l', 's', 'e'] rest
      else if c = '"' then skipString? rest
      else if c = '[' then
        match skipBlanks rest with
        | ']' :: rest => some rest
        | rest => skipItems? fuel rest
      else if c = Char.ofNat 0x7B then
        match skipBlanks rest with
        | [] => none
        | d :: after =>
          if d = Char.ofNat 0x7D then some after else skipFields? fuel (d :: after)
      else (written? (c :: rest)).map (·.2)

/-- Skips the items of an array up to its closing bracket. -/
def skipItems? (fuel : Nat) (cs : List Char) : Option (List Char) :=
  match fuel with
  | 0 => none
  | fuel + 1 => do
    let rest ← skipValue? fuel cs
    match skipBlanks rest with
    | ']' :: rest => some rest
    | ',' :: rest => skipItems? fuel rest
    | _ => none

/-- Skips the fields of an object up to its closing brace. -/
def skipFields? (fuel : Nat) (cs : List Char) : Option (List Char) :=
  match fuel with
  | 0 => none
  | fuel + 1 =>
    match skipBlanks cs with
    | '"' :: rest => do
      let rest ← skipString? rest
      match skipBlanks rest with
      | ':' :: rest => do
        let rest ← skipValue? fuel rest
        match skipBlanks rest with
        | [] => none
        | c :: rest =>
          if c = Char.ofNat 0x7D then some rest
          else if c = ',' then skipFields? fuel rest
          else none
      | _ => none
    | _ => none
end

end DocLocale.Json
