/-!
Glob patterns: `?` for one character, `*` for any run, `**` for whole path components, and character
classes in brackets.
-/

set_option autoImplicit false
set_option relaxedAutoImplicit false

namespace DocLocale.Glob

/-- A member of a character class. -/
inductive ClassItem
  | single (c : Char)
  | range (lo hi : Char)
  deriving DecidableEq, Repr

/-- A piece of a pattern. -/
inductive Token
  | char (c : Char)
  | anyChar
  | anyRun
  | anyComponents
  | within (items : List ClassItem)
  | except (items : List ClassItem)
  deriving DecidableEq, Repr

/-- What is wrong with a pattern. -/
inductive Fault
  | wildcards
  | recursiveWildcards
  | invalidRange
  deriving DecidableEq, Repr

/-- A fault and the position of the character near which it was found. -/
structure PatternError where
  position : Nat
  fault : Fault
  deriving DecidableEq, Repr

/-- The wording of a fault. -/
def Fault.message : Fault → String
  | wildcards => "wildcards are either regular `*` or recursive `**`"
  | recursiveWildcards => "recursive wildcards must form a single path component"
  | invalidRange => "invalid range pattern"

/-- The wording of a pattern error. -/
def PatternError.message (e : PatternError) : String :=
  "Pattern syntax error near position " ++ toString e.position ++ ": " ++ e.fault.message

/-- The members of a class: a hyphen between two characters makes a range. -/
def classItems : List Char → List ClassItem
  | a :: '-' :: b :: rest => .range a b :: classItems rest
  | a :: rest => .single a :: classItems rest
  | [] => []

/-- Splits a text at the first closing bracket. -/
def splitBracket : List Char → Option (List Char × List Char)
  | [] => none
  | c :: cs => if c = ']' then some ([], cs) else (splitBracket cs).map fun (a, b) => (c :: a, b)

/-- Reads a class behind its opening bracket. The first character belongs to the class even if it is a
closing bracket; an exclamation mark in front negates. -/
def bracketed? : List Char → Option (Token × List Char)
  | '!' :: c :: rest =>
    (splitBracket rest).map fun (body, rest) => (.except (classItems (c :: body)), rest)
  | '!' :: [] => none
  | c :: rest =>
    (splitBracket rest).map fun (body, rest) => (.within (classItems (c :: body)), rest)
  | [] => none

/-- Reads a pattern. `position` is the number of characters before `cs`, `previous` the last of them,
and `tokens` holds the pieces read so far, latest first. -/
def tokenize (fuel position : Nat) (previous : Option Char) (tokens : List Token)
    (cs : List Char) : Except PatternError (List Token) :=
  match fuel with
  | 0 => .ok tokens.reverse
  | fuel + 1 =>
    match cs with
    | [] => .ok tokens.reverse
    | '?' :: rest => tokenize fuel (position + 1) (some '?') (.anyChar :: tokens) rest
    | '*' :: '*' :: '*' :: _ => .error ⟨position + 2, .wildcards⟩
    | '*' :: '*' :: rest =>
      if previous ≠ none && previous ≠ some '/' then .error ⟨position - 1, .recursiveWildcards⟩
      else
        let next :=
          match tokens with
          | .anyComponents :: _ :: _ => tokens
          | _ => .anyComponents :: tokens
        match rest with
        | [] => tokenize fuel (position + 2) (some '*') next []
        | '/' :: rest => tokenize fuel (position + 3) (some '/') next rest
        | _ => .error ⟨position + 2, .recursiveWildcards⟩
    | '*' :: rest => tokenize fuel (position + 1) (some '*') (.anyRun :: tokens) rest
    | '[' :: rest =>
      match bracketed? rest with
      | none => .error ⟨position, .invalidRange⟩
      | some (token, after) =>
        tokenize fuel (position + 1 + (rest.length - after.length)) (some ']') (token :: tokens) after
    | c :: rest => tokenize fuel (position + 1) (some c) (.char c :: tokens) rest

/-- Reads a pattern. -/
def parse (pattern : String) : Except PatternError (List Token) :=
  tokenize (pattern.toList.length + 1) 0 none [] pattern.toList

/-- Whether a class has a character. -/
def ClassItem.mem (c : Char) : ClassItem → Bool
  | single d => c = d
  | range lo hi => lo ≤ c && c ≤ hi

/-- All ends of a text, the longest first. -/
def ends : List Char → List (List Char)
  | [] => [[]]
  | c :: cs => (c :: cs) :: ends cs

/-- The ends of a text that start a path component, the text itself first, and the empty end. -/
def componentEnds (cs : List Char) : List (List Char) := cs :: behindSlashes cs
where
  /-- The ends behind a slash, and the empty one. -/
  behindSlashes : List Char → List (List Char)
    | [] => [[]]
    | c :: cs => if c = '/' then cs :: behindSlashes cs else behindSlashes cs

/-- Whether the pieces match the whole text. -/
def matchTokens : List Token → List Char → Bool
  | [], cs => cs.isEmpty
  | .anyRun :: ts, cs => (ends cs).any (matchTokens ts)
  | .anyComponents :: ts, cs => (componentEnds cs).any (matchTokens ts)
  | .anyChar :: ts, cs =>
    match cs with
    | [] => false
    | _ :: cs => matchTokens ts cs
  | .char c :: ts, cs =>
    match cs with
    | [] => false
    | d :: cs => c = d && matchTokens ts cs
  | .within items :: ts, cs =>
    match cs with
    | [] => false
    | d :: cs => items.any (ClassItem.mem d) && matchTokens ts cs
  | .except items :: ts, cs =>
    match cs with
    | [] => false
    | d :: cs => !items.any (ClassItem.mem d) && matchTokens ts cs

end DocLocale.Glob
