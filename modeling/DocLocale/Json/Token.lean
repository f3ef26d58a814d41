import DocLocale.Json.Basic

/-!
The pieces of JSON text below values: blanks, literals, strings and numbers. Each reader takes the
text in front of it and returns what it read with the rest, or `none` if the piece is malformed.
-/

set_option autoImplicit false
set_option relaxedAutoImplicit false

namespace DocLocale.Json

/-- The four characters that may stand between the pieces of a JSON text. -/
def isBlank (c : Char) : Bool := c = ' ' || c = '\n' || c = '\t' || c = '\r'

/-- The text from the first character on that is not blank. -/
def skipBlanks (cs : List Char) : List Char := cs.dropWhile isBlank

theorem skipBlanks_append {blanks : List Char} (all : ∀ c ∈ blanks, isBlank c = true) (cs : List Char) :
    skipBlanks (blanks ++ cs) = skipBlanks cs := by
  rw [skipBlanks, List.dropWhile_append_of_pos all, skipBlanks]

theorem skipBlanks_cons {c : Char} (solid : isBlank c = false) (cs : List Char) :
    skipBlanks (c :: cs) = c :: cs := by
  rw [skipBlanks, List.dropWhile_cons_of_neg (by simp [solid])]

/-- The rest of the text behind the given word. -/
def literal? : List Char → List Char → Option (List Char)
  | [], cs => some cs
  | _ :: _, [] => none
  | w :: ws, c :: cs => if w = c then literal? ws cs else none

/-- The value of a hexadecimal digit. -/
def hexValue? (c : Char) : Option Nat :=
  if '0' ≤ c && c ≤ '9' then some (c.toNat - 48)
  else if 'a' ≤ c && c ≤ 'f' then some (c.toNat - 87)
  else if 'A' ≤ c && c ≤ 'F' then some (c.toNat - 55)
  else none

/-- The number written by four hexadecimal digits. -/
def hex4? (a b c d : Char) : Option Nat := do
  let a ← hexValue? a
  let b ← hexValue? b
  let c ← hexValue? c
  let d ← hexValue? d
  return ((a * 16 + b) * 16 + c) * 16 + d

/-- The character behind a backslash, for the escapes of one letter. -/
def simpleEscape? (c : Char) : Option Char :=
  match c with
  | '"' => some '"'
  | '\\' => some '\\'
  | '/' => some '/'
  | 'b' => some (Char.ofNat 8)
  | 'f' => some (Char.ofNat 12)
  | 'n' => some '\n'
  | 'r' => some '\r'
  | 't' => some '\t'
  | _ => none

/-- Whether a code unit is the first half of a pair. -/
def isLeading (n : Nat) : Bool := 0xD800 ≤ n && n ≤ 0xDBFF

/-- Whether a code unit is the second half of a pair. -/
def isTrailing (n : Nat) : Bool := 0xDC00 ≤ n && n ≤ 0xDFFF

/-- Reads the characters of a string up to its closing quote. An escaped pair of halves is one
character; a half that stands alone is malformed, and so is a raw control character. -/
def stringBody? : List Char → Option (List Char × List Char)
  | [] => none
  | '"' :: rest => some ([], rest)
  | '\\' :: 'u' :: a :: b :: c :: d :: '\\' :: 'u' :: e :: f :: g :: h :: rest => do
    let n ← hex4? a b c d
    if isTrailing n then none
    else if isLeading n then
      let m ← hex4? e f g h
      if isTrailing m then
        let (cs, rest) ← stringBody? rest
        return (Char.ofNat ((n - 0xD800) * 0x400 + (m - 0xDC00) + 0x10000) :: cs, rest)
      else none
    else
      let (cs, rest) ← stringBody? ('\\' :: 'u' :: e :: f :: g :: h :: rest)
      return (Char.ofNat n :: cs, rest)
  | '\\' :: 'u' :: a :: b :: c :: d :: rest => do
    let n ← hex4? a b c d
    if isTrailing n || isLeading n then none
    else
      let (cs, rest) ← stringBody? rest
      return (Char.ofNat n :: cs, rest)
  | '\\' :: c :: rest => do
    let c ← simpleEscape? c
    let (cs, rest) ← stringBody? rest
    return (c :: cs, rest)
  | c :: rest =>
    if c.toNat < 32 || c = '\\' then none
    else do
      let (cs, rest) ← stringBody? rest
      return (c :: cs, rest)

theorem stringBody?_close (rest : List Char) : stringBody? ('"' :: rest) = some ([], rest) := by
  rw [stringBody?]

/-- Skips the characters of a string up to its closing quote; the halves of pairs are not checked. -/
def skipString? : List Char → Option (List Char)
  | [] => none
  | '"' :: rest => some rest
  | '\\' :: 'u' :: a :: b :: c :: d :: rest =>
    if (hex4? a b c d).isSome then skipString? rest else none
  | '\\' :: c :: rest => if (simpleEscape? c).isSome then skipString? rest else none
  | c :: rest => if c.toNat < 32 || c = '\\' then none else skipString? rest

/-- The value of a decimal digit. -/
def digitValue (c : Char) : Nat := c.toNat - 48

/-- The first number that needs more than 64 bits. -/
def wordBound : Nat := 0x10000000000000000

/-- Appends digits to a significand as long as it fits 64 bits; returns it with the number of digits
taken and of digits left out. -/
def gather (acc taken : Nat) : List Char → Nat × Nat × Nat
  | [] => (acc, taken, 0)
  | c :: cs =>
    let next := acc * 10 + digitValue c
    if next < wordBound then gather next (taken + 1) cs else (acc, taken, cs.length + 1)

/-- The written parts of a number. -/
structure Written where
  negative : Bool
  whole : List Char
  fraction : Option (List Char)
  /-- Sign and digits of the exponent. -/
  exponent : Option (Bool × List Char)

/-- Splits the digits in front of a text from the rest. -/
def digits (cs : List Char) : List Char × List Char :=
  (cs.takeWhile Char.isDigit, cs.dropWhile Char.isDigit)

/-- Reads the exponent of a number, if one follows; it needs at least one digit. -/
def exponent? (cs : List Char) : Option (Option (Bool × List Char) × List Char) :=
  match cs with
  | c :: rest =>
    if c = 'e' || c = 'E' then
      let (negative, rest) :=
        match rest with
        | '+' :: rest => (false, rest)
        | '-' :: rest => (true, rest)
        | rest => (false, rest)
      let (ds, rest) := digits rest
      if ds = [] then none else some (some (negative, ds), rest)
    else some (none, cs)
  | [] => some (none, [])

/-- Reads the fraction of a number, if one follows; it needs at least one digit. -/
def fraction? (cs : List Char) : Option (Option (List Char) × List Char) :=
  match cs with
  | '.' :: rest =>
    let (ds, rest) := digits rest
    if ds = [] then none else some (some ds, rest)
  | cs => some (none, cs)

/-- Reads the parts of a number. No digit follows a leading zero. -/
def written? (cs : List Char) : Option (Written × List Char) := do
  let (negative, cs) :=
    match cs with
    | '-' :: rest => (true, rest)
    | cs => (false, cs)
  let (whole, rest) := digits cs
  if whole = [] || (whole.head? = some '0' && whole.length ≠ 1) then none
  else
    let (fraction, rest) ← fraction? rest
    let (exponent, rest) ← exponent? rest
    return (⟨negative, whole, fraction, exponent⟩, rest)

/-- `10^k` as a double. -/
private def powerOfTen (k : Nat) : Float := Float.ofScientific 1 false k

/-- Scales a significand by a power of ten, in steps that stay within the range of doubles; `none` if
the result is too large. -/
private def scale (f : Float) (e : Int) : Nat → Option Float
  | 0 => some f
  | fuel + 1 =>
    if e.natAbs ≤ 308 then
      if 0 ≤ e then
        let scaled := f * powerOfTen e.natAbs
        if scaled.isInf then none else some scaled
      else some (f / powerOfTen e.natAbs)
    else if f == 0.0 then some f
    else if 0 ≤ e then none
    else scale (f / powerOfTen 308) (e + 308) fuel

/-- The double for a sign, a significand and a decimal exponent. -/
private def realOf (negative : Bool) (significand : Nat) (e : Int) : Option Number := do
  let f ← scale significand.toUInt64.toFloat e 8
  return .real (if negative then (-f).toBits else f.toBits)

/-- The largest exponent that is added up; beyond it a number is zero or too large. -/
def exponentBound : Nat := 2147483647

/-- The number that the written parts denote: whole numbers within 64 bits exactly, all others as
doubles; `none` when it is too large for a double. -/
def Written.value? (w : Written) : Option Number :=
  let (whole, _, dropped) := gather 0 0 w.whole
  if w.fraction.isNone && w.exponent.isNone && dropped = 0 then
    if !w.negative then some (.natural whole)
    else if whole = 0 || 0x8000000000000000 < whole then realOf true whole 0
    else some (.negative whole)
  else
    let (significand, taken, _) := gather whole 0 (w.fraction.getD [])
    let shift : Int := (dropped : Int) - taken
    match w.exponent with
    | none => realOf w.negative significand shift
    | some (negative, ds) =>
      let e := ds.foldl (fun acc c => acc * 10 + digitValue c) 0
      if exponentBound < e then
        if significand ≠ 0 && !negative then none else realOf w.negative 0 0
      else realOf w.negative significand (if negative then shift - e else shift + e)

/-- Reads a number. -/
def number? (cs : List Char) : Option (Number × List Char) := do
  let (w, rest) ← written? cs
  let n ← w.value?
  return (n, rest)

end DocLocale.Json
