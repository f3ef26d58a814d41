import DocLocale.Json.Basic

/-!
JSON text. One writer serves both layouts: with an indentation of zero everything stands on one line,
otherwise each item and field has a line of its own.
-/

set_option autoImplicit false
set_option relaxedAutoImplicit false

namespace DocLocale.Json

/-- One character of a JSON string. Quotes, backslashes and controls are escaped, all else stands for
itself. -/
def escapeChar (c : Char) : List Char :=
  if c = '"' then ['\\', '"']
  else if c = '\\' then ['\\', '\\']
  else if c = '\n' then ['\\', 'n']
  else if c = '\r' then ['\\', 'r']
  else if c = '\t' then ['\\', 't']
  else if c.toNat = 8 then ['\\', 'b']
  else if c.toNat = 12 then ['\\', 'f']
  else if c.toNat < 32 then
    ['\\', 'u', '0', '0', Nat.digitChar (c.toNat / 16), Nat.digitChar (c.toNat % 16)]
  else [c]

/-- A JSON string literal. -/
def quote (s : String) : List Char := '"' :: (s.toList.flatMap escapeChar ++ ['"'])

/-- How doubles are written: positional notation while the point stands among the digits or few zeros,
scientific otherwise, and always a fraction or an exponent. -/
def realText (bits : UInt64) : List Char :=
  let sign := if bits >>> 63 = 1 then ['-'] else []
  match Decimal.Binary.ofBits? bits with
  | none => sign ++ ['0', '.', '0']
  | some b =>
    let s := Decimal.shortest b
    let digits := Nat.toDigits 10 s.digits
    let point : Int := digits.length + s.exponent
    let exponent := (toString (point - 1)).toList
    sign ++
      (if 0 ≤ s.exponent && point ≤ 16 then
        digits ++ List.replicate s.exponent.toNat '0' ++ ['.', '0']
      else if 0 < point && point ≤ 16 then
        digits.take point.toNat ++ '.' :: digits.drop point.toNat
      else if -5 < point && point ≤ 0 then
        '0' :: '.' :: (List.replicate (-point).toNat '0' ++ digits)
      else
        match digits with
        | [d] => d :: 'e' :: exponent
        | d :: ds => d :: '.' :: (ds ++ 'e' :: exponent)
        | [] => [])

/-- The text of a number. -/
def numberText : Number → List Char
  | .natural n => Nat.toDigits 10 n
  | .negative n => '-' :: Nat.toDigits 10 n
  | .real bits => realText bits

/-- What stands before an item at the given depth: a line break and its indentation, or nothing on one
line. -/
def gap (indent depth : Nat) : List Char :=
  if indent = 0 then [] else '\n' :: List.replicate (indent * depth) ' '

/-- What stands between a field's name and its value. -/
def colon (indent : Nat) : List Char := if indent = 0 then [':'] else [':', ' ']

mutual
/-- The text of a value whose first line stands at `depth` levels of `indent` spaces. -/
def write (indent depth : Nat) : Json → List Char
  | .null => ['n', 'u', 'l', 'l']
  | .bool true => ['t', 'r', 'u', 'e']
  | .bool false => ['f', 'a', 'l', 's', 'e']
  | .number n => numberText n
  | .string s => quote s
  | .array [] => ['[', ']']
  | .array (x :: xs) =>
    '[' :: (gap indent (depth + 1) ++ write indent (depth + 1) x ++
      writeItems indent (depth + 1) xs ++ gap indent depth ++ [']'])
  | .object [] => [Char.ofNat 0x7B, Char.ofNat 0x7D]
  | .object ((k, v) :: fields) =>
    Char.ofNat 0x7B :: (gap indent (depth + 1) ++ quote k ++ colon indent ++
      write indent (depth + 1) v ++ writeFields indent (depth + 1) fields ++ gap indent depth ++
      [Char.ofNat 0x7D])

/-- The items after the first, each behind a comma. -/
def writeItems (indent depth : Nat) : List Json → List Char
  | [] => []
  | x :: xs => ',' :: (gap indent depth ++ write indent depth x ++ writeItems indent depth xs)

/-- The fields after the first, each behind a comma. -/
def writeFields (indent depth : Nat) : List (String × Json) → List Char
  | [] => []
  | (k, v) :: fields =>
    ',' :: (gap indent depth ++ quote k ++ colon indent ++ write indent depth v ++
      writeFields indent depth fields)
end

/-- The text of a value, on one line when `indent` is zero. -/
def render (indent : Nat) (value : Json) : String := String.ofList (write indent 0 value)

end DocLocale.Json
