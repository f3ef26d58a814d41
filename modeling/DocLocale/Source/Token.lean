import DocLocale.Text.Identifier
import DocLocale.Json.Token

/-!
Tokens of declaration source. A token is read from the front of a text together with the number of
bytes it takes. Angle brackets are always single tokens; where they make up operators the reader of
expressions puts them together.
-/

set_option autoImplicit false
set_option relaxedAutoImplicit false

namespace DocLocale.Source

/-- A token. -/
inductive Token
  /-- A name or keyword, with escapes resolved. -/
  | word (name : String)
  /-- A string literal and the text it stands for. -/
  | string (value : String)
  | number
  | bigint
  /-- A punctuator or operator. -/
  | symbol (text : String)
  | eof
  /-- Text that is no token. -/
  | bad
  deriving DecidableEq, Repr

/-- Words that are tokens of their own and can never be names of bindings. -/
def keywords : List String :=
  ["await", "break", "case", "catch", "continue", "debugger", "default", "do", "else", "finally",
    "for", "function", "if", "return", "switch", "throw", "try", "var", "let", "const", "while",
    "with", "new", "this", "super", "class", "extends", "export", "import", "yield", "in",
    "instanceof", "typeof", "void", "delete"]

/-- Words that are literals. -/
def literalWords : List String := ["null", "true", "false"]

/-- Words that strict code reserves beyond the keywords. -/
def strictWords : List String :=
  ["enum", "static", "implements", "package", "protected", "interface", "private", "public"]

/-- Whether a word may refer to a binding. -/
def isReference (w : String) : Bool :=
  !(keywords.contains w || literalWords.contains w || strictWords.contains w)

/-- Characters that end a line. -/
def isLineEnd (c : Char) : Bool :=
  c = '\n' || c = '\r' || c.toNat = 0x2028 || c.toNat = 0x2029

/-- A piece read from the front of a text: its value, its bytes and the rest. -/
structure Piece (α : Type) where
  value : α
  bytes : Nat
  rest : List Char

/-- The number in hexadecimal digits up to a closing brace, for escapes by code point. -/
def bracedHex (acc count : Nat) : List Char → Option (Piece Nat)
  | [] => none
  | c :: cs =>
    if c = Char.ofNat 0x7D then if count = 0 then none else some ⟨acc, 1, cs⟩
    else
      match Json.hexValue? c with
      | some d =>
        if acc * 16 + d ≤ 0x10FFFF then
          (bracedHex (acc * 16 + d) (count + 1) cs).map fun p => { p with bytes := p.bytes + 1 }
        else none
      | none => none

/-- The code point of an escape behind `\u`. -/
def unicodeEscape? : List Char → Option (Piece Nat)
  | a :: b :: c :: d :: rest =>
    if a = Char.ofNat 0x7B then
      (bracedHex 0 0 (b :: c :: d :: rest)).map fun p => { p with bytes := p.bytes + 1 }
    else (Json.hex4? a b c d).map fun n => ⟨n, 4, rest⟩
  | a :: rest =>
    if a = Char.ofNat 0x7B then
      (bracedHex 0 0 rest).map fun p => { p with bytes := p.bytes + 1 }
    else none
  | [] => none

/-- One character of a name, which may be escaped: the character, whether it was escaped. -/
def nameChar? (first : Bool) : List Char → Option (Piece (Char × Bool))
  | '\\' :: 'u' :: rest =>
    match unicodeEscape? rest with
    | some p =>
      let c := Char.ofNat p.value
      if (if first then Text.isIdentifierStart c else Text.isIdentifierPart c) then
        some ⟨(c, true), p.bytes + 2, p.rest⟩
      else none
    | none => none
  | c :: rest =>
    if (if first then Text.isIdentifierStart c else Text.isIdentifierPart c) then
      some ⟨(c, false), c.utf8Size, rest⟩
    else none
  | [] => none

/-- The characters of a name behind the first. -/
def nameTail : Nat → List Char → Piece (List Char × Bool)
  | 0, cs => ⟨([], false), 0, cs⟩
  | fuel + 1, cs =>
    match nameChar? false cs with
    | none => ⟨([], false), 0, cs⟩
    | some p =>
      let tail := nameTail fuel p.rest
      ⟨(p.value.1 :: tail.value.1, p.value.2 || tail.value.2), p.bytes + tail.bytes, tail.rest⟩

/-- A name at the front of a text. A keyword may not be escaped, and no stray backslash follows. -/
def word? (cs : List Char) : Option (Piece Token) :=
  match nameChar? true cs with
  | none => none
  | some p =>
    let tail := nameTail p.rest.length p.rest
    let name := String.ofList (p.value.1 :: tail.value.1)
    let escaped := p.value.2 || tail.value.2
    let spoiled := tail.rest.head? = some '\\'
    let token :=
      if spoiled || (escaped && (keywords.contains name || literalWords.contains name)) then .bad
      else .word name
    some ⟨token, p.bytes + tail.bytes, tail.rest⟩

/-- Digits for which `p` holds, with underscores between them. -/
def digitRun (p : Char → Bool) (cs : List Char) : Nat × List Char :=
  let ds := cs.takeWhile fun c => p c || c = '_'
  (ds.length, cs.drop ds.length)

/-- An exponent, if one follows. -/
def exponentRun (cs : List Char) : Option (Nat × List Char) :=
  match cs with
  | c :: rest =>
    if c = 'e' || c = 'E' then
      let (sign, rest) :=
        match rest with
        | '+' :: r | '-' :: r => (1, r)
        | r => (0, r)
      let (n, rest) := digitRun Char.isDigit rest
      if n = 0 then none else some (1 + sign + n, rest)
    else some (0, cs)
  | [] => some (0, [])

/-- A number is spoiled when a name follows it directly. -/
def finishNumber (token : Token) (bytes : Nat) (rest : List Char) : Piece Token :=
  let spoiled :=
    match rest with
    | c :: _ => Text.isIdentifierStart c || c.isDigit || c = '\\'
    | [] => false
  ⟨if spoiled then .bad else token, bytes, rest⟩

/-- Whether a character is a hexadecimal digit. -/
def isHexDigit (c : Char) : Bool := (Json.hexValue? c).isSome

/-- Whole digits in another base than ten, behind the two characters that name it. -/
def basedNumber (p : Char → Bool) (cs : List Char) : Piece Token :=
  let (n, rest) := digitRun p cs
  if n = 0 then ⟨.bad, 2, cs⟩
  else
    match rest with
    | 'n' :: rest => finishNumber .bigint (n + 3) rest
    | rest => finishNumber .number (n + 2) rest

/-- A decimal number. -/
def decimalNumber (cs : List Char) : Piece Token :=
  let (whole, rest) := digitRun Char.isDigit cs
  match rest with
  | 'n' :: rest => finishNumber .bigint (whole + 1) rest
  | rest =>
    let (point, rest) :=
      match rest with
      | '.' :: r => let (n, r) := digitRun Char.isDigit r; (n + 1, r)
      | r => (0, r)
    match exponentRun rest with
    | some (e, rest) => finishNumber .number (whole + point + e) rest
    | none => ⟨.bad, whole + point, rest⟩

/-- A number at the front of a text that starts with a digit, or a point and a digit. -/
def numberPiece (cs : List Char) : Piece Token :=
  match cs with
  | '0' :: b :: rest =>
    if b = 'x' || b = 'X' then basedNumber isHexDigit rest
    else if b = 'o' || b = 'O' then basedNumber (fun c => '0' ≤ c && c ≤ '7') rest
    else if b = 'b' || b = 'B' then basedNumber (fun c => c = '0' || c = '1') rest
    else decimalNumber cs
  | cs => decimalNumber cs

/-- The character that an escape of one letter stands for. -/
def escapedChar (c : Char) : Char :=
  match c with
  | 'n' => '\n'
  | 't' => '\t'
  | 'r' => '\r'
  | 'b' => Char.ofNat 8
  | 'f' => Char.ofNat 12
  | 'v' => Char.ofNat 11
  | '0' => Char.ofNat 0
  | c => c

/-- The rest of a string literal. It ends at its quote, or before a line break or at the end of the text
when the quote is missing; `none` if an escape cannot be read. -/
def stringTail (quote : Char) : Nat → List Char → Option (Piece (List Char))
  | 0, cs => some ⟨[], 0, cs⟩
  | _ + 1, [] => some ⟨[], 0, []⟩
  | fuel + 1, c :: cs =>
    if c = quote then some ⟨[], 1, cs⟩
    else if c = '\n' || c = '\r' then some ⟨[], 0, c :: cs⟩
    else if c = '\\' then
      match cs with
      | [] => some ⟨[], 1, []⟩
      | '\r' :: '\n' :: rest =>
        (stringTail quote fuel rest).map fun p => { p with bytes := p.bytes + 3 }
      | 'x' :: a :: b :: rest =>
        match Json.hexValue? a, Json.hexValue? b with
        | some a, some b =>
          (stringTail quote fuel rest).map fun p =>
            ⟨Char.ofNat (a * 16 + b) :: p.value, p.bytes + 4, p.rest⟩
        | _, _ => none
      | 'u' :: rest =>
        match unicodeEscape? rest with
        | some e =>
          (stringTail quote fuel e.rest).map fun p =>
            ⟨Char.ofNat e.value :: p.value, p.bytes + e.bytes + 2, p.rest⟩
        | none => none
      | d :: rest =>
        if d = 'x' then none
        else if isLineEnd d then
          (stringTail quote fuel rest).map fun p => { p with bytes := p.bytes + 1 + d.utf8Size }
        else
          (stringTail quote fuel rest).map fun p =>
            ⟨escapedChar d :: p.value, p.bytes + 1 + d.utf8Size, p.rest⟩
    else
      (stringTail quote fuel cs).map fun p => ⟨c :: p.value, p.bytes + c.utf8Size, p.rest⟩

/-- A string literal behind its opening quote. -/
def stringPiece (quote : Char) (cs : List Char) : Piece Token :=
  match stringTail quote (cs.length + 1) cs with
  | some p => ⟨.string (String.ofList p.value), p.bytes + 1, p.rest⟩
  | none => ⟨.bad, 1, cs⟩

/-- The symbols of more than one character, longest first. -/
def longSymbols : List String :=
  ["...", "===", "!==", "**=", "&&=", "||=", "??=", "=>", "==", "!=", "++", "+=", "--", "-=", "**",
    "*=", "%=", "&&", "&=", "||", "|=", "^=", "/=", "??", "?."]

/-- The symbols of one character. -/
def shortSymbols : List Char :=
  ['(', ')', '[', ']', ';', ',', '~', ':', '#', '@', '.', '?', '<', '>', '=', '!', '+', '-', '*',
    '%', '&', '|', '^', '/', Char.ofNat 0x7B, Char.ofNat 0x7D, Char.ofNat 0x60]

/-- Whether a text starts with the characters of another. -/
def startsWith : List Char → List Char → Bool
  | [], _ => true
  | _ :: _, [] => false
  | p :: ps, c :: cs => p = c && startsWith ps cs

/-- Whether a symbol stands at the front of a text. A question mark and a point are taken together
only if no digit follows. -/
def symbolAt (cs : List Char) (s : String) : Bool :=
  startsWith s.toList cs &&
    !(s = "?." && ((cs.drop 2).head?.any Char.isDigit))

/-- A symbol at the front of a text. -/
def symbolPiece? (cs : List Char) : Option (Piece Token) :=
  match longSymbols.find? (symbolAt cs) with
  | some s => some ⟨.symbol s, s.length, cs.drop s.length⟩
  | none =>
    match cs with
    | c :: rest =>
      if shortSymbols.contains c then some ⟨.symbol (String.singleton c), 1, rest⟩ else none
    | [] => none

/-- The token at the front of a text without blanks before it. -/
def tokenPiece (cs : List Char) : Piece Token :=
  match cs with
  | [] => ⟨.eof, 0, []⟩
  | c :: rest =>
    if c.isDigit || (c = '.' && rest.head?.any Char.isDigit) then numberPiece cs
    else if c = '"' || c.toNat = 0x27 then stringPiece c rest
    else
      match word? cs with
      | some p => p
      | none =>
        match symbolPiece? cs with
        | some p => p
        | none => ⟨.bad, c.utf8Size, rest⟩

end DocLocale.Source
