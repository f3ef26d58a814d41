import DocLocale.Text.PrintTable

/-!
Quoted text for messages: the text between double quotes, with what cannot be printed spelled out.
-/

set_option autoImplicit false
set_option relaxedAutoImplicit false

namespace DocLocale.Text

/-- The lower-case hexadecimal digits of a number. -/
def hexDigits (n : Nat) : List Char := Nat.toDigits 16 n

/-- One character inside a quoted text. A mark that would attach to the quote or character before it
and a character without a printed form are spelled by number. -/
def escapeChar (c : Char) : List Char :=
  match c with
  | '\x00' => ['\\', '0']
  | '\t' => ['\\', 't']
  | '\r' => ['\\', 'r']
  | '\n' => ['\\', 'n']
  | '"' => ['\\', '"']
  | '\\' => ['\\', '\\']
  | c =>
    if 32 ≤ c.toNat && c.toNat < 127 then [c]
    else if extending.mem c || unprintable.mem c then
      ['\\', 'u', Char.ofNat 0x7B] ++ hexDigits c.toNat ++ [Char.ofNat 0x7D]
    else [c]

/-- The text in double quotes, as messages show paths and contents. -/
def quoted (s : String) : String :=
  String.ofList (['"'] ++ s.toList.flatMap escapeChar ++ ['"'])

end DocLocale.Text
