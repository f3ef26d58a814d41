import DocLocale.Text.IdentifierTable

/-!
Character classes of identifiers and of the words of tag names.
-/

set_option autoImplicit false
set_option relaxedAutoImplicit false

namespace DocLocale.Text

/-- Characters that may begin an identifier. -/
def isIdentifierStart (c : Char) : Bool :=
  c.isAlpha || c == '$' || c == '_' || (128 ≤ c.toNat && identifierStart.mem c)

/-- Characters that may continue an identifier: those that begin one, digits, marks and the two
joiners. -/
def isIdentifierPart (c : Char) : Bool :=
  c.isAlphanum || c == '$' || c == '_' ||
    (128 ≤ c.toNat && (identifierStart.mem c || identifierPart.mem c ||
      c.toNat == 0x200C || c.toNat == 0x200D))

/-- Characters that continue an identifier but are no letters, marks or decimal digits. -/
def wordExcluded : Ranges := ⟨#[
  0xB7, 0xB8, 0x387, 0x388, 0x1369, 0x1372, 0x19DA, 0x19DB, 0x2118, 0x2119, 0x212E, 0x212F, 0x309B,
  0x309D, 0x30FB, 0x30FC, 0xFF65, 0xFF66]⟩

/-- Enclosing marks and circled letters, which belong to words and not to identifiers. -/
def wordIncluded : Ranges := ⟨#[
  0x488, 0x48A, 0x1ABE, 0x1ABF, 0x20DD, 0x20E1, 0x20E2, 0x20E5, 0x24B6, 0x24EA, 0x2E2F, 0x2E30,
  0xA670, 0xA673, 0x1F130, 0x1F14A, 0x1F150, 0x1F16A, 0x1F170, 0x1F18A]⟩

/-- Word characters: alphabetic characters, marks, decimal digits, connectors and joiners. -/
def isWordChar (c : Char) : Bool :=
  c.isAlphanum || c == '_' ||
    (128 ≤ c.toNat && (wordIncluded.mem c ||
      ((identifierStart.mem c || identifierPart.mem c || c.toNat == 0x200C || c.toNat == 0x200D) &&
        !wordExcluded.mem c)))

end DocLocale.Text
