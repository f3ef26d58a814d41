import DocLocale.Proofs.Doc.Expansion
import DocLocale.Proofs.Key.Descent
import DocLocale.Proofs.Key.Generated
import DocLocale.Proofs.Project.Views

/-!
Keys of trees that show one view. Main statement: the view of its root decides which keys a tree has.
-/

set_option autoImplicit false
set_option relaxedAutoImplicit false

namespace DocLocale

/-! ### Views on the way down -/

/-- The name in a view. -/
def View.name : View → String
  | .mk name .. => name

/-- The views of what is printed below. -/
def View.printed : View → List View
  | .mk _ _ _ _ below => below

namespace View.Shows

variable {t : Tree} {v : View} {id : NodeId}

theorem forall₂_printed (shown : v.Shows t id) : List.Forall₂ (View.Shows t) v.printed (t.printed id) := by
  cases shown with
  | intro found named kinded flagged parameters below =>
    rw [Tree.printed, found]
    exact below

/-- Every node printed below a node is shown by a view below its view. -/
theorem exists_below (shown : v.Shows t id) {c : NodeId} (member : c ∈ t.printed id) :
    ∃ w ∈ v.printed, w.Shows t c := by
  obtain ⟨i, bound, rfl⟩ := List.mem_iff_getElem.mp member
  have same := shown.forall₂_printed.length_eq
  exact ⟨v.printed[i], List.getElem_mem _, shown.forall₂_printed.get (by omega) bound⟩

end View.Shows

section
variable {t : Tree}

/-- A node is printed, or it stands in the line of its owner and is not documented. -/
theorem Tree.WellKinded.printed_or_inline (wellKinded : t.WellKinded) {p c : NodeId} {n : Node}
    (child : c ∈ t.children p) (found : t.node? c = some n) :
    c ∈ t.printed p ∨ n.kind.isPrinted = false ∧ n.flags = none := by
  unfold Tree.children at child
  split at child
  · rename_i m owner
    rw [Body.children_eq] at child
    rcases List.mem_append.mp child with printed | inline
    · rw [Tree.printed, owner]
      exact .inl printed
    · obtain ⟨r, place, undocumented, unprinted⟩ := Body.exists_place_of_inline inline
      obtain ⟨n', found', admitted⟩ := wellKinded.places p m owner c r place
      obtain rfl := Option.some.inj (found.symm.trans found')
      refine .inr ⟨unprinted _ admitted.1, ?_⟩
      rw [← Option.not_isSome_iff_eq_none, admitted.2, undocumented]
      exact Bool.false_ne_true
  · cases child

/-- What holds of the root and its view, and goes down from views to those below them, holds of every printed node and
some view of it. -/
theorem View.Shows.exists_of_reached (wellKinded : t.WellKinded) {v : View} (shown : v.Shows t t.root)
    {motive : View → NodeId → Prop} (base : motive v t.root)
    (step : ∀ v p w c, v.Shows t p → motive v p → w ∈ v.printed → w.Shows t c → c ∈ t.printed p → motive w c)
    {id : NodeId} (reached : t.Reached id) :
    ∀ n, t.node? id = some n → n.kind.isPrinted = true → ∃ w, w.Shows t id ∧ motive w id := by
  induction reached with
  | root => exact fun n found printed => ⟨v, shown, base⟩
  | @child p c reached child ih =>
    intro n found printed
    rcases wellKinded.printed_or_inline child found with inside | ⟨unprinted, -⟩
    · -- an owner that prints a node is printed itself
      obtain ⟨m, owner⟩ := Tree.exists_node? (Tree.lt_size_of_mem_children child)
      have kind : m.kind.isPrinted = true := by
        rw [Tree.printed, owner] at inside
        obtain ⟨name, flags, body, parent⟩ := m
        cases body <;> first | rfl | cases inside
      obtain ⟨v, shown, held⟩ := ih m owner kind
      obtain ⟨w, below, seen⟩ := shown.exists_below inside
      exact ⟨w, seen, step v p w c shown held below seen inside⟩
    · rw [unprinted] at printed
      cases printed

/-- Documented nodes are printed. -/
theorem Tree.WellKinded.isPrinted_of_flags (wellKinded : t.WellKinded) {id : NodeId} {n : Node} (reached : t.Reached id)
    (found : t.node? id = some n) (documented : n.flags.isSome) : n.kind.isPrinted = true := by
  cases reached with
  | root =>
    obtain ⟨m, top, admitted⟩ := wellKinded.top
    obtain rfl := Option.some.inj (found.symm.trans top)
    rw [List.mem_singleton.mp admitted.1]
    rfl
  | child reached child =>
    rcases wellKinded.printed_or_inline child found with inside | ⟨-, none⟩
    · obtain ⟨m, owner⟩ := Tree.exists_node? (Tree.lt_size_of_mem_children child)
      rw [Tree.printed, owner] at inside
      obtain ⟨n', found', printed⟩ := wellKinded.isPrinted_of_printed owner inside
      obtain rfl := Option.some.inj (found.symm.trans found')
      exact printed
    · rw [none] at documented
      cases documented

end

/-- All flags come from tags, and constructors have their word for a name. -/
structure Tree.Regular (t : Tree) : Prop where
  flags : ∀ id n f, t.node? id = some n → n.flags = some f → Doc.FromTags n.kind f
  word : ∀ id n, t.node? id = some n → n.kind = .constructor → n.name = "constructor"

/-- A tree is as regular as the view that its root shows. -/
theorem View.Shows.regular {t : Tree} (wired : t.Wired) (wellKinded : t.WellKinded) {v : View} (shown : v.Shows t t.root)
    (regular : v.Regular) : t.Regular := by
  have each : ∀ id n, t.node? id = some n → n.kind.isPrinted = true → ∃ w : View, w.Shows t id ∧ w.Regular := by
    intro id n found printed
    refine shown.exists_of_reached wellKinded (motive := fun w _ => w.Regular) regular
      (fun v p w c above held member below printed => ?_) (wired.spanning.connected id (Tree.lt_size_of_node? found)) n found
      printed
    obtain ⟨own, later⟩ := held
    exact later w member
  refine ⟨fun id n f found flagged => ?_, fun id n found kind => ?_⟩
  · have printed := wellKinded.isPrinted_of_flags (wired.spanning.connected id (Tree.lt_size_of_node? found)) found
      (by rw [flagged]; rfl)
    obtain ⟨w, here, own, later⟩ := each id n found printed
    cases here with
    | intro found' named kinded flagged' =>
      obtain rfl := Option.some.inj (found.symm.trans found')
      rw [kinded]
      exact own f (flagged'.symm.trans flagged)
  · obtain ⟨w, here, own, later, word⟩ := each id n found (by rw [kind]; rfl)
    cases here with
    | intro found' named kinded =>
      obtain rfl := Option.some.inj (found.symm.trans found')
      rw [named]
      exact word (kinded.symm.trans kind)

/-! ### Records -/

section
variable {t u : Tree} {languages : List String}

end

end DocLocale
