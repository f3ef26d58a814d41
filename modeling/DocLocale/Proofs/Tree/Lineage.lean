import DocLocale.Proofs.Tree.Wiring

/-!
The lineage of a node: the node, its owner, the owner of that, up to the root. Following recorded parents
gives it, and no lineage is longer than the tree is large, so a pass that goes down one level at a time
ends within as many levels as there are nodes.
-/

set_option autoImplicit false
set_option relaxedAutoImplicit false

namespace DocLocale.Tree

variable {t : Tree}

/-- A node and its owners up to the root. -/
def lineage (t : Tree) (id : NodeId) : List NodeId := t.ancestry (t.size + 1) id

/-- A way down from the root, listed from its end. -/
private inductive Descent (t : Tree) : NodeId → List NodeId → Prop
  | root : Descent t t.root [t.root]
  | child {p c : NodeId} {path : List NodeId} :
    Descent t p path → c ∈ t.children p → Descent t c (c :: path)

namespace Descent

private theorem of_reached {id : NodeId} (reached : t.Reached id) : ∃ path, t.Descent id path := by
  induction reached with
  | root => exact ⟨_, .root⟩
  | child _ member ih =>
    obtain ⟨path, descent⟩ := ih
    exact ⟨_, descent.child member⟩

private theorem unique (spanning : t.Spanning) {id : NodeId} {path other : List NodeId}
    (first : t.Descent id path) (second : t.Descent id other) : path = other := by
  induction first generalizing other with
  | root =>
    generalize top : t.root = id at second
    cases second with
    | root => rfl
    | child _ member => exact absurd top.symm (spanning.child_ne_root member)
  | child _ member ih =>
    cases second with
    | root => exact absurd rfl (spanning.child_ne_root member)
    | child above also =>
      obtain rfl := spanning.owner_unique member also
      rw [ih above]

private theorem ancestor {id : NodeId} {path : List NodeId} (descent : t.Descent id path) :
    ∀ a ∈ path, ∃ rest, t.Descent a rest ∧ rest.length ≤ path.length := by
  induction descent with
  | root =>
    intro a member
    rw [List.mem_singleton.mp member]
    exact ⟨_, .root, Nat.le_refl _⟩
  | child above member ih =>
    intro a inside
    rcases List.mem_cons.mp inside with rfl | inside
    · exact ⟨_, above.child member, Nat.le_refl _⟩
    · obtain ⟨rest, way, shorter⟩ := ih a inside
      exact ⟨rest, way, by simp only [List.length_cons]; omega⟩

private theorem nodup (spanning : t.Spanning) {id : NodeId} {path : List NodeId}
    (descent : t.Descent id path) : path.Nodup := by
  induction descent with
  | root => exact List.nodup_singleton _
  | @child p c path above member ih =>
    refine List.nodup_cons.mpr ⟨?_, ih⟩
    intro repeated
    obtain ⟨rest, way, shorter⟩ := above.ancestor c repeated
    have same := way.unique spanning (above.child member)
    rw [same, List.length_cons] at shorter
    omega

private theorem known (spanning : t.Spanning) {id : NodeId} {path : List NodeId}
    (descent : t.Descent id path) : ∀ a ∈ path, a < t.size := by
  induction descent with
  | root => simpa using spanning.root_lt
  | child _ member ih =>
    intro a inside
    rcases List.mem_cons.mp inside with rfl | inside
    · exact spanning.child_lt member
    · exact ih a inside

private theorem length_le (spanning : t.Spanning) {id : NodeId} {path : List NodeId}
    (descent : t.Descent id path) : path.length ≤ t.size := by
  have bounded := (descent.nodup spanning).length_le_of_subset fun a member =>
    List.mem_range.mpr (descent.known spanning a member)
  simpa using bounded

private theorem ancestry_eq (wired : t.Wired) {id : NodeId} {path : List NodeId}
    (descent : t.Descent id path) {fuel : Nat} (enough : path.length ≤ fuel) :
    t.ancestry fuel id = path := by
  induction descent generalizing fuel with
  | root =>
    cases fuel with
    | zero => simp at enough
    | succ fuel => simp only [ancestry, wired.parent?_root]
  | @child p c path above member ih =>
    cases fuel with
    | zero => simp at enough
    | succ fuel =>
      have rest : path.length ≤ fuel := by simpa using enough
      simp only [ancestry, (wired.owners c p).mpr member, ih rest]

private theorem lineage_eq (wired : t.Wired) {id : NodeId} {path : List NodeId}
    (descent : t.Descent id path) : t.lineage id = path :=
  descent.ancestry_eq wired (Nat.le_succ_of_le (descent.length_le wired.spanning))

end Descent

namespace Wired

private theorem exists_descent (wired : t.Wired) {id : NodeId} (bound : id < t.size) :
    ∃ path, t.Descent id path :=
  Descent.of_reached (wired.spanning.connected id bound)

theorem lineage_root (wired : t.Wired) : t.lineage t.root = [t.root] := by
  rw [lineage, ancestry, wired.parent?_root]

theorem lineage_child (wired : t.Wired) {p c : NodeId} (member : c ∈ t.children p) :
    t.lineage c = c :: t.lineage p := by
  obtain ⟨path, descent⟩ := wired.exists_descent (lt_size_of_mem_children member)
  rw [descent.lineage_eq wired, (descent.child member).lineage_eq wired]

theorem length_lineage_le (wired : t.Wired) {id : NodeId} (bound : id < t.size) :
    (t.lineage id).length ≤ t.size := by
  obtain ⟨path, descent⟩ := wired.exists_descent bound
  rw [descent.lineage_eq wired]
  exact descent.length_le wired.spanning

theorem length_lineage_pos (wired : t.Wired) {id : NodeId} (bound : id < t.size) :
    0 < (t.lineage id).length := by
  obtain ⟨path, descent⟩ := wired.exists_descent bound
  rw [descent.lineage_eq wired]
  cases descent <;> simp

/-- What holds of a node whenever it holds of the children holds of every node. -/
theorem induction_down (wired : t.Wired) {motive : (id : NodeId) → id < t.size → Prop}
    (step : ∀ id bound, (∀ c (member : c ∈ t.children id), motive c (wired.spanning.child_lt member)) →
      motive id bound) (id : NodeId) (bound : id < t.size) : motive id bound := by
  suffices within : ∀ fuel id bound, t.size < fuel + (t.lineage id).length → motive id bound from
    within (t.size + 1) id bound (by omega)
  intro fuel
  induction fuel with
  | zero =>
    intro id bound enough
    have := wired.length_lineage_le bound
    omega
  | succ fuel ih =>
    intro id bound enough
    refine step id bound fun c member => ih c _ ?_
    rw [wired.lineage_child member, List.length_cons]
    omega

/-- A pass that goes down one level at a time gives the same with any bound that is deep enough. -/
theorem levels_eq (wired : t.Wired) {α : Type} {pass : Nat → NodeId → α}
    (level : ∀ fuel more id, (∀ c ∈ t.children id, pass fuel c = pass more c) →
      pass (fuel + 1) id = pass (more + 1) id)
    {fuel more : Nat} {id : NodeId} (bound : id < t.size)
    (enough : t.size < fuel + (t.lineage id).length) (also : t.size < more + (t.lineage id).length) :
    pass fuel id = pass more id := by
  have depth := wired.length_lineage_le bound
  induction fuel generalizing more id with
  | zero => omega
  | succ fuel ih =>
    cases more with
    | zero => omega
    | succ more =>
      apply level
      intro c member
      have deeper : (t.lineage c).length = (t.lineage id).length + 1 := by
        rw [wired.lineage_child member, List.length_cons]
      have known := wired.spanning.child_lt member
      exact ih known (by omega) (by omega) (wired.length_lineage_le known)

end Wired

end DocLocale.Tree
