import DocLocale.Proofs.Tree.Spanning

/-!
The order in which a tree is walked. Main statement: walking a spanning tree visits every node once.
-/

set_option autoImplicit false
set_option relaxedAutoImplicit false

namespace DocLocale.Tree

open scoped List

variable {t : Tree}

/-- What holds between two visits: nodes seen or waiting on the stack are distinct, each but the root was
brought in by an owner already seen, and no child of a node seen is missing. -/
private structure Walking (t : Tree) (seen stack : List NodeId) : Prop where
  nodup : (seen ++ stack).Nodup
  known : ∀ id ∈ seen ++ stack, id < t.size
  origin : ∀ id ∈ seen ++ stack, id = t.root ∨ ∃ p ∈ seen, id ∈ t.children p
  root : t.root ∈ seen ++ stack
  closed : ∀ p ∈ seen, ∀ c ∈ t.children p, c ∈ seen ++ stack

namespace Walking

private theorem start (bound : t.root < t.size) : t.Walking [] [t.root] where
  nodup := by simp
  known := by simpa using bound
  origin := by simp
  root := by simp
  closed := by simp

private theorem step (spanning : t.Spanning) {seen stack : List NodeId} {id : NodeId}
    (walking : t.Walking seen (id :: stack)) :
    t.Walking (seen ++ [id]) (t.children id ++ stack) := by
  have shuffle : (seen ++ [id]) ++ (t.children id ++ stack) ~
      t.children id ++ (seen ++ id :: stack) := by
    rw [List.perm_iff_count]
    intro a
    simp only [List.count_append, List.count_cons, List.count_nil]
    omega
  have unseen : id ∉ seen := by
    intro past
    exact (List.nodup_append'.mp walking.nodup).2.2 past List.mem_cons_self
  have new : ∀ c ∈ t.children id, c ∉ seen ++ id :: stack := by
    intro c member old
    rcases walking.origin c old with rfl | ⟨p, past, also⟩
    · exact spanning.child_ne_root member rfl
    · exact unseen (spanning.owner_unique also member ▸ past)
  refine ⟨?_, ?_, ?_, ?_, ?_⟩
  · refine shuffle.nodup_iff.mpr (List.nodup_append'.mpr
      ⟨spanning.children_nodup id, walking.nodup, ?_⟩)
    intro c member old
    exact new c member old
  · intro c member
    rcases List.mem_append.mp (shuffle.subset member) with child | old
    · exact spanning.child_lt child
    · exact walking.known c old
  · intro c member
    rcases List.mem_append.mp (shuffle.subset member) with child | old
    · exact .inr ⟨id, by simp, child⟩
    · rcases walking.origin c old with top | ⟨p, past, also⟩
      · exact .inl top
      · exact .inr ⟨p, List.mem_append_left _ past, also⟩
  · exact shuffle.symm.subset (List.mem_append_right _ walking.root)
  · intro p past c member
    apply shuffle.symm.subset
    rcases List.mem_append.mp past with past | same
    · exact List.mem_append_right _ (walking.closed p past c member)
    · exact List.mem_append_left _ (List.mem_singleton.mp same ▸ member)

private theorem length_le {seen stack : List NodeId} (walking : t.Walking seen stack) :
    seen.length + stack.length ≤ t.size := by
  have bounded := walking.nodup.length_le_of_subset fun id member =>
    List.mem_range.mpr (walking.known id member)
  simpa using bounded

private theorem seen_all (spanning : t.Spanning) {seen : List NodeId}
    (walking : t.Walking seen []) : seen ~ List.range t.size := by
  have reached : ∀ id, t.Reached id → id ∈ seen := by
    intro id path
    induction path with
    | root => simpa using walking.root
    | child _ member ih => simpa using walking.closed _ ih _ member
  have nodup : seen.Nodup := by simpa using walking.nodup
  refine (List.perm_ext_iff_of_nodup nodup List.nodup_range).mpr fun id => ?_
  rw [List.mem_range]
  exact ⟨fun member => walking.known id (by simpa using member),
    fun bound => reached id (spanning.connected id bound)⟩

private theorem run (spanning : t.Spanning) (fuel : Nat) {seen stack : List NodeId}
    (walking : t.Walking seen stack) (enough : t.size ≤ fuel + seen.length) :
    seen ++ t.walkFrom fuel stack ~ List.range t.size := by
  induction fuel generalizing seen stack with
  | zero =>
    have bounded := walking.length_le
    have empty : stack = [] := List.eq_nil_of_length_eq_zero (by omega)
    subst empty
    simpa [walkFrom] using walking.seen_all spanning
  | succ fuel ih =>
    cases stack with
    | nil => simpa [walkFrom] using walking.seen_all spanning
    | cons id stack =>
      have longer : t.size ≤ fuel + (seen ++ [id]).length := by
        simp only [List.length_append, List.length_singleton]
        omega
      simpa [walkFrom] using ih (walking.step spanning) longer

end Walking

/-- Going on for longer than there are nodes visits nothing more. -/
theorem walkFrom_perm_range (spanning : t.Spanning) {fuel : Nat} (enough : t.size ≤ fuel) :
    t.walkFrom fuel [t.root] ~ List.range t.size := by
  simpa using Walking.run spanning fuel (Walking.start spanning.root_lt) (by simpa using enough)

/-- A walk visits every node exactly once. -/
theorem walk_perm_range (spanning : t.Spanning) : t.walk ~ List.range t.size :=
  walkFrom_perm_range spanning (Nat.le_refl _)

theorem mem_walk (spanning : t.Spanning) {id : NodeId} : id ∈ t.walk ↔ id < t.size := by
  rw [(walk_perm_range spanning).mem_iff, List.mem_range]

end DocLocale.Tree
