import DocLocale.Proofs.Path.Resolved

/-!
Where absolute paths lead. A path denotes the location reached when names lead down, steps up lead back and the root
has nothing above it. Normalising keeps a step up that is taken at the root, and the next such step removes it again.
Main statement: normalising gives the names that lead to the location, with one step up in front of them if an odd
number of steps was taken at the root; so paths to one location are spelled alike exactly if they agree in that.
-/

set_option autoImplicit false
set_option relaxedAutoImplicit false

namespace DocLocale.Path

/-- One component further from a location, which is given by its names with the last one first. -/
def leadOn (names : List String) : Component → List String
  | .normal name => name :: names
  | .parent => names.tail
  | .root | .current => names

/-- The location that a path denotes: the names that lead to it from the root. -/
def location (path : String) : List String := ((components path).foldl leadOn []).reverse

/-- How many of the steps up among some components are taken at the root, on a way that starts at a location. -/
def stepsAbove : List String → List Component → Nat
  | _, [] => 0
  | names, c :: cs => (if c = .parent ∧ names = [] then 1 else 0) + stepsAbove (leadOn names c) cs

/-- The steps up of a path that are taken at the root. -/
def overshoot (path : String) : Nat := stepsAbove [] (components path)

/-- The components that lead to a location, with a step up in front if an odd number of them was taken at the root. -/
def spelling (names : List String) (above : Nat) : List Component :=
  .root :: ((if above % 2 = 1 then [.parent] else []) ++ names.map .normal)

section Spelling

variable {names names' : List String} (above above' : Nat)

theorem parent_mem_spelling (names : List String) : .parent ∈ spelling names above ↔ above % 2 = 1 := by
  unfold spelling
  split <;> simp [*]

theorem spelling_inj : spelling names above = spelling names' above' ↔ names = names' ∧ above % 2 = above' % 2 := by
  constructor
  · intro same
    have parity : above % 2 = 1 ↔ above' % 2 = 1 := by
      rw [← parent_mem_spelling above names, same, parent_mem_spelling]
    simp only [spelling, parity] at same
    have mapped := List.append_cancel_left (List.cons.inj same).2
    exact ⟨List.map_injective_iff.mpr (fun _ _ => Component.normal.inj) mapped, by omega⟩
  · rintro ⟨rfl, parity⟩
    rw [spelling, spelling, parity]

theorem kept_spelling (named : ∀ name ∈ names, IsName name) : Kept (spelling names above).reverse := by
  unfold spelling
  split
  · simpa using Kept.above.names named
  · simpa using Kept.root.names named

theorem ofComponents_spelling_inj (named : ∀ name ∈ names, IsName name) (named' : ∀ name ∈ names', IsName name) :
    ofComponents (spelling names above) = ofComponents (spelling names' above') ↔
      names = names' ∧ above % 2 = above' % 2 := by
  have left := components_ofComponents (kept_spelling above named)
  have right := components_ofComponents (kept_spelling above' named')
  rw [List.reverse_reverse] at left right
  rw [← spelling_inj]
  constructor
  · intro same
    rw [← left, same, right]
  · exact congrArg ofComponents

end Spelling

section Resolving

/-- A component that leads on is resolved as it leads, and a step up at the root puts a step up in front or takes it
away. -/
theorem resolveStep_spelling (names : List String) (above : Nat) {c : Component} (under : c ≠ .root) :
    resolveStep (spelling names.reverse above).reverse c =
      (spelling (leadOn names c).reverse (above + if c = .parent ∧ names = [] then 1 else 0)).reverse := by
  cases c with
  | root => exact absurd rfl under
  | current => simp [resolveStep, leadOn]
  | normal name => simp [resolveStep, leadOn, spelling]
  | parent =>
    cases names with
    | cons name names => simp [resolveStep, leadOn, spelling]
    | nil =>
      rcases Nat.mod_two_eq_zero_or_one above with even | odd
      · simp [resolveStep, leadOn, spelling, even, Nat.add_mod]
      · simp [resolveStep, leadOn, spelling, odd, Nat.add_mod]

theorem foldl_resolveStep_spelling (names : List String) (above : Nat) {cs : List Component} (under : .root ∉ cs) :
    cs.foldl resolveStep (spelling names.reverse above).reverse =
      (spelling (cs.foldl leadOn names).reverse (above + stepsAbove names cs)).reverse := by
  induction cs generalizing names above with
  | nil => rfl
  | cons c cs ih =>
    simp only [List.mem_cons, not_or] at under
    rw [List.foldl_cons, resolveStep_spelling names above (Ne.symm under.1), ih _ _ under.2, List.foldl_cons,
      stepsAbove, Nat.add_assoc]

variable {path : String}

/-- Resolving an absolute path spells its location. -/
theorem resolve_components (absolute : isAbsolute path = true) :
    resolve (components path) = spelling (location path) (overshoot path) := by
  obtain ⟨cs, whole, leads⟩ := exists_under_root absolute
  have under : .root ∉ cs := by
    intro member
    rcases leads _ member with same | ⟨name, -, same⟩ <;> cases same
  have run := foldl_resolveStep_spelling [] 0 under
  have start : stepsAbove [] (.root :: cs) = stepsAbove [] cs := Nat.zero_add _
  rw [resolve, location, overshoot, whole, start, List.foldl_cons, List.foldl_cons, ← List.reverse_inj,
    List.reverse_reverse, leadOn]
  rw [Nat.zero_add] at run
  exact run

theorem isName_of_mem_location (absolute : isAbsolute path = true) : ∀ name ∈ location path, IsName name := by
  obtain ⟨cs, whole, leads⟩ := exists_under_root absolute
  have run : ∀ name ∈ (components path).foldl leadOn [], IsName name := by
    rw [whole, List.foldl_cons, leadOn]
    refine List.foldlRecOn (motive := fun names => ∀ name ∈ names, IsName name) cs leadOn nofun ?_
    intro names named c member
    rcases leads c member with rfl | ⟨name, isName, rfl⟩
    · exact fun other inside => named other (List.mem_of_mem_tail inside)
    · exact List.forall_mem_cons.mpr ⟨isName, named⟩
  simpa [location] using run

end Resolving

/-- Normalising spells a location in one way for all paths to it, up to a step up in front: it is there exactly if a
path takes an odd number of steps up at the root, and without it the path is the one that leads straight down. -/
theorem normalize_spells_location {path : String} (absolute : isAbsolute path = true) :
    (normalize path = ofComponents (.root :: (location path).map .normal) ↔ overshoot path % 2 = 0) ∧
    .current ∉ components (normalize path) ∧
    (.parent ∈ components (normalize path) ↔ overshoot path % 2 = 1) ∧
    ∀ other, isAbsolute other = true →
      (normalize path = normalize other ↔
        location path = location other ∧ overshoot path % 2 = overshoot other % 2) := by
  have named := isName_of_mem_location absolute
  have spelled : components (normalize path) = spelling (location path) (overshoot path) := by
    have read := components_ofComponents (kept_spelling (overshoot path) named)
    rw [List.reverse_reverse] at read
    rw [normalize, resolve_components absolute, read]
  refine ⟨?_, ?_, ?_, fun other absolute' => ?_⟩
  · rw [normalize, resolve_components absolute]
    exact (ofComponents_spelling_inj (overshoot path) 0 named named).trans (and_iff_right rfl)
  · rw [spelled, spelling]
    split <;> simp
  · rw [spelled, parent_mem_spelling]
  · rw [normalize, normalize, resolve_components absolute, resolve_components absolute']
    exact ofComponents_spelling_inj _ _ named (isName_of_mem_location absolute')

/-- One step up too many stays in front of the names; a second one takes it away again. -/
theorem normalize_spells_location_aboveRoot :
    (∀ path ∈ ["/../a/b/../c", "/a/./c", "/../x/../../a/c"], isAbsolute path = true ∧ location path = ["a", "c"]) ∧
    Component.parent ∈ components (normalize "/../a/b/../c") ∧
    normalize "/../a/b/../c" ≠ normalize "/a/./c" ∧ normalize "/../x/../../a/c" = normalize "/a/./c" := by
  have absolute : isAbsolute "/../a/b/../c" = true ∧ isAbsolute "/a/./c" = true ∧
      isAbsolute "/../x/../../a/c" = true := by
    decide +kernel
  obtain ⟨-, -, steps, alike⟩ := normalize_spells_location absolute.1
  obtain ⟨-, -, -, alike'⟩ := normalize_spells_location absolute.2.2
  refine ⟨by decide +kernel, steps.mpr (by decide +kernel), ?_, ?_⟩
  · rw [Ne, alike _ absolute.2.1]
    decide +kernel
  · rw [alike' _ absolute.2.1]
    decide +kernel

end DocLocale.Path
