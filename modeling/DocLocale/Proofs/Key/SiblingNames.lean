import DocLocale.Proofs.Key.NamePaths

/-!
Keys of nodes whose names are plain. The key of a node gives back the segments of its lineage, since plain names
have no dots. Main statement: in a tree of plain names every node has a key of its own if and only if no two
children of one owner have names that differ in the case of the first letter at most.
-/

set_option autoImplicit false
set_option relaxedAutoImplicit false

namespace DocLocale.Key

section Lineages

variable {t : Tree}

theorem ofNode_root (wired : t.Wired) : ofNode t t.root = "" := by
  rw [ofNode_eq, wired.lineage_root]
  rfl

/-- The key of a child of the root is its segment. -/
theorem ofNode_top (wired : t.Wired) {c : NodeId} (member : c ∈ t.children t.root) :
    ofNode t c = segment (t.name c) := by
  rw [ofNode_eq, wired.lineage_child member, wired.lineage_root]
  simp

/-- Names of ASCII letters, digits, underscores and dollar signs. -/
def isPlainName (name : String) : Bool :=
  name ≠ "" && name.toList.all fun c => c.isAlphanum || c = '_' || c = '$'

private theorem notMem_of_isPlainName {name : String} (plain : isPlainName name = true) {c : Char}
    (foreign : (c.isAlphanum || c = '_' || c = '$') = false) : c ∉ name.toList := by
  intro member
  rw [isPlainName, Bool.and_eq_true, List.all_eq_true] at plain
  have fine := plain.2 c member
  rw [foreign] at fine
  cases fine

private theorem separable_of_isPlainName {name : String} (plain : isPlainName name = true) : Separable name :=
  ⟨notMem_of_isPlainName plain (by decide), notMem_of_isPlainName plain (by decide)⟩

/-- Every node below the root has a plain name. -/
def PlainNames (t : Tree) : Prop := ∀ id < t.size, id ≠ t.root → isPlainName (t.name id) = true

variable (wired : t.Wired) (plain : PlainNames t)

include wired plain

private theorem plain_child {p c : NodeId} (member : c ∈ t.children p) : isPlainName (t.name c) = true :=
  plain c (wired.spanning.child_lt member) (wired.spanning.child_ne_root member)

private theorem segment_ne_empty {p c : NodeId} (member : c ∈ t.children p) : segment (t.name c) ≠ "" := by
  have named := plain_child wired plain member
  rw [isPlainName, Bool.and_eq_true, decide_eq_true_eq] at named
  exact mt segment_eq_empty_iff.mp named.1

private theorem ofNode_ne_empty {p c : NodeId} (member : c ∈ t.children p) : ofNode t c ≠ "" := by
  by_cases top : p = t.root
  · subst top
    rw [ofNode_top wired member]
    exact segment_ne_empty wired plain member
  · have longer := length_ofNode_child wired member top
    intro empty
    rw [empty] at longer
    simp at longer

/-- Two owned nodes share a key exactly if their owners do and their names are alike. -/
theorem ofNode_child_eq_iff {p q a b : NodeId} (left : a ∈ t.children p) (right : b ∈ t.children q) :
    ofNode t a = ofNode t b ↔ ofNode t p = ofNode t q ∧ lowered (t.name a) = lowered (t.name b) := by
  have named := separable_of_isPlainName (plain_child wired plain left)
  have named' := separable_of_isPlainName (plain_child wired plain right)
  -- A key that goes on from another one has a dot, which the segment of a plain name has not.
  have apart : ∀ {x y r : NodeId}, x ∈ t.children t.root → y ∈ t.children r → r ≠ t.root →
      ofNode t x ≠ ofNode t y := by
    intro x y r first second below same
    rw [ofNode_top wired first, ofNode_child wired second below] at same
    refine (separable_of_isPlainName (plain_child wired plain first)).notMem_dot_segment ?_
    rw [same]
    simp
  have owned : ∀ {r : NodeId}, r < t.size → r ≠ t.root → ofNode t r ≠ "" := by
    intro r bound below
    obtain ⟨o, child⟩ := wired.spanning.exists_owner bound below
    exact ofNode_ne_empty wired plain child
  by_cases top : p = t.root
  · by_cases top' : q = t.root
    · subst top top'
      rw [ofNode_top wired left, ofNode_top wired right, segment_eq_iff named.1 named'.1]
      simp
    · subst top
      have differ := (owned (Tree.lt_size_of_mem_children right) top').symm
      rw [ofNode_root wired]
      simp [apart left right top', differ]
  · by_cases top' : q = t.root
    · subst top'
      have differ := owned (Tree.lt_size_of_mem_children left) top
      rw [ofNode_root wired]
      simp [(apart right left top).symm, differ]
    · exact ofNode_eq_iff_of_separable wired left right top top' named named'

end Lineages

/-- In a finished tree of plain names the keys tell all nodes from each other if and only if the names of the
children of each owner differ in more than the case of the first letter. -/
theorem keys_distinct_iff {nodes : Array Node} {root : NodeId} {t : Tree}
    (finished : Tree.finish nodes root = .ok t) (plain : PlainNames t) :
    (∀ a b, a < t.size → b < t.size → ofNode t a = ofNode t b → a = b) ↔
      ∀ owner a b, a ∈ t.children owner → b ∈ t.children owner →
        lowered (t.name a) = lowered (t.name b) → a = b := by
  have wired := Tree.wired_of_finish finished
  constructor
  · intro distinct owner a b left right alike
    refine distinct a b (wired.spanning.child_lt left) (wired.spanning.child_lt right) ?_
    exact (ofNode_child_eq_iff wired plain left right).mpr ⟨rfl, alike⟩
  · intro siblings a b bound bound' same
    have reached := wired.spanning.connected a bound
    -- Down the way from the root to the first node, the second one goes along.
    induction reached generalizing b with
    | root =>
      by_contra below
      obtain ⟨q, right⟩ := wired.spanning.exists_owner bound' (Ne.symm below)
      rw [ofNode_root wired] at same
      exact ofNode_ne_empty wired plain right same.symm
    | @child p a above left ih =>
      have below : b ≠ t.root := by
        rintro rfl
        rw [ofNode_root wired] at same
        exact ofNode_ne_empty wired plain left same
      obtain ⟨q, right⟩ := wired.spanning.exists_owner bound' below
      obtain ⟨owners, alike⟩ := (ofNode_child_eq_iff wired plain left right).mp same
      have owner : p = q :=
        ih q (Tree.lt_size_of_mem_children left) (Tree.lt_size_of_mem_children right) owners
      subst owner
      exact siblings p a b left right alike

/-- A namespace with members that are told apart by capitals inside their names, beside a variable. -/
private def innerCapitals : Tree :=
  ⟨#[⟨"isHTML", none, .var (.basic .any) true, some 3⟩, ⟨"isHtml", none, .var (.basic .any) true, some 3⟩,
    ⟨"is_html", none, .var (.basic .any) true, some 3⟩, ⟨"Space", none, .namespaceDecl [0, 1, 2], some 5⟩,
    ⟨"$isHTML", none, .var (.basic .any) true, some 5⟩, ⟨"", none, .root [3, 4], none⟩], 5⟩

theorem keys_distinct_iff_innerCapitals :
    Tree.finish innerCapitals.nodes 5 = .ok innerCapitals ∧ PlainNames innerCapitals ∧
      (∀ owner a b, a ∈ innerCapitals.children owner → b ∈ innerCapitals.children owner →
        lowered (innerCapitals.name a) = lowered (innerCapitals.name b) → a = b) ∧
      ofNode innerCapitals 0 = "space.is-h-t-m-l" ∧
      ∀ a b, a < 6 → b < 6 → ofNode innerCapitals a = ofNode innerCapitals b → a = b := by
  have finished : Tree.finish innerCapitals.nodes 5 = .ok innerCapitals := rfl
  have plain : PlainNames innerCapitals := by
    unfold PlainNames
    decide
  have siblings : ∀ owner a b, a ∈ innerCapitals.children owner → b ∈ innerCapitals.children owner →
      lowered (innerCapitals.name a) = lowered (innerCapitals.name b) → a = b := by
    have checked : ∀ owner < innerCapitals.size, ∀ a ∈ innerCapitals.children owner,
        ∀ b ∈ innerCapitals.children owner,
        lowered (innerCapitals.name a) = lowered (innerCapitals.name b) → a = b := by
      decide
    intro owner a b left right
    exact checked owner (Tree.lt_size_of_mem_children left) a left b right
  exact ⟨finished, plain, siblings, by decide +kernel, (keys_distinct_iff finished plain).mpr siblings⟩

/-- Two variables whose names differ in the case of the first letter. -/
private def capitalTwins : Tree :=
  ⟨#[⟨"Foo", none, .var (.basic .any) true, some 2⟩, ⟨"foo", none, .var (.basic .any) true, some 2⟩,
    ⟨"", none, .root [0, 1], none⟩], 2⟩

/-- Names that differ are not enough for keys that differ. -/
theorem same_key_of_capitalTwins :
    Tree.finish capitalTwins.nodes 2 = .ok capitalTwins ∧ PlainNames capitalTwins ∧
      (∀ owner a b, a ∈ capitalTwins.children owner → b ∈ capitalTwins.children owner →
        capitalTwins.name a = capitalTwins.name b → a = b) ∧
      ofNode capitalTwins 0 = "foo" ∧ ofNode capitalTwins 1 = "foo" := by
  have plain : PlainNames capitalTwins := by
    unfold PlainNames
    decide
  have checked : ∀ owner < capitalTwins.size, ∀ a ∈ capitalTwins.children owner,
      ∀ b ∈ capitalTwins.children owner, capitalTwins.name a = capitalTwins.name b → a = b := by
    decide
  refine ⟨rfl, plain, ?_, by decide +kernel, by decide +kernel⟩
  intro owner a b left right
  exact checked owner (Tree.lt_size_of_mem_children left) a left b right

end DocLocale.Key
