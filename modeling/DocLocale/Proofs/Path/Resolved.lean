import DocLocale.Path
import DocLocale.Proofs.Text.Splitting
import Mathlib.Data.List.Basic

/-!
Resolved paths. Resolving dots and steps up of an absolute path leaves names down from the root, or down from one
step up that the root does not take. Such a path is determined by its components, its directory is the path
without the last name, and the order of paths is strict on it.
-/

set_option autoImplicit false
set_option relaxedAutoImplicit false

namespace DocLocale.Path

/-- A name that leads from a directory to something in it. -/
structure IsName (name : String) : Prop where
  solid : '/' ∉ name.toList
  proper : name ∉ ["", ".", ".."]

theorem IsName.toList_ne {name : String} (named : IsName name) :
    name.toList ≠ [] ∧ name.toList ≠ ['.'] ∧ name.toList ≠ ['.', '.'] := by
  have proper := named.proper
  simp only [List.mem_cons, List.not_mem_nil, or_false, not_or, ← String.toList_inj] at proper
  exact proper

theorem IsName.partComponent? {name : String} (named : IsName name) :
    partComponent? name.toList = some (.normal name) := by
  obtain ⟨empty, dot, dots⟩ := named.toList_ne
  simp [Path.partComponent?, empty, dot, dots]

/-- What a part between slashes may stand for. -/
theorem partComponent?_eq_some {part : List Char} {c : Component} (solid : '/' ∉ part)
    (found : partComponent? part = some c) : c = .parent ∨ ∃ name, IsName name ∧ c = .normal name := by
  rw [partComponent?] at found
  split at found
  · cases found
  · rename_i kept
    split at found
    · cases found
      exact .inl rfl
    · rename_i other
      cases found
      refine .inr ⟨String.ofList part, ⟨by simpa using solid, ?_⟩, rfl⟩
      simp only [Bool.or_eq_true, decide_eq_true_eq, not_or] at kept
      simp only [List.mem_cons, List.not_mem_nil, or_false, not_or, ← String.toList_inj, String.toList_ofList]
      exact ⟨kept.1, kept.2, other⟩

/-- What resolving keeps of an absolute path, the last component first. -/
inductive Kept : List Component → Prop
  | root : Kept [.root]
  | above : Kept [.parent, .root]
  | down {kept : List Component} {name : String} : Kept kept → IsName name → Kept (.normal name :: kept)

theorem Kept.resolveStep {kept : List Component} {c : Component} (before : Kept kept)
    (leads : c = .parent ∨ ∃ name, IsName name ∧ c = .normal name) : Kept (resolveStep kept c) := by
  rcases leads with rfl | ⟨name, named, rfl⟩
  · cases before with
    | root => exact .above
    | above => exact .root
    | down directory named => exact directory
  · exact .down before named

/-- Names lead further down from what is kept. -/
theorem Kept.names {kept : List Component} (whole : Kept kept) {names : List String}
    (named : ∀ name ∈ names, IsName name) : Kept ((names.map .normal).reverse ++ kept) := by
  induction names generalizing kept with
  | nil => exact whole
  | cons name names ih =>
    simp only [List.mem_cons, forall_eq_or_imp] at named
    simpa using ih (whole.down named.1) named.2

/-- A path that resolving leaves as it is. -/
def Resolved (path : String) : Prop := ∃ kept, Kept kept ∧ path = ofComponents kept.reverse

theorem components_of_isAbsolute {path : String} (absolute : isAbsolute path = true) :
    components path = .root :: (Text.splitAt '/' path.toList).filterMap partComponent? := by
  rw [components, if_pos absolute]
  rfl

/-- The components of an absolute path behind its root. -/
theorem exists_under_root {path : String} (absolute : isAbsolute path = true) :
    ∃ cs, components path = .root :: cs ∧ ∀ c ∈ cs, c = .parent ∨ ∃ name, IsName name ∧ c = .normal name := by
  obtain ⟨first, rest, split, -, -, solid⟩ := Text.exists_parts '/' path.toList
  refine ⟨_, components_of_isAbsolute absolute, ?_⟩
  intro c member
  obtain ⟨part, among, found⟩ := List.mem_filterMap.mp member
  exact partComponent?_eq_some (solid part (split ▸ among)) found

theorem resolved_normalize {path : String} (absolute : isAbsolute path = true) : Resolved (normalize path) := by
  obtain ⟨cs, whole, leads⟩ := exists_under_root absolute
  refine ⟨_, ?_, rfl⟩
  rw [whole, List.foldl_cons]
  refine List.foldlRecOn _ _ Kept.root ?_
  intro kept before c member
  exact before.resolveStep (leads c member)

/-- Under the root a component is written as a slash and its text. -/
theorem toList_ofComponents {cs : List Component} (some : cs ≠ []) :
    (ofComponents (.root :: cs)).toList = cs.flatMap ('/' :: ·.text.toList) := by
  rw [ofComponents, String.toList_append]
  induction cs with
  | nil => cases some rfl
  | cons c cs ih =>
    by_cases last : cs = []
    · subst last
      simp
    · rw [List.map_cons, String.intercalate_cons_of_ne_nil (by simpa using last), List.flatMap_cons, ← ih last]
      simp

/-- The components under the root are written as parts that stand for them. -/
theorem Kept.exists_under {kept : List Component} (whole : Kept kept) :
    ∃ cs, kept.reverse = .root :: cs ∧
      ∀ c ∈ cs, '/' ∉ c.text.toList ∧ partComponent? c.text.toList = some c := by
  induction whole with
  | root => exact ⟨[], rfl, by simp⟩
  | above => exact ⟨[.parent], rfl, by decide⟩
  | @down kept name whole named ih =>
    obtain ⟨cs, under, written⟩ := ih
    refine ⟨cs ++ [.normal name], by rw [List.reverse_cons, under, List.cons_append], ?_⟩
    intro c member
    rcases List.mem_append.mp member with earlier | last
    · exact written c earlier
    · obtain rfl := List.mem_singleton.mp last
      exact ⟨named.solid, named.partComponent?⟩

theorem isAbsolute_ofComponents (cs : List Component) : isAbsolute (ofComponents (.root :: cs)) = true := by
  simp [isAbsolute, ofComponents, String.toList_append]

/-- The parts between the slashes of a path under the root; behind the slash of the root alone there is nothing. -/
theorem splitAt_ofComponents {cs : List Component} (solid : ∀ c ∈ cs, '/' ∉ c.text.toList) :
    Text.splitAt '/' (ofComponents (.root :: cs)).toList =
      [] :: if cs = [] then [[]] else cs.map (·.text.toList) := by
  by_cases none : cs = []
  · subst none
    rfl
  · have parts : cs.flatMap ('/' :: ·.text.toList) = (cs.map (·.text.toList)).flatMap ('/' :: ·) := by
      rw [List.flatMap_map]
    have absent : ∀ part ∈ cs.map (·.text.toList), '/' ∉ part := by
      simpa using solid
    rw [toList_ofComponents none, parts, Text.splitAt_flatMap_cons absent, if_neg none]

theorem components_ofComponents {kept : List Component} (whole : Kept kept) :
    components (ofComponents kept.reverse) = kept.reverse := by
  obtain ⟨cs, under, written⟩ := whole.exists_under
  rw [under, components_of_isAbsolute (isAbsolute_ofComponents cs),
    splitAt_ofComponents fun c member => (written c member).1]
  congr 1
  by_cases none : cs = []
  · subst none
    rfl
  · have each : cs.filterMap (partComponent? ∘ (·.text.toList)) = cs.filterMap some :=
      List.filterMap_congr fun c member => (written c member).2
    rw [if_neg none, List.filterMap_cons_none rfl, List.filterMap_map, each, List.filterMap_some]

theorem components_path {names : List String} (named : ∀ name ∈ names, IsName name) :
    components (ofComponents (.root :: names.map .normal)) = .root :: names.map .normal := by
  have read := components_ofComponents (Kept.root.names named)
  simpa using read

theorem Resolved.isAbsolute {path : String} (resolved : Resolved path) : isAbsolute path = true := by
  obtain ⟨kept, whole, rfl⟩ := resolved
  obtain ⟨cs, under, -⟩ := whole.exists_under
  rw [under]
  exact isAbsolute_ofComponents cs

theorem isAbsolute_join {base : String} (absolute : isAbsolute base = true) (path : String) :
    isAbsolute (join base path) = true := by
  obtain ⟨rest, front⟩ := List.head?_eq_some_iff.mp (of_decide_eq_true absolute)
  rw [join]
  split
  · rename_i replaced
    have nonempty : base.isEmpty = false := by
      rw [← Bool.not_eq_true, String.isEmpty_iff, ← String.toList_eq_nil_iff, front]
      simp
    simpa [nonempty] using replaced
  · split
    · simp [isAbsolute, String.toList_append, front]
    · simp [isAbsolute, String.toList_append, front]

theorem ofComponents_components {path : String} (resolved : Resolved path) :
    ofComponents (components path) = path := by
  obtain ⟨kept, whole, rfl⟩ := resolved
  rw [components_ofComponents whole]

section Directory

/-- A reversed part that is neither empty nor a dot. -/
private structure Named (part : List Char) : Prop where
  proper : part ≠ [] ∧ part ≠ ['.']
  solid : '/' ∉ part

private theorem named_reverse {part : List Char} {c : Component} (solid : '/' ∉ part)
    (stands : partComponent? part = some c) : Named part.reverse := by
  refine ⟨⟨?_, ?_⟩, by simpa using solid⟩
  · intro same
    rw [List.reverse_eq_nil_iff.mp same] at stands
    cases stands
  · intro same
    rw [List.reverse_eq_iff.mp same] at stands
    cases stands

variable {part next : List Char}

private theorem dropWhile_named (named : Named part) (rest : List Char) :
    (part ++ '/' :: rest).dropWhile (· = '/') = part ++ '/' :: rest := by
  obtain ⟨c, more, rfl⟩ := List.exists_cons_of_ne_nil named.proper.1
  have other : c ≠ '/' := fun same => named.solid (same ▸ List.mem_cons_self)
  simp [other]

private theorem dropDots_named (named : Named part) (rest : List Char) (fuel : Nat) :
    parent?.dropDots fuel (part ++ '/' :: rest) = part ++ '/' :: rest := by
  obtain ⟨⟨nonempty, proper⟩, solid⟩ := named
  obtain ⟨c, more, rfl⟩ := List.exists_cons_of_ne_nil nonempty
  simp only [List.mem_cons, not_or] at solid
  have slash : ∀ text, c :: more ++ '/' :: rest = '/' :: text → False := by
    intro text starts
    exact solid.1 (List.cons.inj starts).1.symm
  have dot : ∀ text, c :: more ++ '/' :: rest = '.' :: '/' :: text → False := by
    intro text starts
    obtain ⟨rfl, behind⟩ := List.cons.inj starts
    cases more with
    | nil => exact proper rfl
    | cons next more => exact solid.2 ((List.cons.inj behind).1 ▸ List.mem_cons_self)
  cases fuel with
  | zero => rfl
  | succ fuel =>
    rw [parent?.dropDots]
    · exact slash
    · exact dot

private theorem dropWhile_until_slash (named : Named part) (rest : List Char) :
    (part ++ '/' :: rest).dropWhile (· ≠ '/') = '/' :: rest := by
  rw [List.dropWhile_append_of_pos]
  · simp
  · intro c member
    simpa using fun same : c = '/' => named.solid (same ▸ member)

private theorem dropTrailing_root (named : Named part) : parent?.dropTrailing (part ++ ['/']) = ['/'] := by
  rw [parent?.dropTrailing, dropDots_named named, dropWhile_until_slash named]
  rfl

private theorem dropTrailing_named (last : Named part) (front : Named next) (rest : List Char) :
    parent?.dropTrailing (part ++ '/' :: (next ++ '/' :: rest)) = next ++ '/' :: rest := by
  have slash : ('/' :: (next ++ '/' :: rest)).dropWhile (· = '/') = next ++ '/' :: rest := by
    simpa using dropWhile_named front rest
  have more : (next ++ '/' :: rest).isEmpty = false := by simp
  rw [parent?.dropTrailing, dropDots_named last, dropWhile_until_slash last]
  simp only [slash]
  split
  · rename_i none
    simp at none
  · rw [parent?.dropDots, more, if_neg Bool.false_ne_true, dropDots_named front]

/-- The directory of a resolved path is the path without its last name. -/
theorem parent?_ofComponents {kept : List Component} {name : String} (whole : Kept kept) (named : IsName name) :
    parent? (ofComponents (.normal name :: kept).reverse) = some (ofComponents kept.reverse) := by
  have last := named_reverse named.solid named.partComponent?
  rw [parent?, components_ofComponents (whole.down named), List.reverse_reverse]
  obtain ⟨cs, under, written⟩ := whole.exists_under
  have path : (ofComponents (.normal name :: kept).reverse).toList.reverse =
      name.toList.reverse ++ '/' :: (cs.flatMap ('/' :: ·.text.toList)).reverse := by
    rw [List.reverse_cons, under, List.cons_append, toList_ofComponents (by simp)]
    simp [Component.text]
  simp only [path, dropWhile_named last, under]
  rcases List.eq_nil_or_concat cs with rfl | ⟨earlier, c, rfl⟩
  · rw [List.flatMap_nil, List.reverse_nil, dropTrailing_root last]
    rfl
  · obtain ⟨solid, stands⟩ := written c (by simp)
    have front : ((earlier.concat c).flatMap ('/' :: ·.text.toList)).reverse =
        c.text.toList.reverse ++ '/' :: (earlier.flatMap ('/' :: ·.text.toList)).reverse := by
      simp
    rw [front, dropTrailing_named last (named_reverse solid stands), ← front, List.reverse_reverse,
      ← toList_ofComponents (by simp), String.ofList_toList]

end Directory

section Order

theorem Component.le_total (a b : Component) : a.le b || b.le a := by
  cases a <;> cases b <;> simp [Component.le, Component.rank, String.le_total]

theorem Component.le_trans {a b c : Component} (first : a.le b) (second : b.le c) : a.le c := by
  cases a <;> cases b <;> cases c <;> simp_all [Component.le, Component.rank]
  exact String.le_trans first second

theorem Component.le_antisymm {a b : Component} (first : a.le b) (second : b.le a) : a = b := by
  cases a <;> cases b <;> simp_all [Component.le, Component.rank]
  exact String.le_antisymm first second

theorem componentsLe_total (as bs : List Component) : componentsLe as bs || componentsLe bs as := by
  fun_induction componentsLe as bs with
  | case1 bs => rfl
  | case2 a as => rfl
  | case3 as a bs ih => simpa [componentsLe] using ih
  | case4 a as b bs other =>
    have total := Component.le_total a b
    simpa [componentsLe, Ne.symm other] using total

theorem componentsLe_trans {as bs cs : List Component} (first : componentsLe as bs) (second : componentsLe bs cs) :
    componentsLe as cs := by
  induction as generalizing bs cs with
  | nil => rfl
  | cons a as ih =>
    cases bs with
    | nil => cases first
    | cons b bs =>
      cases cs with
      | nil => cases second
      | cons c cs =>
        rw [componentsLe] at first second ⊢
        split at first
        · rename_i same
          subst same
          split at second
          · rename_i same
            subst same
            rw [if_pos rfl]
            exact ih first second
          · rename_i other
            rw [if_neg other]
            exact second
        · rename_i other
          split at second
          · rename_i same
            subst same
            rw [if_neg other]
            exact first
          · have different : a ≠ c := by
              rintro rfl
              exact other (Component.le_antisymm first second)
            rw [if_neg different]
            exact Component.le_trans first second

theorem componentsLe_antisymm {as bs : List Component} (first : componentsLe as bs) (second : componentsLe bs as) :
    as = bs := by
  fun_induction componentsLe as bs with
  | case1 bs =>
    cases bs with
    | nil => rfl
    | cons b bs => cases second
  | case2 a as => cases first
  | case3 as a bs ih =>
    rw [componentsLe, if_pos rfl] at second
    rw [ih first second]
  | case4 a as b bs other =>
    rw [componentsLe, if_neg (Ne.symm other)] at second
    exact absurd (Component.le_antisymm first second) other

theorem le_total (a b : String) : le a b || le b a := componentsLe_total (components a) (components b)

theorem le_trans {a b c : String} (first : le a b) (second : le b c) : le a c := componentsLe_trans first second

/-- Resolved paths with the same components are the same. -/
theorem le_antisymm {a b : String} (left : Resolved a) (right : Resolved b) (first : le a b) (second : le b a) :
    a = b := by
  have same := componentsLe_antisymm first second
  rw [← ofComponents_components left, same, ofComponents_components right]

/-- One path stands before another. -/
def Before (a b : String) : Prop := le a b = true ∧ le b a = false

instance : DecidableRel Before := fun a b => inferInstanceAs (Decidable (le a b = true ∧ le b a = false))

theorem mem_sort {path : String} {paths : List String} : path ∈ sort paths ↔ path ∈ paths := by
  rw [sort, List.mem_mergeSort]

/-- Sorting different resolved paths puts each before the next ones. -/
theorem pairwise_sort {paths : List String} (different : paths.Nodup) (resolved : ∀ path ∈ paths, Resolved path) :
    (sort paths).Pairwise Before := by
  have ordered : (sort paths).Pairwise fun a b => le a b = true := by
    apply List.pairwise_mergeSort
    · exact fun a b c => le_trans
    · exact fun a b => le_total a b
  have distinct : (sort paths).Nodup := (List.mergeSort_perm paths le).nodup_iff.mpr different
  refine (ordered.and distinct).imp_of_mem ?_
  rintro a b first second ⟨before, other⟩
  refine ⟨before, ?_⟩
  cases back : le b a with
  | false => rfl
  | true =>
    have left := resolved a (mem_sort.mp first)
    have right := resolved b (mem_sort.mp second)
    exact absurd (le_antisymm left right before back) other

/-- Lists of paths in order are determined by their members. -/
theorem eq_of_pairwise_before {as bs : List String} (first : as.Pairwise Before) (second : bs.Pairwise Before)
    (members : ∀ path, path ∈ as ↔ path ∈ bs) : as = bs := by
  have different : ∀ {a b}, Before a b → a ≠ b := by
    rintro a b ⟨before, back⟩ rfl
    rw [before] at back
    cases back
  have shuffled : as.Perm bs :=
    (List.perm_ext_iff_of_nodup (first.imp different) (second.imp different)).mpr members
  refine shuffled.eq_of_pairwise ?_ first second
  intro a b _ _ before after
  cases before.2.symm.trans after.1

end Order

end DocLocale.Path
