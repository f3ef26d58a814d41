import DocLocale.Proofs.Path.Resolved

/-!
Ways from one path to another. Between two paths that lead straight down, the way goes up through the names that only
the first one has and down through those that only the second one has. Main statement: a relative path put behind
the path it was seen from leads to its target, so different targets have different relative paths.
-/

set_option autoImplicit false
set_option relaxedAutoImplicit false

namespace DocLocale.Path

/-- What two lists have in front of what is left of them without their common front. -/
theorem exists_common (as bs : List Component) :
    ∃ common, as = common ++ (dropCommon as bs).1 ∧ bs = common ++ (dropCommon as bs).2 := by
  fun_induction dropCommon as bs with
  | case1 as a bs ih =>
    obtain ⟨common, left, right⟩ := ih
    exact ⟨a :: common, congrArg _ left, congrArg _ right⟩
  | case2 a as b bs other => exact ⟨[], rfl, rfl⟩
  | case3 as bs _ => exact ⟨[], rfl, rfl⟩

/-- An absolute path that leads straight down, without dots and steps up. -/
structure Straight (path : String) : Prop where
  absolute : isAbsolute path = true
  level : ∀ c ∈ components path, c ≠ .current ∧ c ≠ .parent

private theorem exists_eq_map_normal {cs : List Component} (leads : ∀ c ∈ cs, ∃ name, IsName name ∧ c = .normal name) :
    ∃ names : List String, (∀ name ∈ names, IsName name) ∧ cs = names.map .normal := by
  induction cs with
  | nil => exact ⟨[], nofun, rfl⟩
  | cons c cs ih =>
    obtain ⟨⟨name, named, rfl⟩, later⟩ := List.forall_mem_cons.mp leads
    obtain ⟨names, all, rfl⟩ := ih later
    exact ⟨name :: names, List.forall_mem_cons.mpr ⟨named, all⟩, rfl⟩

theorem Straight.exists_names {path : String} (straight : Straight path) :
    ∃ names : List String, (∀ name ∈ names, IsName name) ∧ components path = .root :: names.map .normal := by
  obtain ⟨cs, whole, leads⟩ := exists_under_root straight.absolute
  have down : ∀ c ∈ cs, ∃ name, IsName name ∧ c = .normal name := fun c member =>
    (leads c member).resolve_left (straight.level c (whole ▸ List.mem_cons_of_mem _ member)).2
  obtain ⟨names, named, rfl⟩ := exists_eq_map_normal down
  exact ⟨names, named, whole⟩

section Ways

/-- The way from one path to another: the names that they share, those that lead up from the first, and those that lead
down to the second. -/
structure Way (base target : String) (shared up down : List String) : Prop where
  named : ∀ name ∈ shared ++ up ++ down, IsName name
  start : components base = .root :: (shared ++ up).map .normal
  goal : components target = .root :: (shared ++ down).map .normal
  text : relative base target = "/".intercalate (up.map (fun _ => "..") ++ down)

theorem exists_way {base target : String} (first : Straight base) (second : Straight target) :
    ∃ shared up down, Way base target shared up down := by
  obtain ⟨names, named, whole⟩ := first.exists_names
  obtain ⟨names', named', whole'⟩ := second.exists_names
  obtain ⟨common, left, right⟩ := exists_common (names.map .normal) (names'.map .normal)
  obtain ⟨shared, up, rfl, rfl, rest⟩ := List.map_eq_append_iff.mp left
  obtain ⟨shared', down, rfl, same, rest'⟩ := List.map_eq_append_iff.mp right
  obtain rfl : shared' = shared := List.map_injective_iff.mpr (fun _ _ => Component.normal.inj) same
  have apart : dropCommon ((shared' ++ up).map .normal) ((shared' ++ down).map .normal) =
      (up.map .normal, down.map .normal) := Prod.ext rest.symm rest'.symm
  have texts : down.map (Component.text ∘ .normal) = down := List.map_id' down
  refine ⟨shared', up, down, ?_, whole, whole', ?_⟩
  · simp only [List.mem_append] at named named' ⊢
    grind
  · rw [Path.relative, whole, whole', dropCommon, if_pos rfl, apart]
    simp only [List.map_map, texts]
    rfl

/-- The parts of a relative path are solid. -/
theorem parts_solid {up down : List String} (named : ∀ name ∈ down, IsName name) :
    ∀ part ∈ up.map (fun _ => "..") ++ down, '/' ∉ part.toList ∧ part ≠ "" := by
  intro part member
  rcases List.mem_append.mp member with step | name
  · obtain ⟨-, -, rfl⟩ := List.mem_map.mp step
    decide
  · have proper := (named part name).proper
    exact ⟨(named part name).solid, by rintro rfl; simp at proper⟩

theorem splitAt_intercalate {parts : List String} (some : parts ≠ []) (solid : ∀ part ∈ parts, '/' ∉ part.toList) :
    Text.splitAt '/' ("/".intercalate parts).toList = parts.map String.toList := by
  induction parts with
  | nil => exact absurd rfl some
  | cons part parts ih =>
    obtain ⟨here, later⟩ := List.forall_mem_cons.mp solid
    by_cases last : parts = []
    · subst last
      simpa using Text.splitAt_of_not_mem here
    · rw [String.intercalate_cons_of_ne_nil last, String.toList_append, String.toList_append, List.append_assoc]
      exact (Text.splitAt_append_cons here _).trans (congrArg _ (ih last later))

theorem isAbsolute_intercalate {parts : List String} (solid : ∀ part ∈ parts, '/' ∉ part.toList ∧ part ≠ "") :
    isAbsolute ("/".intercalate parts) = false := by
  cases parts with
  | nil => decide
  | cons part parts =>
    obtain ⟨slashless, nonempty⟩ := solid part List.mem_cons_self
    obtain ⟨c, cs, front⟩ := List.exists_cons_of_ne_nil (mt String.toList_eq_nil_iff.mp nonempty)
    have other : c ≠ '/' := fun same => slashless (front ▸ same ▸ List.mem_cons_self)
    have starts : ("/".intercalate (part :: parts)).toList.head? = some c := by
      by_cases last : parts = []
      · simp [last, front]
      · rw [String.intercalate_cons_of_ne_nil last, String.toList_append, String.toList_append, front]
        rfl
    rw [isAbsolute, starts]
    simpa using other

/-- Behind an absolute path, the parts of a relative one lead on. -/
theorem components_join {base path : String} (absolute : isAbsolute base = true) (relative : isAbsolute path = false) :
    components (join base path) =
      components base ++ (Text.splitAt '/' path.toList).filterMap partComponent? := by
  have nonempty : base.isEmpty = false := by
    rw [← Bool.not_eq_true, String.isEmpty_iff]
    rintro rfl
    cases absolute
  have joined := isAbsolute_join absolute path
  rw [components_of_isAbsolute joined, components_of_isAbsolute absolute, List.cons_append, ← List.filterMap_append]
  rw [join, relative, nonempty, Bool.or_false, if_neg Bool.false_ne_true]
  split
  · rename_i slash
    obtain ⟨front, ends⟩ := List.getLast?_eq_some_iff.mp slash
    have none : (Text.splitAt '/' []).filterMap partComponent? = [] := rfl
    rw [String.toList_append, ends, List.append_assoc, List.singleton_append, Text.splitAt_append, Text.splitAt_append,
      List.filterMap_append, List.filterMap_append, List.filterMap_append, none, List.append_nil]
  · rw [String.toList_append, String.toList_append, List.append_assoc]
    exact congrArg _ (congrArg _ (Text.splitAt_append '/' base.toList path.toList))

/-- The components of a relative path: its steps up, then the names that lead down. -/
theorem filterMap_parts {up down : List String} (named : ∀ name ∈ down, IsName name) :
    (Text.splitAt '/' ("/".intercalate (up.map (fun _ => "..") ++ down)).toList).filterMap partComponent? =
      List.replicate up.length .parent ++ down.map .normal := by
  have step : partComponent? "..".toList = some .parent := by decide
  have steps : (up.map fun _ => "..").filterMap (partComponent? ∘ String.toList) =
      List.replicate up.length .parent := by
    rw [List.filterMap_map, ← List.map_const', ← List.filterMap_eq_map]
    simp only [Function.comp_def, step]
  have names : down.filterMap (partComponent? ∘ String.toList) = down.map .normal := by
    rw [← List.filterMap_eq_map]
    exact List.filterMap_congr fun name member => (named name member).partComponent?
  rw [← steps, ← names, ← List.filterMap_append]
  by_cases none : up.map (fun _ => "..") ++ down = []
  · rw [none]
    rfl
  · rw [splitAt_intercalate none fun part member => (parts_solid named part member).1, List.filterMap_map]

theorem Way.components_join {base target : String} {shared up down : List String} (way : Way base target shared up down)
    (absolute : isAbsolute base = true) :
    components (join base (relative base target)) =
      .root :: ((shared ++ up).map .normal ++ (List.replicate up.length .parent ++ down.map .normal)) := by
  have named : ∀ name ∈ down, IsName name := fun name member => way.named name (List.mem_append_right _ member)
  rw [way.text, Path.components_join absolute (isAbsolute_intercalate (parts_solid named)), way.start,
    filterMap_parts named, List.cons_append]

end Ways

section Resolving

theorem foldl_resolveStep_names (names : List String) (kept : List Component) :
    (names.map .normal).foldl resolveStep kept = (names.map .normal).reverse ++ kept := by
  induction names generalizing kept with
  | nil => rfl
  | cons name names ih =>
    rw [List.map_cons, List.foldl_cons, resolveStep, ih, List.reverse_cons, List.append_assoc, List.singleton_append]
    all_goals simp

/-- As many steps up as names take the names away again. -/
theorem foldl_resolveStep_parents (names : List String) (kept : List Component) :
    (List.replicate names.length .parent).foldl resolveStep ((names.map .normal).reverse ++ kept) = kept := by
  induction names using List.reverseRecOn with
  | nil => rfl
  | append_singleton names name ih =>
    rw [List.length_append, List.length_singleton, List.replicate_succ, List.foldl_cons]
    simpa [resolveStep] using ih

theorem Way.normalize_join {base target : String} {shared up down : List String} (way : Way base target shared up down)
    (absolute : isAbsolute base = true) :
    normalize (join base (relative base target)) = ofComponents (components target) := by
  rw [normalize, way.components_join absolute, resolve, List.foldl_cons, List.foldl_append, foldl_resolveStep_names,
    List.map_append, List.reverse_append, List.append_assoc, List.foldl_append, foldl_resolveStep_parents,
    foldl_resolveStep_names, way.goal]
  simp [resolveStep]

end Resolving

theorem Straight.components_ofComponents {path : String} (straight : Straight path) :
    components (ofComponents (components path)) = components path := by
  obtain ⟨names, named, whole⟩ := straight.exists_names
  rw [whole, components_path named]

theorem Straight.normalize {path : String} (straight : Straight path) :
    normalize path = ofComponents (components path) := by
  obtain ⟨names, -, whole⟩ := straight.exists_names
  rw [Path.normalize, whole, resolve, List.foldl_cons, foldl_resolveStep_names]
  simp [resolveStep]

/-- From a directory, the relative path to a target leads back to the target, up to how it is spelled. So no two targets
with different components are reached by the same relative path. -/
theorem normalize_join_relative {base target : String} (first : Straight base) (second : Straight target) :
    components (normalize (join base (relative base target))) = components target ∧
    normalize (join base (relative base target)) = normalize target ∧
    ∀ other, Straight other → (relative base target = relative base other ↔ components target = components other) := by
  have back : ∀ {goal}, Straight goal →
      normalize (join base (relative base goal)) = ofComponents (components goal) := by
    intro goal straight
    obtain ⟨shared, up, down, way⟩ := exists_way first straight
    exact way.normalize_join first.absolute
  refine ⟨?_, ?_, fun other third => ⟨fun same => ?_, fun same => ?_⟩⟩
  · rw [back second, second.components_ofComponents]
  · rw [back second, second.normalize]
  · rw [← second.components_ofComponents, ← back second, same, back third, third.components_ofComponents]
  · rw [relative, relative, same]

/-- The target is spelled with slashes to spare and lies beside the directory it is seen from. -/
theorem normalize_join_relative_beside :
    Straight "/p/types" ∧ Straight "/p//shared/a.d.ts/" ∧ Straight "/p/shared" ∧
    relative "/p/types" "/p//shared/a.d.ts/" = "../shared/a.d.ts" ∧
    normalize (join "/p/types" "../shared/a.d.ts") = "/p/shared/a.d.ts" ∧
    relative "/p/types" "/p//shared/a.d.ts/" ≠ relative "/p/types" "/p/shared" := by
  have base : Straight "/p/types" := ⟨by decide +kernel, by decide +kernel⟩
  have target : Straight "/p//shared/a.d.ts/" := ⟨by decide +kernel, by decide +kernel⟩
  have directory : Straight "/p/shared" := ⟨by decide +kernel, by decide +kernel⟩
  have text : relative "/p/types" "/p//shared/a.d.ts/" = "../shared/a.d.ts" := by decide +kernel
  obtain ⟨-, back, different⟩ := normalize_join_relative base target
  refine ⟨base, target, directory, text, ?_, ?_⟩
  · rw [← text, back]
    decide +kernel
  · rw [Ne, different _ directory]
    decide +kernel

end DocLocale.Path
