import DocLocale.Decl.Node
import DocLocale.Proofs.Doc.FlagScan

/-!
Tags that comments show, taken in again. A comment shows a tag once per record of its flag; taking the
shown tags in gives the flags back, less those that give no records on the node.
-/

set_option autoImplicit false
set_option relaxedAutoImplicit false

namespace DocLocale.Doc

/-- Whether a flag can give records on nodes of a kind. -/
def takes (kind : Kind) (name : String) : Bool :=
  kind.isFunctionLike || (name ≠ "params" && name ≠ "returns")

/-- The tags that the comment of a node shows for one of its flags, where `several` says whether the node
has more than one text. -/
def shownTags (n : Node) (languages : List String) (several : Bool) (name : String) : List String :=
  match Tag.ofName? name with
  | some .deprecated => ["deprecated"]
  | some .text => if several then ["text"] else []
  | some .sample => languages.map fun _ => "example"
  | some .params =>
    match n.body.signature? with
    | none => []
    | some s => s.parameters.map fun _ => "param"
  | some .returns => if n.kind.isFunctionLike then ["returns"] else []
  | none => [name]

theorem signature?_isSome (n : Node) : n.body.signature?.isSome = n.kind.isFunctionLike := by
  unfold Node.kind
  cases n.body <;> rfl

/-- Every tag shown for a flag stands for it. -/
theorem canonicalName_of_mem_shownTags {n : Node} {languages : List String} {several : Bool}
    {name word : String} (canonical : canonicalName name = name)
    (shown : word ∈ shownTags n languages several name) : canonicalName word = name := by
  unfold shownTags at shown
  split at shown
  all_goals rename_i found
  · rw [← Tag.ofName?_eq_some_iff.mp found, List.mem_singleton.mp shown]
    rfl
  · split at shown
    · rw [← Tag.ofName?_eq_some_iff.mp found, List.mem_singleton.mp shown]
      rfl
    · cases shown
  · obtain ⟨_, -, rfl⟩ := List.mem_map.mp shown
    rw [← Tag.ofName?_eq_some_iff.mp found]
    rfl
  · split at shown
    · cases shown
    · obtain ⟨_, -, rfl⟩ := List.mem_map.mp shown
      rw [← Tag.ofName?_eq_some_iff.mp found]
      rfl
  · split at shown
    · rw [← Tag.ofName?_eq_some_iff.mp found, List.mem_singleton.mp shown]
      rfl
    · cases shown
  · rw [List.mem_singleton.mp shown, canonical]

theorem params_mem_defaultFlags {kind : Kind} (functionLike : kind.isFunctionLike = true) :
    "params" ∈ defaultFlags kind := by
  cases kind with
  | function | method | constructor => decide
  | var | param | classDecl | property | enum | namespaceDecl | interface | typeAlias | sourceFile
  | root | typeParameter => cases functionLike

/-- A flag that is no default shows a tag exactly if the kind takes it. -/
theorem shownTags_eq_nil_iff {n : Node} {languages : List String} (spoken : languages ≠ [])
    {several : Bool} {name : String} (single : name ≠ "text") (extra : name ∉ defaultFlags n.kind) :
    shownTags n languages several name = [] ↔ takes n.kind name = false := by
  have special : ∀ tag, Tag.ofName? name = some tag → tag.name = name :=
    fun tag found => Tag.ofName?_eq_some_iff.mp found
  unfold shownTags takes
  split
  all_goals rename_i found
  · rw [← special _ found]
    simp [Tag.name]
  · exact absurd (special _ found).symm single
  · rw [← special _ found]
    simp [Tag.name, spoken]
  · have plain : n.kind.isFunctionLike = false := by
      rw [← special _ found] at extra
      exact Bool.eq_false_iff.mpr fun functionLike => extra (params_mem_defaultFlags functionLike)
    have none : n.body.signature? = none := by
      simpa [plain] using signature?_isSome n
    rw [← special _ found]
    simp [none, plain, Tag.name]
  · rw [← special _ found]
    by_cases functionLike : n.kind.isFunctionLike = true
    · simp [functionLike]
    · simp [functionLike, Tag.name]
  · have params : name ≠ "params" := by
      rintro rfl
      cases found
    have returns : name ≠ "returns" := by
      rintro rfl
      cases found
    simp [params, returns]

section Absorbing

variable {defaults : List String} {g : Gathered}

/-- Tags of one flag that is kept once are taken in as a single one. -/
private theorem foldl_absorb_of_single (defaults : List String) (g : Gathered) {name : String}
    (single : name ≠ "text") {words : List String} (same : ∀ word ∈ words, canonicalName word = name) :
    (words.foldl (absorb defaults) g).1 = (if words = [] then g.1 else Flags.push g.1 name) ∧
      (words.foldl (absorb defaults) g).2.count "text" = g.2.count "text" := by
  induction words generalizing g with
  | nil => simp
  | cons word words ih =>
    have once : isRepeatable name = false :=
      Bool.eq_false_iff.mpr fun repeatable => single (isRepeatable_iff.mp repeatable)
    have first : absorb defaults g word = (Flags.push g.1 name, name :: g.2) := by
      simp [absorb, same word List.mem_cons_self, once]
    have again : Flags.push (Flags.push g.1 name) name = Flags.push g.1 name := by
      by_cases present : name ∈ g.1
      · simp [Flags.push, once, present]
      · simp [Flags.push, once, present]
    obtain ⟨names, count⟩ := ih (absorb defaults g word)
      fun other member => same other (List.mem_cons_of_mem _ member)
    rw [List.foldl_cons]
    refine ⟨?_, ?_⟩
    · rw [names, first]
      by_cases last : words = []
      · simp [last]
      · simp [last, again]
    · rw [count, first]
      simp [single]

private theorem absorb_text (first : g.2.count "text" < defaults.count "text") :
    absorb defaults g "text" = (g.1, "text" :: g.2) := by
  have repeatable : isRepeatable "text" = true := rfl
  have canonical : canonicalName "text" = "text" := rfl
  simp [absorb, canonical, repeatable, first]

private theorem absorb_further_text (later : defaults.count "text" ≤ g.2.count "text") :
    absorb defaults g "text" = (g.1 ++ ["text"], "text" :: g.2) := by
  have repeatable : isRepeatable "text" = true := rfl
  have canonical : canonicalName "text" = "text" := rfl
  simp [absorb, canonical, repeatable, Flags.push, Nat.not_lt.mpr later]

end Absorbing

section Rescan

variable (n : Node) (languages : List String) (several : Bool)

/-- What has been gathered once the tags shown for some flags are taken in again. -/
private def regather (g : Gathered) (flags : List String) : Gathered :=
  (flags.flatMap (shownTags n languages several)).foldl (absorb (defaultFlags n.kind)) g

private theorem regather_append (g : Gathered) (before after : List String) :
    regather n languages several g (before ++ after) =
      regather n languages several (regather n languages several g before) after := by
  simp [regather, List.foldl_append]

private theorem regather_cons (g : Gathered) (name : String) (flags : List String) :
    regather n languages several g (name :: flags) =
      regather n languages several (regather n languages several g [name]) flags :=
  regather_append n languages several g [name] flags

private theorem regather_single (g : Gathered) {name : String} (single : name ≠ "text")
    (canonical : canonicalName name = name) :
    (regather n languages several g [name]).1 =
        (if shownTags n languages several name = [] then g.1 else Flags.push g.1 name) ∧
      (regather n languages several g [name]).2.count "text" = g.2.count "text" := by
  have same : ∀ word ∈ shownTags n languages several name, canonicalName word = name :=
    fun word => canonicalName_of_mem_shownTags canonical
  simpa [regather] using foldl_absorb_of_single (defaultFlags n.kind) g single same

private theorem regather_text (g : Gathered) :
    regather n languages several g ["text"] =
      if several then absorb (defaultFlags n.kind) g "text" else g := by
  have shown : shownTags n languages several "text" = if several then ["text"] else [] := rfl
  cases several <;> simp [regather, shown]

/-- Flags that are already gathered stay as they are. -/
private theorem regather_present {g : Gathered} {flags : List String}
    (present : ∀ name ∈ flags, name ∈ g.1 ∧ name ≠ "text" ∧ canonicalName name = name) :
    (regather n languages several g flags).1 = g.1 ∧
      (regather n languages several g flags).2.count "text" = g.2.count "text" := by
  induction flags generalizing g with
  | nil => simp [regather]
  | cons name flags ih =>
    obtain ⟨old, single, canonical⟩ := present name List.mem_cons_self
    obtain ⟨names, count⟩ := regather_single n languages several g single canonical
    have kept : (regather n languages several g [name]).1 = g.1 := by
      have once : isRepeatable name = false :=
        Bool.eq_false_iff.mpr fun repeatable => single (isRepeatable_iff.mp repeatable)
      simp [names, Flags.push, once, old]
    rw [regather_cons]
    rw [← kept, ← count]
    apply ih
    intro other member
    rw [kept]
    exact present other (List.mem_cons_of_mem _ member)

private theorem regather_defaults :
    (regather n languages several (defaultFlags n.kind, []) (defaultFlags n.kind)).1 =
        defaultFlags n.kind ∧
      (regather n languages several (defaultFlags n.kind, []) (defaultFlags n.kind)).2.count "text" =
        if several then 1 else 0 := by
  obtain ⟨rest, split, plain⟩ : ∃ rest, defaultFlags n.kind = "text" :: rest ∧
      ∀ name ∈ rest, name ≠ "text" ∧ canonicalName name = name := by
    cases n.kind <;> exact ⟨_, rfl, by decide⟩
  have first : regather n languages several (defaultFlags n.kind, []) ["text"] =
      (defaultFlags n.kind, if several then ["text"] else []) := by
    rw [regather_text]
    cases several
    · rfl
    · exact absorb_text (by simp [count_text_defaultFlags])
  have present : ∀ name ∈ rest, name ∈ defaultFlags n.kind ∧ name ≠ "text" ∧
      canonicalName name = name :=
    fun name member => ⟨by simp [split, member], plain name member⟩
  obtain ⟨names, texts⟩ := regather_present n languages several
    (g := (defaultFlags n.kind, if several then ["text"] else [])) present
  have whole : regather n languages several (defaultFlags n.kind, []) (defaultFlags n.kind) =
      regather n languages several (defaultFlags n.kind, if several then ["text"] else []) rest := by
    conv_lhs => arg 5; rw [split]
    rw [regather_cons, first]
  rw [whole]
  refine ⟨names, ?_⟩
  rw [texts]
  cases several <;> rfl

/-- Names behind the defaults are gathered in order, as far as the kind takes them. -/
private theorem regather_extras (spoken : languages ≠ []) {past extras : List String} {g : Gathered}
    (regular : Regular (defaultFlags n.kind ++ past ++ extras))
    (repeats : several = true ↔ 1 < (defaultFlags n.kind ++ past ++ extras).count "text")
    (names : g.1 = defaultFlags n.kind ++ past.filter (takes n.kind))
    (met : several = true → 1 ≤ g.2.count "text") :
    (regather n languages several g extras).1 =
      defaultFlags n.kind ++ (past ++ extras).filter (takes n.kind) := by
  -- `past` holds the names already taken in; what is gathered is their part that the kind takes.
  induction extras generalizing past g with
  | nil => simp [regather, names]
  | cons name extras ih =>
    have shape : defaultFlags n.kind ++ past ++ name :: extras =
        defaultFlags n.kind ++ (past ++ [name]) ++ extras := by simp
    have regular' := shape ▸ regular
    have repeats' := shape ▸ repeats
    have goal : (past ++ name :: extras).filter (takes n.kind) =
        ((past ++ [name]) ++ extras).filter (takes n.kind) := by simp
    rw [regather_cons, goal]
    by_cases text : name = "text"
    · subst text
      have more : several = true := by
        rw [repeats]
        simp only [List.count_append, count_text_defaultFlags, List.count_cons_self]
        omega
      have step : regather n languages several g ["text"] = (g.1 ++ ["text"], "text" :: g.2) := by
        rw [regather_text, if_pos more]
        exact absorb_further_text (by rw [count_text_defaultFlags]; exact met more)
      have taken : takes n.kind "text" = true := by simp [takes]
      rw [step]
      apply ih regular' repeats'
      · simp [names, taken]
      · intro _
        simp
    · have new : name ∉ defaultFlags n.kind ++ past := by
        intro old
        have nodup := regular.nodup
        rw [List.filter_append, List.nodup_append'] at nodup
        exact nodup.2.2 (List.mem_filter.mpr ⟨old, by simpa using text⟩) (by simp [text])
      obtain ⟨fresh, unseen⟩ := not_or.mp (mt List.mem_append.mpr new)
      have canonical := (regular.canonical name (by simp)).1
      obtain ⟨gathered, texts⟩ := regather_single n languages several g text canonical
      apply ih regular' repeats'
      · rw [gathered, names]
        by_cases taken : takes n.kind name = true
        · have shown : shownTags n languages several name ≠ [] := by
            rw [Ne, shownTags_eq_nil_iff spoken text fresh, taken]
            simp
          have absent : name ∉ defaultFlags n.kind ++ past.filter (takes n.kind) := by
            simp [fresh, unseen]
          simp [shown, Flags.push, absent, taken]
        · have hidden : shownTags n languages several name = [] :=
            (shownTags_eq_nil_iff spoken text fresh).mpr (by simpa using taken)
          simp [hidden, taken]
      · intro more
        rw [texts]
        exact met more

/-- The tags that a comment shows give its flags back, less those that give no records on the node. -/
theorem buildFlags_shownTags (spoken : languages ≠ []) {extras : List String}
    (regular : Regular (defaultFlags n.kind ++ extras)) :
    (buildFlags n.kind ((defaultFlags n.kind ++ extras).flatMap
        (shownTags n languages (1 < (defaultFlags n.kind ++ extras).count "text")))).flags =
      ⟨true, (defaultFlags n.kind ++ extras).filter (takes n.kind)⟩ := by
  generalize several_eq : decide (1 < (defaultFlags n.kind ++ extras).count "text") = several
  have enabling : ¬ ∃ word ∈ (defaultFlags n.kind ++ extras).flatMap (shownTags n languages several),
      canonicalName word = disableTag := by
    rintro ⟨word, member, disabling⟩
    obtain ⟨name, flag, shown⟩ := List.mem_flatMap.mp member
    obtain ⟨canonical, enabled⟩ := regular.canonical name flag
    exact enabled ((canonicalName_of_mem_shownTags canonical shown).symm.trans disabling)
  rw [buildFlags_flags, if_neg enabling]
  obtain ⟨names, texts⟩ := regather_defaults n languages several
  have defaults : (defaultFlags n.kind).filter (takes n.kind) = defaultFlags n.kind := by
    cases n.kind <;> decide
  have start : Regular (defaultFlags n.kind ++ [] ++ extras) := by simpa using regular
  have gathered := regather_extras n languages several spoken start (by simp [← several_eq])
    (by simpa using names) (fun more => Nat.le_of_eq (by rw [texts, if_pos more]))
  rw [← regather_append] at gathered
  simpa [regather, defaults] using gathered

end Rescan

end DocLocale.Doc
