import DocLocale.Proofs.Doc.CommentRoundTrip
import DocLocale.Proofs.Doc.FlagOrder

/-!
What each flag of a node contributes. Texts are numbered in the order of the flags; any other flag that the kind
takes gives the records it would give alone, and one that it does not take gives a misplaced tag and nothing else.
Main statement: the records of a node are these contributions in the order of the flags.
-/

set_option autoImplicit false
set_option relaxedAutoImplicit false

namespace DocLocale.Doc

/-- The records of a flag other than a text: one for each parameter, one for each language, or one. -/
def ownRecords (t : Tree) (languages : List String) (n : Node) (key name : String) : List Record :=
  if name = "params" then
    (n.body.signature?.elim [] Signature.parameters).map fun p =>
      ⟨key ++ ".param." ++ t.name p, "@param " ++ t.name p⟩
  else if name = "example" then languages.map fun l => ⟨key ++ ".example." ++ l, "@example"⟩
  else [⟨key ++ "." ++ name, "@" ++ name⟩]

section Occurrences

variable {t : Tree} {languages : List String} {n : Node} {key : String}

/-- Only functions take the flags for parameters and results; every kind takes the others. -/
private theorem takes_eq (kind : Kind) (name : String) :
    takes kind name =
      match Tag.ofName? name with
      | some .params | some .returns => kind.isFunctionLike
      | _ => true := by
  cases found : Tag.ofName? name with
  | none =>
    have params : name ≠ "params" := by
      rintro rfl
      cases found
    have returns : name ≠ "returns" := by
      rintro rfl
      cases found
    simp [takes, params, returns]
  | some tag =>
    obtain rfl : tag.name = name := Tag.ofName?_eq_some_iff.mp found
    cases tag <;> simp [takes, Tag.name]

/-- Whether the kind of the node takes the flag. -/
def Occurrence.isTaken (o : Occurrence) : Bool := takes o.node.kind o.name

/-- A flag that the kind takes gives its records, any other a misplaced tag. -/
theorem Occurrence.records_eq (t : Tree) (languages : List String) (o : Occurrence) :
    o.records t languages =
      if o.isTaken then .ok (o.given t languages)
      else .error ⟨o.name, o.node.name, o.node.kind, o.key⟩ := by
  rw [isTaken, takes_eq, given]
  cases found : Tag.ofName? o.name with
  | none => simp [records, found]
  | some tag =>
    cases tag with
    | deprecated | text | sample => simp [records, found]
    | params =>
      have functionLike := signature?_isSome o.node
      cases signature : o.node.body.signature? with
      | none => simp [records, found, signature, ← functionLike]
      | some s => simp [records, found, signature, ← functionLike]
    | returns =>
      by_cases functionLike : o.node.kind.isFunctionLike = true
      · simp [records, found, functionLike]
      · simp [records, found, functionLike]

/-- A flag other than a text gives the same records wherever it stands. -/
theorem given_of_single {name : String} (single : name ≠ "text") (taken : takes n.kind name = true)
    (earlier count : Nat) :
    Occurrence.given t languages ⟨n, key, name, earlier, count⟩ = ownRecords t languages n key name := by
  rw [takes_eq] at taken
  unfold Occurrence.given Occurrence.records
  cases found : Tag.ofName? name with
  | none =>
    have params : name ≠ "params" := by
      rintro rfl
      cases found
    have samples : name ≠ "example" := by
      rintro rfl
      cases found
    simp [ownRecords, params, samples]
  | some tag =>
    obtain rfl : tag.name = name := Tag.ofName?_eq_some_iff.mp found
    have dotted : ∀ word : String, key ++ ("." ++ word) = key ++ "." ++ word := fun _ =>
      String.append_assoc.symm
    cases tag with
    | deprecated => exact congrArg (fun key => [Record.mk key "@deprecated"]) (dotted "deprecated")
    | text => exact absurd rfl single
    | sample => rfl
    | params => cases signature : n.body.signature? <;> simp [ownRecords, signature, Tag.name]
    | returns =>
      rw [found] at taken
      simp only [show n.kind.isFunctionLike = true from taken, if_true]
      exact congrArg (fun key => [Record.mk key "@returns"]) (dotted "returns")

theorem map_name_occurrences (n : Node) (key : String) (before rest : List String) :
    (occurrences n key before rest).map (·.name) = rest := by
  induction rest generalizing before with
  | nil => rfl
  | cons name rest ih => rw [occurrences, List.map_cons, ih]

/-- The texts among the flags are numbered on from those in front. -/
theorem texts_occurrences (n : Node) (key : String) (before rest : List String) :
    (occurrences n key before rest).filter (·.name = "text") =
      (List.range (rest.count "text")).map fun i =>
        ⟨n, key, "text", before.count "text" + i, (before ++ rest).count "text"⟩ := by
  induction rest generalizing before with
  | nil => rfl
  | cons name rest ih =>
    have later := ih (before ++ [name])
    rw [List.append_assoc, List.singleton_append] at later
    by_cases text : name = "text"
    · subst text
      rw [occurrences, List.filter_cons_of_pos (by simp), later, List.count_cons_self, List.range_succ_eq_map,
        List.map_cons, List.map_map, Nat.add_zero]
      congr 1
      apply List.map_congr_left
      intro i _
      simp only [Function.comp_apply, List.count_append, List.count_singleton_self]
      congr 1
      omega
    · rw [occurrences, List.filter_cons_of_neg (by simpa using text), later, List.count_cons_of_ne text]
      simp only [List.count_append, List.count_singleton, beq_eq_false_iff_ne.mpr text, Bool.false_eq_true, if_false,
        Nat.add_zero]

private theorem isTaken_of_mem {before names : List String} {o : Occurrence}
    (member : o ∈ occurrences n key before names) : o.isTaken = takes n.kind o.name := by
  rw [Occurrence.isTaken, (among_of_mem_occurrences member).node]

private theorem filter_names_occurrences (n : Node) (key : String) (names : List String) (p : String → Bool) :
    ((occurrences n key [] names).filter fun o => p o.name).map (·.name) = names.filter p := by
  conv_rhs => rw [← map_name_occurrences n key [] names, List.filter_map]
  rfl

/-- Flags that the kind does not take are misplaced, in their order, and the others are not. -/
private theorem collect_misplaced (t : Tree) (languages : List String) (os : List Occurrence) :
    (collect (os.map (Occurrence.records t languages))).misplaced =
      (os.filter fun o => !o.isTaken).map fun o => ⟨o.name, o.node.name, o.node.kind, o.key⟩ := by
  induction os with
  | nil => rfl
  | cons o os ih =>
    rw [List.map_cons, o.records_eq]
    by_cases taken : o.isTaken = true
    · rw [if_pos taken, collect, ih, List.filter_cons_of_neg (by simp [taken])]
    · rw [if_neg taken, collect, ih, List.filter_cons_of_pos (by simp [taken]), List.map_cons]

/-- Misplaced flags give no records. -/
private theorem flatMap_given_taken (t : Tree) (languages : List String) (os : List Occurrence) :
    (os.filter Occurrence.isTaken).flatMap (Occurrence.given t languages) =
      os.flatMap (Occurrence.given t languages) := by
  induction os with
  | nil => rfl
  | cons o os ih =>
    by_cases taken : o.isTaken = true
    · rw [List.filter_cons_of_pos taken, List.flatMap_cons, List.flatMap_cons, ih]
    · have none : o.given t languages = [] := 
        given_of_not_takes (Bool.eq_false_iff.mpr taken) o.earlier o.count
      rw [List.filter_cons_of_neg taken, List.flatMap_cons, ih, none, List.nil_append]

end Occurrences

section Counting

private theorem count_text_canonical (tags : List String) :
    (tags.map canonicalName).count "text" = tags.count "text" := by
  rw [List.count, List.countP_map]
  apply List.countP_congr
  intro tag _
  rw [Function.comp_apply, canonicalName_eq]
  split
  · rename_i param
    simp [param]
  · rfl

/-- Of the texts among the names all but the first are kept. -/
private theorem count_text_kept (defaults names : List String) :
    (kept defaults names).count "text" = names.count "text" - 1 := by
  induction names using List.reverseRecOn with
  | nil => rfl
  | append_singleton names name ih =>
    rw [kept_concat, List.count_append, ih, List.count_append]
    by_cases text : name = "text"
    · subst text
      by_cases met : "text" ∈ names
      · have positive := List.count_pos_iff.mpr met
        simp only [keeps, met, if_true, List.contains_eq_mem, decide_true, List.count_singleton_self]
        omega
      · simp [keeps, met, List.count_eq_zero_of_not_mem met]
    · have none : List.count "text" (if keeps defaults names name = true then [name] else []) = 0 := by
        split <;> simp [text]
      simp [none, text]

/-- A node has as many texts as its comment has tags for them, and at least one. -/
theorem count_text_active {kind : Kind} {tags : List String} (enabling : "disable" ∉ tags) :
    (buildFlags kind tags).flags.active.count "text" = max 1 (tags.count "text") := by
  rw [buildFlags_eq, if_neg enabling, Flags.active, if_pos rfl, List.count_append, count_text_defaultFlags,
    count_text_kept, count_text_canonical]
  omega

end Counting

section Expanding

variable {t : Tree} {id : NodeId} {n : Node} {key : String} {names languages : List String}

/-- The misplaced tags of a node are the flags that its kind does not take, in their order. -/
theorem expand_misplaced {f : Flags} (found : t.node? id = some n) (flagged : n.flags = some f)
    (languages : List String) :
    (expand t id languages).misplaced =
      (f.active.filter fun name => !takes n.kind name).map fun name =>
        ⟨name, n.name, n.kind, Key.ofNode t id⟩ := by
  have untaken := List.filter_congr fun o (member : o ∈ occurrences n (Key.ofNode t id) [] f.active) =>
    congrArg Bool.not (isTaken_of_mem member)
  simp only [expand, found, flagged, collect_misplaced]
  rw [untaken, ← filter_names_occurrences n (Key.ofNode t id) f.active fun name => !takes n.kind name, List.map_map]
  apply List.map_congr_left
  intro o member
  have place := among_of_mem_occurrences (List.mem_of_mem_filter member)
  rw [Function.comp_apply, place.node, place.key]

/-- The flags that the kind takes, each with its records. -/
private def contributions (t : Tree) (languages : List String) (n : Node) (key : String) (names : List String) :
    List (String × List Record) :=
  ((occurrences n key [] names).filter Occurrence.isTaken).map fun o => (o.name, o.given t languages)

private theorem map_fst_contributions :
    (contributions t languages n key names).map (·.1) = names.filter (takes n.kind) := by
  rw [contributions, List.map_map, List.filter_congr fun o => isTaken_of_mem,
    ← filter_names_occurrences n key names]
  rfl

private theorem flatMap_contributions :
    (contributions t languages n key names).flatMap (·.2) =
      (occurrences n key [] names).flatMap (Occurrence.given t languages) := by
  rw [contributions, List.flatMap_map]
  exact flatMap_given_taken t languages _

private theorem texts_contributions :
    ((contributions t languages n key names).filter (·.1 = "text")).map (·.2) =
      (List.range (names.count "text")).map fun i =>
        [⟨key ++ ".text" ++ toString i, if 1 < names.count "text" then "@text" else ""⟩] := by
  have taken : ∀ o ∈ occurrences n key [] names, (decide (o.name = "text") && o.isTaken) =
      decide (o.name = "text") := by
    intro o _
    by_cases text : o.name = "text"
    · simp [text, Occurrence.isTaken, takes]
    · simp [text]
  have texts : ((occurrences n key [] names).filter Occurrence.isTaken).filter (·.name = "text") = _ :=
    (List.filter_filter.trans (List.filter_congr taken)).trans (texts_occurrences n key [] names)
  rw [contributions, List.filter_map, List.map_map]
  change List.map (Occurrence.given t languages)
    (((occurrences n key [] names).filter Occurrence.isTaken).filter (·.name = "text")) = _
  rw [texts, List.map_map]
  apply List.map_congr_left
  intro i _
  rw [Function.comp_apply, List.count_nil, Nat.zero_add]
  rfl

/-- A flag other than a text contributes what it gives alone. -/
private theorem own_contributions {part : String × List Record}
    (member : part ∈ contributions t languages n key names) (single : part.1 ≠ "text") :
    part.2 = ownRecords t languages n key part.1 ∧ takes n.kind part.1 = true := by
  obtain ⟨o, among, rfl⟩ := List.mem_map.mp member
  obtain ⟨present, taken⟩ := List.mem_filter.mp among
  have place := among_of_mem_occurrences present
  rw [Occurrence.isTaken, place.node] at taken
  have own : Occurrence.given t languages ⟨n, key, o.name, o.earlier, o.count⟩ =
      ownRecords t languages n key o.name := given_of_single single taken o.earlier o.count
  rw [← place.node, ← place.key] at own ⊢
  exact ⟨own, place.node ▸ taken⟩

/-- The records of a node are the contributions of its flags, in their order. There are as many texts as the tags
have, and at least one; they are numbered from zero, and marked if there are several. A flag of any other name gives
what it gives alone. A flag that the kind does not take gives a misplaced tag and disturbs none of the others. -/
theorem expand_flag_by_flag {tags : List String} (found : t.node? id = some n)
    (flagged : n.flags = some (buildFlags n.kind tags).flags) (enabling : "disable" ∉ tags)
    (languages : List String) :
    let flags := (buildFlags n.kind tags).flags.active
    let total := max 1 (tags.count "text")
    ∃ parts : List (String × List Record),
      (expand t id languages).records = parts.flatMap (·.2) ∧
      parts.map (·.1) = flags.filter (takes n.kind) ∧
      (parts.filter (·.1 = "text")).map (·.2) =
        (List.range total).map (fun i =>
          [⟨Key.ofNode t id ++ ".text" ++ toString i, if 1 < total then "@text" else ""⟩]) ∧
      (∀ part ∈ parts, part.1 ≠ "text" →
        part.2 = ownRecords t languages n (Key.ofNode t id) part.1 ∧
          part.2 = (expand (t.setFlags id ⟨true, [part.1]⟩) id languages).records) ∧
      (expand t id languages).misplaced =
        (flags.filter fun name => !takes n.kind name).map fun name =>
          ⟨name, n.name, n.kind, Key.ofNode t id⟩ := by
  intro flags total
  have texts : flags.count "text" = total := count_text_active enabling
  refine ⟨contributions t languages n (Key.ofNode t id) flags, ?_, map_fst_contributions, ?_, ?_,
    expand_misplaced found flagged languages⟩
  · rw [flatMap_contributions, expand_records found flagged]
  · rw [texts_contributions, texts]
  · intro part member single
    obtain ⟨own, taken⟩ := own_contributions member single
    have alone : (expand (t.setFlags id ⟨true, [part.1]⟩) id languages).records =
        Occurrence.given t languages ⟨n, Key.ofNode t id, part.1, 0, [part.1].count part.1⟩ := by
      rw [expand_setFlags found]
      exact List.flatMap_singleton _ _
    exact ⟨own, own.trans (alone.trans (given_of_single single taken _ _)).symm⟩

/-- A variable with three texts and two tags that only functions take, between others. -/
theorem expand_flag_by_flag_variable :
    let tags := ["text", "params", "since", "text", "returns", "text"]
    ∃ t n, Tree.finish #[⟨"v", some (buildFlags .var tags).flags, .var (.basic .number) false, none⟩,
          ⟨"", none, .root [0], none⟩] 1 = .ok t ∧
      t.node? 0 = some n ∧ n.flags = some (buildFlags n.kind tags).flags ∧ "disable" ∉ tags ∧
      ∃ parts : List (String × List Record),
        (expand t 0 ["ts"]).records = parts.flatMap (·.2) ∧
        parts.map (·.1) = ["text", "since", "text", "text"] ∧
        (parts.filter (·.1 = "text")).map (·.2) =
          [[⟨"v.text0", "@text"⟩], [⟨"v.text1", "@text"⟩], [⟨"v.text2", "@text"⟩]] ∧
        (∀ part ∈ parts, part.1 ≠ "text" →
          part.2 = ownRecords t ["ts"] n "v" part.1 ∧
            part.2 = (expand (t.setFlags 0 ⟨true, [part.1]⟩) 0 ["ts"]).records) ∧
        (expand t 0 ["ts"]).misplaced = [⟨"params", "v", .var, "v"⟩, ⟨"returns", "v", .var, "v"⟩] := by
  intro tags
  let v : Node := ⟨"v", some (buildFlags .var tags).flags, .var (.basic .number) false, some 1⟩
  let t : Tree := ⟨#[v, ⟨"", none, .root [0], none⟩], 1⟩
  have enabling : "disable" ∉ tags := by decide
  have base : Key.ofNode t 0 = "v" := by decide +kernel
  have found : t.node? 0 = some v := rfl
  refine ⟨t, v, rfl, found, rfl, enabling, ?_⟩
  obtain ⟨parts, records, names, texts, others, misplaced⟩ := expand_flag_by_flag found rfl enabling ["ts"]
  rw [base] at texts others misplaced
  exact ⟨parts, records, names.trans (by decide), texts.trans (by decide), others, misplaced.trans (by decide)⟩

end Expanding

end DocLocale.Doc
