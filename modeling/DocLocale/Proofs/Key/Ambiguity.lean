import DocLocale.Proofs.Doc.RecordKey
import DocLocale.Proofs.Tree.Walk
import DocLocale.Proofs.Tree.Wiring

/-!
When two records have the same key. Their last parts are then the same, since those have no dots. Main
statement: two records share a key only if their nodes do, if a text meets a tag that is named like it, or if
one node's key goes on from the other's with a word for a list.
-/

set_option autoImplicit false
set_option relaxedAutoImplicit false

namespace DocLocale.Doc

/-- What keeps the parts of record keys apart: flags that come from tags without dots, and languages and
parameter names without dots that are told from each other. -/
structure DotFree (t : Tree) (languages : List String) : Prop where
  flags : ∀ id n f, t.node? id = some n → n.flags = some f →
    ∃ tags, f = (buildFlags n.kind tags).flags ∧ ∀ tag ∈ tags, '.' ∉ tag.toList
  spoken : languages.Nodup
  languages : ∀ l ∈ languages, '.' ∉ l.toList
  parameters : ∀ id n s, t.node? id = some n → n.body.signature? = some s →
    (∀ p ∈ s.parameters, '.' ∉ (t.name p).toList) ∧ (s.parameters.map t.name).Nodup

/-- A record with the node and the flag that it comes from. -/
structure Site where
  id : NodeId
  flag : Occurrence
  record : Record

/-- The flags of a node, each in its place. -/
def flagsOf (t : Tree) (id : NodeId) : List Occurrence :=
  match t.node? id with
  | none => []
  | some n =>
    match n.flags with
    | none => []
    | some f => occurrences n (Key.ofNode t id) [] f.active

/-- The records of a node with their flags. -/
def sitesOf (t : Tree) (languages : List String) (id : NodeId) : List Site :=
  (flagsOf t id).flatMap fun o => (o.given t languages).map fun r => ⟨id, o, r⟩

/-- All records of a tree in the order of the walk. -/
def sites (t : Tree) (languages : List String) : List Site := t.walk.flatMap (sitesOf t languages)

theorem map_record_sitesOf (t : Tree) (languages : List String) (id : NodeId) :
    (sitesOf t languages id).map (·.record) = (expand t id languages).records := by
  unfold sitesOf flagsOf
  cases found : t.node? id with
  | none => simp [expand, found]
  | some n =>
    cases flagged : n.flags with
    | none => simp [expand, found, flagged]
    | some f =>
      simp only [expand_records found flagged, List.map_flatMap, List.map_map, flagged]
      exact List.flatMap_congr fun o _ => List.map_id _

/-- What is known of a flag of a node. -/
private structure Legible (t : Tree) (id : NodeId) (o : Occurrence) : Prop where
  key : o.key = Key.ofNode t id
  name : '.' ∉ o.name.toList
  parameters : ∀ s, o.node.body.signature? = some s →
    (∀ p ∈ s.parameters, '.' ∉ (t.name p).toList) ∧ (s.parameters.map t.name).Nodup

/-- Flags from tags without dots have no dots. -/
private theorem notMem_dot_of_buildFlags {kind : Kind} {tags : List String}
    (free : ∀ tag ∈ tags, '.' ∉ tag.toList) {name : String}
    (member : name ∈ (buildFlags kind tags).flags.active) : '.' ∉ name.toList := by
  by_cases enabled : (buildFlags kind tags).flags.enabled = true
  · obtain ⟨extras, names, -, origin⟩ := enabled_flags enabled
    rw [Flags.active, if_pos enabled, names] at member
    rcases List.mem_append.mp member with default | extra
    · have all : ∀ name ∈ defaultFlags kind, '.' ∉ name.toList := by cases kind <;> decide
      exact all name default
    · obtain ⟨tag, present, rfl⟩ := origin name extra
      rw [canonicalName_eq]
      split
      · decide
      · exact free tag present
  · rw [Flags.active, if_neg enabled] at member
    cases member

theorem regular_active (kind : Kind) (tags : List String) :
    ((buildFlags kind tags).flags.active.filter (· ≠ "text")).Nodup := by
  by_cases enabled : (buildFlags kind tags).flags.enabled = true
  · obtain ⟨extras, names, regular, -⟩ := enabled_flags enabled
    rw [Flags.active, if_pos enabled, names]
    exact regular.nodup
  · rw [Flags.active, if_neg enabled]
    exact List.nodup_nil

/-- The flags of a node differ in their names, or are texts with different numbers. -/
private theorem pairwise_occurrences {n : Node} {key : String} (before : List String) {rest : List String}
    (regular : (rest.filter (· ≠ "text")).Nodup) :
    (occurrences n key before rest).Pairwise fun o o' =>
      o.name = o'.name → o.name = "text" ∧ o.earlier ≠ o'.earlier := by
  induction rest generalizing before with
  | nil => exact .nil
  | cons name rest ih =>
    refine List.pairwise_cons.mpr ⟨?_, ih _ (regular.sublist ((List.sublist_cons_self _ _).filter _))⟩
    intro o member same
    have among := among_of_mem_occurrences member
    have text : name = "text" := by
      by_contra other
      rw [List.filter_cons_of_pos (by simpa using other)] at regular
      refine (List.nodup_cons.mp regular).1 (List.mem_filter.mpr ⟨?_, by simpa using other⟩)
      have here : name = o.name := same
      exact here ▸ among.name
    refine ⟨text, ?_⟩
    have later := among.earlier
    rw [← same, List.count_append] at later
    simp only [List.count_singleton_self] at later
    exact Nat.ne_of_lt later

variable {t : Tree} {languages : List String}

private theorem notMem_dot_part {id : NodeId} {o : Occurrence} (legible : Legible t id o) :
    '.' ∉ o.part.toList := by
  unfold Occurrence.part
  split
  · rw [String.toList_append, List.mem_append, not_or]
    exact ⟨by decide, fun member => absurd (isDigit_of_mem_toString member) (by decide)⟩
  · exact legible.name

private theorem Ends.notMem_dot (free : DotFree t languages) {id : NodeId} {o : Occurrence}
    (legible : Legible t id o) {tail : Tail} (ends : Ends t languages o tail) :
    '.' ∉ tail.2.toList := by
  cases ends with
  | single => exact notMem_dot_part legible
  | sample _ member => exact free.languages _ member
  | param _ signature member => exact (legible.parameters _ signature).1 _ member

private theorem nodup_tails (free : DotFree t languages) {id : NodeId} {o : Occurrence}
    (legible : Legible t id o) : (o.tails t languages).Nodup := by
  unfold Occurrence.tails
  split
  · exact List.nodup_singleton _
  · exact List.nodup_singleton _
  · exact free.spoken.map fun l l' same => (Prod.mk.inj same).2
  · split
    · exact List.nodup_nil
    · rename_i s signature
      have distinct := (legible.parameters s signature).2.map
        (f := fun name => ((some "param", name) : Tail)) fun a b same => (Prod.mk.inj same).2
      rwa [List.map_map] at distinct
  · split
    · exact List.nodup_singleton _
    · exact List.nodup_nil
  · exact List.nodup_singleton _

/-- The words that stand between the key of a node and a list of records. -/
def listWords : List String := ["example", "param"]

private theorem Ends.word {o : Occurrence} {tail : Tail} (ends : Ends t languages o tail) :
    tail.1 = none ∨ ∃ word ∈ listWords, tail.1 = some word := by
  cases ends with
  | single => exact .inl rfl
  | sample => exact .inr ⟨"example", by decide, rfl⟩
  | param => exact .inr ⟨"param", by decide, rfl⟩

/-- Equal record keys have equal ends, and their nodes have equal keys unless one goes on from the other. -/
private theorem below_inj (free : DotFree t languages) {id id' : NodeId} {o o' : Occurrence}
    (legible : Legible t id o) (legible' : Legible t id' o') {tail tail' : Tail}
    (ends : Ends t languages o tail) (ends' : Ends t languages o' tail')
    (same : Tail.below o.key tail = Tail.below o'.key tail') :
    (tail = tail' ∧ o.key = o'.key) ∨
      ∃ word ∈ listWords, o.key = o'.key ++ "." ++ word ∨ o'.key = o.key ++ "." ++ word := by
  obtain ⟨stems, parts⟩ :=
    append_dot_inj (ends.notMem_dot free legible) (ends'.notMem_dot free legible') same
  have undotted : ∀ word ∈ listWords, '.' ∉ word.toList := by decide
  rcases ends.word with none | ⟨word, listed, some⟩
  · rcases ends'.word with none' | ⟨word', listed', some'⟩
    · rw [none, none'] at stems
      exact .inl ⟨Prod.ext (none.trans none'.symm) parts, stems⟩
    · rw [none, some'] at stems
      exact .inr ⟨word', listed', .inl stems⟩
  · rcases ends'.word with none' | ⟨word', listed', some'⟩
    · rw [some, none'] at stems
      exact .inr ⟨word, listed, .inr stems.symm⟩
    · rw [some, some'] at stems
      obtain ⟨keys, rfl⟩ := append_dot_inj (undotted word listed) (undotted word' listed') stems
      exact .inl ⟨Prod.ext (some.trans some'.symm) parts, keys⟩

/-- A text, and an unknown tag that is named like the last part of its key. -/
def NamedLike (o o' : Occurrence) : Prop :=
  o.name = "text" ∧ Tag.ofName? o'.name = none ∧ o'.name = "text" ++ toString o.earlier

/-- The ways in which two records may come to share a key: different nodes share one, a text meets a tag named
like it on one node, or the key of one node goes on from that of the other with a word for a list. -/
def Ambiguous (t : Tree) (x y : Site) : Prop :=
  (x.id ≠ y.id ∧ Key.ofNode t x.id = Key.ofNode t y.id) ∨
  (x.id = y.id ∧ (NamedLike x.flag y.flag ∨ NamedLike y.flag x.flag)) ∨
  ∃ word ∈ listWords, Key.ofNode t x.id = Key.ofNode t y.id ++ "." ++ word ∨
    Key.ofNode t y.id = Key.ofNode t x.id ++ "." ++ word

private theorem eq_of_toString_eq {m n : Nat} (same : toString m = toString n) : m = n := by
  have digits : Nat.toDigits 10 m = Nat.toDigits 10 n := by
    rw [← Nat.toList_repr, ← Nat.toList_repr, ← Nat.toString_eq_repr, ← Nat.toString_eq_repr, same]
  have value := congrArg (Nat.ofDigitChars 10 · 0) digits
  simpa only [Nat.ofDigitChars_ten_toDigits] using value

/-- A text with a number is no tag with a meaning. -/
private theorem ofName?_numbered (n : Nat) : Tag.ofName? ("text" ++ toString n) = none := by
  have digits : (toString n).toList ≠ [] := by
    rw [Nat.toString_eq_repr, Nat.toList_repr]
    exact Nat.toDigits_ne_nil
  obtain ⟨c, member⟩ := List.exists_mem_of_ne_nil _ digits
  have letters : ∀ tag : Tag, tag.name.toList.any Char.isDigit = false := by
    intro tag
    cases tag <;> rfl
  by_contra known
  obtain ⟨tag, found⟩ := Option.ne_none_iff_exists'.mp known
  have inside : c ∈ tag.name.toList := by
    rw [Tag.ofName?_eq_some_iff.mp found, String.toList_append]
    exact List.mem_append_right _ member
  exact List.any_eq_false.mp (letters tag) c inside (isDigit_of_mem_toString member)

/-- Flags of one node with the same last part are a text and a tag named like it. -/
private theorem namedLike_of_part_eq {o o' : Occurrence}
    (differ : o.name = o'.name → o.name = "text" ∧ o.earlier ≠ o'.earlier) (same : o.part = o'.part) :
    NamedLike o o' ∨ NamedLike o' o := by
  unfold Occurrence.part at same
  by_cases text : o.name = "text"
  · by_cases text' : o'.name = "text"
    · rw [if_pos text, if_pos text'] at same
      have number : o.earlier = o'.earlier := eq_of_toString_eq ((String.append_right_inj "text").mp same)
      exact absurd number (differ (text.trans text'.symm)).2
    · rw [if_pos text, if_neg text'] at same
      exact .inl ⟨text, same ▸ ofName?_numbered _, same.symm⟩
  · by_cases text' : o'.name = "text"
    · rw [if_neg text, if_pos text'] at same
      exact .inr ⟨text', same ▸ ofName?_numbered _, same⟩
    · rw [if_neg text, if_neg text'] at same
      exact absurd (differ same).1 text

private theorem legible_of_mem_flagsOf (free : DotFree t languages) {id : NodeId} {o : Occurrence}
    (member : o ∈ flagsOf t id) : Legible t id o := by
  unfold flagsOf at member
  split at member
  · cases member
  · rename_i n found
    split at member
    · cases member
    · rename_i f flagged
      obtain ⟨tags, rfl, dotless⟩ := free.flags id n f found flagged
      have among := among_of_mem_occurrences member
      refine ⟨among.key, notMem_dot_of_buildFlags dotless among.name, ?_⟩
      rw [among.node]
      exact fun s signature => free.parameters id n s found signature

private theorem pairwise_flagsOf (free : DotFree t languages) (id : NodeId) :
    (flagsOf t id).Pairwise fun o o' => o.name = o'.name → o.name = "text" ∧ o.earlier ≠ o'.earlier := by
  unfold flagsOf
  split
  · exact .nil
  · rename_i n found
    split
    · exact .nil
    · rename_i f flagged
      obtain ⟨tags, rfl, -⟩ := free.flags id n f found flagged
      exact pairwise_occurrences [] (regular_active n.kind tags)

/-- A site of a node is given by one of its flags. -/
private theorem of_mem_sitesOf (free : DotFree t languages) {id : NodeId} {x : Site}
    (member : x ∈ sitesOf t languages id) :
    x.id = id ∧ Legible t id x.flag ∧
      ∃ tail, Ends t languages x.flag tail ∧ x.record.key = Tail.below x.flag.key tail := by
  obtain ⟨o, flag, given⟩ := List.mem_flatMap.mp member
  obtain ⟨r, record, rfl⟩ := List.mem_map.mp given
  exact ⟨rfl, legible_of_mem_flagsOf free flag, exists_ends_of_mem_given record⟩

/-- Records of different nodes. -/
private theorem ambiguous_of_ne (free : DotFree t languages) {id id' : NodeId} (differ : id ≠ id')
    {x y : Site} (first : x ∈ sitesOf t languages id) (second : y ∈ sitesOf t languages id')
    (same : x.record.key = y.record.key) : Ambiguous t x y := by
  obtain ⟨rfl, legible, tail, ends, key⟩ := of_mem_sitesOf free first
  obtain ⟨rfl, legible', tail', ends', key'⟩ := of_mem_sitesOf free second
  rw [key, key'] at same
  have apart := below_inj free legible legible' ends ends' same
  rw [legible.key, legible'.key] at apart
  rcases apart with ⟨-, keys⟩ | longer
  · exact .inl ⟨differ, keys⟩
  · exact .inr (.inr longer)

/-- Records of one node under different flags. -/
private theorem ambiguous_of_flags (free : DotFree t languages) {id : NodeId} {o o' : Occurrence}
    (first : o ∈ flagsOf t id) (second : o' ∈ flagsOf t id)
    (differ : o.name = o'.name → o.name = "text" ∧ o.earlier ≠ o'.earlier) {r r' : Record}
    (given : r ∈ o.given t languages) (given' : r' ∈ o'.given t languages) (same : r.key = r'.key) :
    Ambiguous t ⟨id, o, r⟩ ⟨id, o', r'⟩ := by
  have legible := legible_of_mem_flagsOf free first
  have legible' := legible_of_mem_flagsOf free second
  obtain ⟨tail, ends, key⟩ := exists_ends_of_mem_given given
  obtain ⟨tail', ends', key'⟩ := exists_ends_of_mem_given given'
  rw [key, key'] at same
  have apart := below_inj free legible legible' ends ends' same
  rw [legible.key, legible'.key] at apart
  rcases apart with ⟨tails, -⟩ | longer
  · refine .inr (.inl ⟨rfl, ?_⟩)
    -- Lists of records come from one flag each, so the two flags give single records.
    cases ends with
    | single =>
      cases ends' with
      | single => exact namedLike_of_part_eq differ (Prod.mk.inj tails).2
      | sample | param => cases tails
    | sample named =>
      cases ends' with
      | single => cases tails
      | sample named' => exact absurd (named.symm.trans (differ (named.trans named'.symm)).1) (by decide)
      | param => exact absurd (Option.some.inj (Prod.mk.inj tails).1) (by decide)
    | param named =>
      cases ends' with
      | single => cases tails
      | sample => exact absurd (Option.some.inj (Prod.mk.inj tails).1) (by decide)
      | param named' => exact absurd (named.symm.trans (differ (named.trans named'.symm)).1) (by decide)
  · exact .inr (.inr longer)

/-- The records of one flag have different keys. -/
private theorem pairwise_given (free : DotFree t languages) {id : NodeId} {o : Occurrence}
    (member : o ∈ flagsOf t id) : (o.given t languages).Pairwise fun r r' => r.key ≠ r'.key := by
  have legible := legible_of_mem_flagsOf free member
  have keys : ((o.tails t languages).map (Tail.below o.key)).Nodup := by
    refine (nodup_tails free legible).map_on ?_
    intro tail present tail' present' same
    rcases below_inj free legible legible (ends_of_mem_tails present) (ends_of_mem_tails present') same with
      ⟨tails, -⟩ | ⟨word, -, longer | longer⟩
    · exact tails
    · exact absurd longer (ne_append_dot _ word)
    · exact absurd longer (ne_append_dot _ word)
  rw [← keys_given, List.Nodup, List.pairwise_map] at keys
  exact keys

/-- Records of a finished tree share a key only in the ways listed, if nothing that keys are made of but the
keys of nodes has dots. The sites are all records of the walk, each with its flag. -/
theorem record_keys_pairwise_ambiguous {nodes : Array Node} {root : NodeId}
    (finished : Tree.finish nodes root = .ok t) (free : DotFree t languages) :
    (sites t languages).map (·.record) = t.walk.flatMap (fun id => (expand t id languages).records) ∧
    (sites t languages).Pairwise fun x y => x.record.key = y.record.key → Ambiguous t x y := by
  have spanning := (Tree.wired_of_finish finished).spanning
  have once : t.walk.Nodup := (Tree.walk_perm_range spanning).nodup_iff.mpr List.nodup_range
  constructor
  · rw [sites, List.map_flatMap]
    exact List.flatMap_congr fun id _ => map_record_sitesOf t languages id
  · refine List.pairwise_flatMap.mpr ⟨?_, ?_⟩
    · intro id _
      refine List.pairwise_flatMap.mpr ⟨?_, ?_⟩
      · intro o member
        rw [List.pairwise_map]
        exact (pairwise_given free member).imp fun differ same => absurd same differ
      · refine (pairwise_flagsOf free id).imp_of_mem ?_
        intro o o' first second differ x given y given' same
        obtain ⟨r, record, rfl⟩ := List.mem_map.mp given
        obtain ⟨r', record', rfl⟩ := List.mem_map.mp given'
        exact ambiguous_of_flags free first second differ record record' same
    · refine once.imp ?_
      intro id id' differ x first y second same
      exact ambiguous_of_ne free differ first second same

/-- A function with a tag named like its text, and a variable that shares its key. -/
private def sharedKeys : Tree :=
  ⟨#[⟨"a", none, .param (.basic .number) false false, some 1⟩,
    ⟨"f", some (buildFlags .function ["text0", "example"]).flags, .function ⟨[0], none, []⟩, some 3⟩,
    ⟨"F", some (buildFlags .var []).flags, .var (.basic .number) true, some 3⟩,
    ⟨"", none, .root [1, 2], none⟩], 3⟩

private theorem dotFree_sharedKeys : DotFree sharedKeys ["js", "ts"] := by
  refine ⟨?_, by decide, by decide, ?_⟩
  · intro id n f found flagged
    match id with
    | 0 =>
      cases found
      cases flagged
    | 1 =>
      cases found
      cases flagged
      exact ⟨["text0", "example"], rfl, by decide⟩
    | 2 =>
      cases found
      cases flagged
      exact ⟨[], rfl, by decide⟩
    | 3 =>
      cases found
      cases flagged
    | _ + 4 => cases found
  · intro id n s found signature
    match id with
    | 0 | 2 | 3 =>
      cases found
      cases signature
    | 1 =>
      cases found
      cases signature
      decide
    | _ + 4 => cases found

theorem record_keys_pairwise_ambiguous_sharedKeys :
    Tree.finish sharedKeys.nodes 3 = .ok sharedKeys ∧ DotFree sharedKeys ["js", "ts"] ∧
      (sites sharedKeys ["js", "ts"]).map (·.record.key) =
        ["f.text0", "f.param.a", "f.returns", "f.text0", "f.example.js", "f.example.ts", "f.text0"] ∧
      (sites sharedKeys ["js", "ts"]).Pairwise fun x y =>
        x.record.key = y.record.key → Ambiguous sharedKeys x y := by
  have finished : Tree.finish sharedKeys.nodes 3 = .ok sharedKeys := rfl
  exact ⟨finished, dotFree_sharedKeys, by decide +kernel,
    (record_keys_pairwise_ambiguous finished dotFree_sharedKeys).2⟩

end DocLocale.Doc
