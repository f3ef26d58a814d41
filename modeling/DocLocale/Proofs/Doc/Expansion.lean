import DocLocale.Doc.Record
import DocLocale.Proofs.Doc.FlagRescan
import DocLocale.Proofs.Source.TagLine

/-!
The records of a node, flag by flag. Flags that the kind does not take give none, so leaving them out
changes nothing; every other record leads with the tag that its flag shows.
-/

set_option autoImplicit false
set_option relaxedAutoImplicit false

namespace DocLocale.Doc

open Source (IsTagName Plain headTag?)

/-- The records of a flag, none if it is misplaced. -/
def Occurrence.given (t : Tree) (languages : List String) (o : Occurrence) : List Record :=
  match o.records t languages with
  | .ok rs => rs
  | .error _ => []

theorem collect_records (t : Tree) (languages : List String) (os : List Occurrence) :
    (collect (os.map (Occurrence.records t languages))).records =
      os.flatMap (Occurrence.given t languages) := by
  induction os with
  | nil => rfl
  | cons o os ih =>
    rw [List.map_cons, List.flatMap_cons, Occurrence.given]
    split
    · rename_i rs ok
      rw [ok, collect, ih]
    · rename_i m error
      rw [error, collect, ih, List.nil_append]

theorem expand_records {t : Tree} {id : NodeId} {n : Node} {f : Flags} (found : t.node? id = some n)
    (flagged : n.flags = some f) (languages : List String) :
    (expand t id languages).records =
      (occurrences n (Key.ofNode t id) [] f.active).flatMap (Occurrence.given t languages) := by
  simp only [expand, found, flagged, collect_records]

/-- What is known of a flag in its place among the flags `rest` behind `before`. -/
structure Occurrence.Among (n : Node) (key : String) (before rest : List String) (o : Occurrence) : Prop where
  node : o.node = n
  key : o.key = key
  name : o.name ∈ rest
  earlier : before.count o.name ≤ o.earlier

theorem among_of_mem_occurrences {n : Node} {key : String} {before rest : List String} {o : Occurrence}
    (member : o ∈ occurrences n key before rest) : o.Among n key before rest := by
  induction rest generalizing before with
  | nil => cases member
  | cons name rest ih =>
    rcases List.mem_cons.mp member with rfl | member
    · exact ⟨rfl, rfl, List.mem_cons_self, Nat.le_refl _⟩
    · have later := ih member
      refine ⟨later.node, later.key, List.mem_cons_of_mem _ later.name, ?_⟩
      exact Nat.le_trans (List.Sublist.count_le _ (List.sublist_append_left _ _)) later.earlier

section Leaving

variable {t : Tree} {languages : List String} {n : Node} {key : String}

theorem given_of_not_takes {name : String} (untaken : takes n.kind name = false)
    (earlier count : Nat) :
    Occurrence.given t languages ⟨n, key, name, earlier, count⟩ = [] := by
  simp only [takes, Bool.or_eq_false_iff, Bool.and_eq_false_iff, decide_eq_false_iff_not,
    not_not] at untaken
  obtain ⟨plain, params | returns⟩ := untaken
  · have tag : Tag.ofName? name = some .params := Tag.ofName?_eq_some_iff.mpr params.symm
    have none : n.body.signature? = none := by simpa [plain] using signature?_isSome n
    simp [Occurrence.given, Occurrence.records, tag, none]
  · have tag : Tag.ofName? name = some .returns := Tag.ofName?_eq_some_iff.mpr returns.symm
    simp [Occurrence.given, Occurrence.records, tag, plain]

/-- Flags that the kind does not take can be left out. -/
theorem records_filter_takes (before rest : List String) :
    (occurrences n key before rest).flatMap (Occurrence.given t languages) =
      (occurrences n key (before.filter (takes n.kind)) (rest.filter (takes n.kind))).flatMap
        (Occurrence.given t languages) := by
  induction rest generalizing before with
  | nil => rfl
  | cons name rest ih =>
    rw [occurrences, List.flatMap_cons, ih, List.filter_append]
    by_cases taken : takes n.kind name = true
    · have earlier : (before.filter (takes n.kind)).count name = before.count name :=
        List.count_filter taken
      have count : (before.filter (takes n.kind) ++ name :: rest.filter (takes n.kind)).count name =
          (before ++ name :: rest).count name := by
        simp only [List.count_append, List.count_cons_self, List.count_filter taken]
      rw [List.filter_cons_of_pos taken, List.filter_cons_of_pos taken, List.filter_nil, occurrences,
        List.flatMap_cons, earlier, count]
    · have untaken : takes n.kind name = false := by simpa using taken
      rw [given_of_not_takes untaken, List.filter_cons_of_neg taken, List.filter_cons_of_neg taken,
        List.filter_nil, List.append_nil, List.nil_append]

end Leaving

/-- The end of a lead behind its tag: nothing, or one plain word. -/
def LeadEnd (tail : String) : Prop := tail = "" ∨ ∃ name, tail = " " ++ name ∧ Plain name

theorem LeadEnd.spaced {tail : String} (ends : LeadEnd tail) : Source.Spaced tail.toList := by
  rcases ends with rfl | ⟨name, rfl, -⟩
  · exact .inl rfl
  · exact .inr ⟨name.toList, by rw [String.toList_append]; rfl⟩

theorem toList_lead (tag tail : String) :
    ("@" ++ tag ++ tail).toList = '@' :: tag.toList ++ tail.toList := by
  rw [String.toList_append, String.toList_append]
  rfl

/-- A record that can be read back from a comment: its key is a plain word, and its lead is empty or a tag
with at most one plain word behind it. -/
structure Record.Legible (r : Record) : Prop where
  key : Plain r.key
  key_ne : r.key.toList ≠ []
  lead : r.lead = "" ∨ ∃ tag tail, r.lead = "@" ++ tag ++ tail ∧ IsTagName tag ∧ LeadEnd tail

/-- The tag that a record leads with. -/
def Record.tag? (r : Record) : Option String := headTag? r.lead.toList

theorem Record.tag?_of_lead {r : Record} {tag tail : String} (lead : r.lead = "@" ++ tag ++ tail)
    (named : IsTagName tag) (ends : LeadEnd tail) : r.tag? = some tag := by
  rw [tag?, lead, toList_lead, Source.headTag?_append named ends.spaced]

section Legible

theorem plain_append {a b : String} (left : Plain a) (right : Plain b) : Plain (a ++ b) := by
  intro c member
  rw [String.toList_append, List.mem_append] at member
  rcases member with here | there
  · exact left c here
  · exact right c there

theorem isDigit_of_mem_toString {n : Nat} {c : Char} (member : c ∈ (toString n).toList) :
    c.isDigit = true := by
  rw [Nat.toString_eq_repr, Nat.toList_repr] at member
  exact Nat.isDigit_of_mem_toDigits (by decide) (by decide) member

theorem plain_toString (n : Nat) : Plain (toString n) := by
  intro c member
  have digit : c.isDigit = true := isDigit_of_mem_toString member
  have word : Text.isWordChar c = true := by
    simp [Text.isWordChar, Char.isAlphanum, digit]
  exact Source.isPlain_of_isTagChar (by simp [Source.isTagChar, word])

/-- Records that can be read back, with the tags they lead with. -/
private structure Readable (records : List Record) (tags : List String) : Prop where
  legible : ∀ r ∈ records, r.Legible
  tags : records.filterMap Record.tag? = tags

private theorem Readable.nil : Readable [] [] := ⟨by simp, rfl⟩

private theorem Readable.append {records more : List Record} {tags others : List String}
    (first : Readable records tags) (second : Readable more others) :
    Readable (records ++ more) (tags ++ others) := by
  constructor
  · intro r member
    rcases List.mem_append.mp member with here | there
    · exact first.legible r here
    · exact second.legible r there
  · rw [List.filterMap_append, first.tags, second.tags]

/-- Records of one tag under keys below one node. -/
private theorem Readable.map {α : Type} {key : String} (plain : Plain key) {tag : String}
    (named : IsTagName tag) (suffix tail : α → String) {xs : List α}
    (suffixes : ∀ x ∈ xs, Plain (suffix x) ∧ (suffix x).toList ≠ [])
    (tails : ∀ x ∈ xs, LeadEnd (tail x)) :
    Readable (xs.map fun x => ⟨key ++ suffix x, "@" ++ tag ++ tail x⟩) (xs.map fun _ => tag) := by
  constructor
  · intro r member
    obtain ⟨x, present, rfl⟩ := List.mem_map.mp member
    obtain ⟨further, nonempty⟩ := suffixes x present
    exact ⟨plain_append plain further, by simp [String.toList_append, nonempty],
      .inr ⟨tag, tail x, rfl, named, tails x present⟩⟩
  · rw [List.filterMap_map, ← List.filterMap_eq_map]
    apply List.filterMap_congr
    exact fun x present => Record.tag?_of_lead rfl named (tails x present)

private theorem Readable.single {key : String} (plain : Plain key) {tag : String}
    (named : IsTagName tag) {suffix : String} (further : Plain suffix) (nonempty : suffix.toList ≠ []) :
    Readable [⟨key ++ suffix, "@" ++ tag⟩] [tag] := by
  have suffixes : ∀ _ ∈ [()], Plain suffix ∧ suffix.toList ≠ [] := fun _ _ => ⟨further, nonempty⟩
  simpa using Readable.map plain named (fun _ => suffix) (fun _ => "") suffixes (fun _ _ => .inl rfl)

end Legible

/-- What has to be plain for the records of a node to be read back. -/
structure PlainParts (t : Tree) (languages : List String) (n : Node) (key : String) : Prop where
  key : Plain key
  languages : ∀ l ∈ languages, Plain l
  parameters : ∀ s, n.body.signature? = some s → ∀ p ∈ s.parameters, Plain (t.name p)

section Reading

variable {t : Tree} {languages : List String} {n : Node} {key : String}

/-- The records of a flag can be read back, and lead with the tags that it shows. -/
private theorem readable_given (parts : PlainParts t languages n key) {name : String}
    (named : Tag.ofName? name = none → IsTagName name) (earlier count : Nat) :
    Readable (Occurrence.given t languages ⟨n, key, name, earlier, count⟩)
      (shownTags n languages (1 < count) name) := by
  unfold Occurrence.given Occurrence.records shownTags
  cases found : Tag.ofName? name with
  | none =>
    have further : Plain ("." ++ name) := plain_append (by decide) (named found).plain
    have one := Readable.single parts.key (named found) further (by simp [String.toList_append])
    simpa [String.append_assoc] using one
  | some tag =>
    cases tag with
    | deprecated =>
      have tag : IsTagName "deprecated" := by decide
      have suffix : Plain ".deprecated" := by decide
      exact Readable.single parts.key tag suffix (by decide)
    | text =>
      have tag : IsTagName "text" := by decide
      have suffix : Plain (".text" ++ toString earlier) :=
        plain_append (by decide) (plain_toString earlier)
      have nonempty : (".text" ++ toString earlier).toList ≠ [] := by simp [String.toList_append]
      by_cases several : 1 < count
      · simpa [several, String.append_assoc] using Readable.single parts.key tag suffix nonempty
      · have bare : Record.Legible ⟨key ++ ".text" ++ toString earlier, ""⟩ := by
          rw [String.append_assoc]
          exact ⟨plain_append parts.key suffix, by simp [String.toList_append], .inl rfl⟩
        have one : Readable [⟨key ++ ".text" ++ toString earlier, ""⟩] [] := ⟨by simpa using bare, rfl⟩
        simpa [several] using one
    | sample =>
      have tag : IsTagName "example" := by decide
      have suffixes : ∀ l ∈ languages, Plain (".example." ++ l) ∧ (".example." ++ l).toList ≠ [] := by
        intro l member
        exact ⟨plain_append (by decide) (parts.languages l member), by simp [String.toList_append]⟩
      have all := Readable.map parts.key tag (fun l => ".example." ++ l) (fun _ => "") suffixes
        (fun _ _ => .inl rfl)
      simpa [String.append_assoc] using all
    | params =>
      cases signature : n.body.signature? with
      | none => exact Readable.nil
      | some s =>
        have tag : IsTagName "param" := by decide
        have names := parts.parameters s signature
        have suffixes : ∀ p ∈ s.parameters,
            Plain (".param." ++ t.name p) ∧ (".param." ++ t.name p).toList ≠ [] := by
          intro p member
          exact ⟨plain_append (by decide) (names p member), by simp [String.toList_append]⟩
        have all := Readable.map parts.key tag (fun p => ".param." ++ t.name p)
          (fun p => " " ++ t.name p) suffixes (fun p member => .inr ⟨_, rfl, names p member⟩)
        simpa [← String.append_assoc] using all
    | returns =>
      by_cases functionLike : n.kind.isFunctionLike = true
      · have tag : IsTagName "returns" := by decide
        have suffix : Plain ".returns" := by decide
        simpa [functionLike] using Readable.single parts.key tag suffix (by decide)
      · simpa [functionLike] using Readable.nil

/-- Only for texts does it matter how many there are. -/
private theorem shownTags_single {name : String} (single : name ≠ "text") (several more : Bool) :
    shownTags n languages several name = shownTags n languages more name := by
  unfold shownTags
  split
  all_goals rename_i found
  case h_2 => exact absurd (Tag.ofName?_eq_some_iff.mp found).symm single
  all_goals rfl

private theorem readable_occurrences (parts : PlainParts t languages n key) (before : List String)
    {rest : List String} (named : ∀ name ∈ rest, Tag.ofName? name = none → IsTagName name) :
    Readable ((occurrences n key before rest).flatMap (Occurrence.given t languages))
      (rest.flatMap (shownTags n languages (1 < (before ++ rest).count "text"))) := by
  induction rest generalizing before with
  | nil => exact Readable.nil
  | cons name rest ih =>
    have later := ih (before ++ [name])
      fun other member => named other (List.mem_cons_of_mem _ member)
    rw [List.append_assoc, List.singleton_append] at later
    have here := readable_given parts (named name List.mem_cons_self) (before.count name)
      ((before ++ name :: rest).count name)
    have same : shownTags n languages (1 < (before ++ name :: rest).count name) name =
        shownTags n languages (1 < (before ++ name :: rest).count "text") name := by
      by_cases text : name = "text"
      · rw [text]
      · exact shownTags_single text _ _
    rw [same] at here
    exact here.append later

/-- The records of a node can be read back, and lead with the tags that its flags show. -/
theorem readable_expand {id : NodeId} {f : Flags} (found : t.node? id = some n)
    (flagged : n.flags = some f) (parts : PlainParts t languages n (Key.ofNode t id))
    (named : ∀ name ∈ f.active, Tag.ofName? name = none → IsTagName name) :
    (∀ r ∈ (expand t id languages).records, r.Legible) ∧
      (expand t id languages).records.filterMap Record.tag? =
        f.active.flatMap (shownTags n languages (1 < f.active.count "text")) := by
  rw [expand_records found flagged]
  have all := readable_occurrences parts [] named
  exact ⟨all.legible, all.tags⟩

end Reading

end DocLocale.Doc
