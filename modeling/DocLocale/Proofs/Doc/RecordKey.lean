import DocLocale.Proofs.Doc.Expansion

/-!
The parts of a record key: the key of the node, sometimes a word that stands for a list of records, and a last
part, with dots between them. Main statements: the last part and the word tell the flag, and texts that end in
parts without dots agree part by part.
-/

set_option autoImplicit false
set_option relaxedAutoImplicit false

namespace DocLocale

/-- A front that reaches into a part without dots reaches no further than its start. -/
private theorem nil_of_dot_free {more u v : List Char} (free : '.' ∉ u)
    (rest : '.' :: u = more ++ '.' :: v) : more = [] ∧ u = v := by
  cases more with
  | nil => exact ⟨rfl, by simpa using rest⟩
  | cons c more =>
    rw [List.cons_append, List.cons.injEq] at rest
    refine absurd ?_ free
    rw [rest.2]
    simp

/-- Texts that end in a dot and a part without dots agree part by part. -/
theorem append_dot_inj {a b x y : String} (left : '.' ∉ x.toList) (right : '.' ∉ y.toList)
    (same : a ++ "." ++ x = b ++ "." ++ y) : a = b ∧ x = y := by
  have chars : a.toList ++ '.' :: x.toList = b.toList ++ '.' :: y.toList := by
    have all := congrArg String.toList same
    rw [String.toList_append, String.toList_append, String.toList_append, String.toList_append] at all
    simpa using all
  rw [← String.toList_inj, ← String.toList_inj]
  rcases List.append_eq_append_iff.mp chars with ⟨more, longer, rest⟩ | ⟨more, longer, rest⟩
  · obtain ⟨rfl, ends⟩ := nil_of_dot_free left rest
    exact ⟨by simpa using longer.symm, ends⟩
  · obtain ⟨rfl, ends⟩ := nil_of_dot_free right rest
    exact ⟨by simpa using longer, ends.symm⟩

theorem ne_append_dot (a x : String) : a ≠ a ++ "." ++ x := by
  intro same
  have lengths := congrArg String.length same
  have dot : ".".length = 1 := rfl
  rw [String.length_append, String.length_append, dot] at lengths
  omega

namespace Doc

/-- The end of a record key: the word between the key of the node and the last part, if there is one, and the
last part. -/
abbrev Tail := Option String × String

/-- The key in front of the last part. -/
def Tail.stem (key : String) : Option String → String
  | none => key
  | some word => key ++ "." ++ word

/-- The record key with a given end below the key of a node. -/
def Tail.below (key : String) (tail : Tail) : String := Tail.stem key tail.1 ++ "." ++ tail.2

/-- The ends of the record keys of a flag. -/
def Occurrence.tails (t : Tree) (languages : List String) (o : Occurrence) : List Tail :=
  match Tag.ofName? o.name with
  | some .deprecated => [(none, "deprecated")]
  | some .text => [(none, "text" ++ toString o.earlier)]
  | some .sample => languages.map (some "example", ·)
  | some .params =>
    match o.node.body.signature? with
    | none => []
    | some s => s.parameters.map fun p => (some "param", t.name p)
  | some .returns => if o.node.kind.isFunctionLike then [(none, "returns")] else []
  | none => [(none, o.name)]

theorem keys_given (t : Tree) (languages : List String) (o : Occurrence) :
    (o.given t languages).map (·.key) = (o.tails t languages).map (Tail.below o.key) := by
  have single : ∀ word : String, o.key ++ ("." ++ word) = Tail.below o.key (none, word) := by
    intro word
    rw [Tail.below, Tail.stem, String.append_assoc]
  have listed : ∀ word part : String, o.key ++ ("." ++ word ++ ".") ++ part =
      Tail.below o.key (some word, part) := by
    intro word part
    simp only [Tail.below, Tail.stem, String.append_assoc]
  unfold Occurrence.given Occurrence.records Occurrence.tails
  cases Tag.ofName? o.name with
  | none => rfl
  | some tag =>
    cases tag with
    | deprecated => exact congrArg (fun key => [key]) (single "deprecated")
    | text =>
      have key : o.key ++ ".text" ++ toString o.earlier = o.key ++ ("." ++ ("text" ++ toString o.earlier)) := by
        have dotted : ".text" = "." ++ "text" := rfl
        rw [dotted]
        simp only [String.append_assoc]
      exact congrArg (fun key => [key]) (key.trans (single _))
    | sample =>
      simp only [List.map_map]
      exact List.map_congr_left fun l _ => listed "example" l
    | params =>
      cases o.node.body.signature? with
      | none => rfl
      | some s =>
        simp only [List.map_map]
        exact List.map_congr_left fun p _ => listed "param" (t.name p)
    | returns =>
      by_cases functionLike : o.node.kind.isFunctionLike = true
      · simp only [functionLike, if_true]
        exact congrArg (fun key => [key]) (single "returns")
      · simp [functionLike]

/-- The last part of the one record that a flag gives, if it does not give a list: the name of the flag, with
its number if it is a text. -/
def Occurrence.part (o : Occurrence) : String :=
  if o.name = "text" then "text" ++ toString o.earlier else o.name

/-- What the end of a record key tells about its flag. -/
inductive Ends (t : Tree) (languages : List String) (o : Occurrence) : Tail → Prop
  | single : Ends t languages o (none, o.part)
  | sample {l : String} : o.name = "example" → l ∈ languages → Ends t languages o (some "example", l)
  | param {s : Signature} {p : NodeId} : o.name = "params" → o.node.body.signature? = some s →
    p ∈ s.parameters → Ends t languages o (some "param", t.name p)

theorem ends_of_mem_tails {t : Tree} {languages : List String} {o : Occurrence} {tail : Tail}
    (member : tail ∈ o.tails t languages) : Ends t languages o tail := by
  have named : ∀ tag, Tag.ofName? o.name = some tag → o.name = tag.name := fun tag found =>
    (Tag.ofName?_eq_some_iff.mp found).symm
  have single : ∀ word, o.part = word → (none, word) = tail → Ends t languages o tail := by
    rintro word rfl rfl
    exact .single
  unfold Occurrence.tails at member
  split at member
  all_goals rename_i found
  · refine single "deprecated" ?_ (List.mem_singleton.mp member).symm
    rw [Occurrence.part, named _ found]
    rfl
  · refine single _ ?_ (List.mem_singleton.mp member).symm
    exact if_pos (named _ found)
  · obtain ⟨l, present, rfl⟩ := List.mem_map.mp member
    exact .sample (named _ found) present
  · split at member
    · cases member
    · rename_i s signature
      obtain ⟨p, present, rfl⟩ := List.mem_map.mp member
      exact .param (named _ found) signature present
  · split at member
    · refine single "returns" ?_ (List.mem_singleton.mp member).symm
      rw [Occurrence.part, named _ found]
      rfl
    · cases member
  · refine single o.name ?_ (List.mem_singleton.mp member).symm
    refine if_neg fun text => ?_
    rw [text] at found
    cases found

theorem exists_ends_of_mem_given {t : Tree} {languages : List String} {o : Occurrence} {r : Record}
    (member : r ∈ o.given t languages) :
    ∃ tail, Ends t languages o tail ∧ r.key = Tail.below o.key tail := by
  have key : r.key ∈ (o.tails t languages).map (Tail.below o.key) :=
    keys_given t languages o ▸ List.mem_map_of_mem member
  obtain ⟨tail, present, same⟩ := List.mem_map.mp key
  exact ⟨tail, ends_of_mem_tails present, same.symm⟩

end Doc

end DocLocale
