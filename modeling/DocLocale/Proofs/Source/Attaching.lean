import DocLocale.Proofs.Source.Collecting
import DocLocale.Proofs.Text.Words

/-!
Doc comments attached to declarations. Bisection over the ends of comments in order finds the last one before a
declaration. Main statement: whatever order comments that do not overlap come in, and however often, the same doc
comments are collected, and a declaration gets the last one that ends before it, exactly if both ends of the text
between are character boundaries of the source and only modifiers stand there.
-/

set_option autoImplicit false
set_option relaxedAutoImplicit false

namespace DocLocale.Source

open Text (byteLength)

/-- A text of modifiers, with blanks between them. -/
def IsModifierGap (gap : List Char) : Prop := Text.SpacedOf (fun word => String.ofList word ∈ gapWords) gap

theorem isWord_of_gapWord (word : List Char) (known : String.ofList word ∈ gapWords) : Text.IsWord word := by
  have proper : ∀ w ∈ gapWords, w.toList ≠ [] ∧ w.toList.all (!Text.isBlank ·) = true := by decide
  obtain ⟨nonempty, solid⟩ := proper _ known
  rw [String.toList_ofList] at nonempty solid
  refine ⟨nonempty, fun c member => ?_⟩
  simpa using List.all_eq_true.mp solid c member

theorem offset?_eq_some_iff {start position n : Nat} : offset? start position = some n ↔ start + n = position := by
  unfold offset?
  split
  · rw [Option.some.injEq]
    omega
  · constructor
    · intro absent
      cases absent
    · omega

namespace DocComment

variable {docs : List DocComment} {position : Nat} {d : DocComment}

/-- Bisection finds the last of the comments in front that end before a position. -/
theorem exists_lastBefore?_eq_getLast? (order : InOrder docs) (position : Nat) :
    ∃ front back, docs = front ++ back ∧ (∀ e ∈ front, e.hi ≤ position) ∧ (∀ e ∈ back, position < e.hi) ∧
      lastBefore? docs position = front.getLast? := by
  have falls : docs.Pairwise fun a b => decide (b.hi ≤ position) = true → decide (a.hi ≤ position) = true := by
    refine order.ends.imp fun {a b} rises reached => ?_
    rw [decide_eq_true_eq] at reached ⊢
    exact Nat.le_trans rises reached
  obtain ⟨front, back, rfl, all, none⟩ := exists_split falls
  refine ⟨front, back, rfl, fun e member => of_decide_eq_true (all e member), ?_, ?_⟩
  · intro e member
    exact Nat.lt_of_not_le (of_decide_eq_false (none e member))
  · rw [lastBefore?, partitionPoint_append all none]
    rcases List.eq_nil_or_concat' front with rfl | ⟨earlier, last, rfl⟩
    · rfl
    · have here : (earlier ++ [last] ++ back)[earlier.length]? = some last := by simp
      rw [List.length_append, List.length_singleton, List.getLast?_append_of_ne_nil _ (List.cons_ne_nil _ _)]
      exact here

/-- Among comments in order, the one found starts last of all that end before the position. -/
theorem lastBefore?_eq_some_iff (order : InOrder docs) : lastBefore? docs position = some d ↔
    d ∈ docs ∧ d.hi ≤ position ∧ ∀ e ∈ docs, e.hi ≤ position → e.lo ≤ d.lo := by
  have rises := order.rises
  obtain ⟨front, back, rfl, ended, beyond, found⟩ := exists_lastBefore?_eq_getLast? order position
  have inFront : ∀ e ∈ front ++ back, e.hi ≤ position → e ∈ front := by
    intro e given reached
    rcases List.mem_append.mp given with first | later
    · exact first
    · exact absurd reached (Nat.not_le_of_lt (beyond e later))
  have frontRises := (List.pairwise_append.mp rises).1
  rw [found, List.getLast?_eq_some_iff]
  constructor
  · rintro ⟨earlier, rfl⟩
    refine ⟨by simp, ended d (by simp), fun e given reached => ?_⟩
    rcases List.mem_append.mp (inFront e given reached) with before | same
    · exact Nat.le_of_lt ((List.pairwise_append.mp frontRises).2.2 e before d (by simp))
    · rw [List.mem_singleton.mp same]
  · rintro ⟨given, reached, latest⟩
    have first := inFront d given reached
    obtain ⟨earlier, last, rfl⟩ := List.eq_nil_or_concat' front |>.resolve_left (List.ne_nil_of_mem first)
    have notBefore := latest last (by simp) (ended last (by simp))
    rcases List.mem_append.mp first with before | same
    · have tooEarly := (List.pairwise_append.mp frontRises).2.2 d before last (by simp)
      omega
    · exact ⟨earlier, by rw [List.mem_singleton.mp same]⟩

/-- The text between must be cut out of the source at both ends and be made of modifiers. -/
theorem attached?_eq_some_iff {text : List Char} {start lo : Nat} : attached? docs text start lo = some d ↔
    lastBefore? docs lo = some d ∧ ∃ front gap rest, text = front ++ (gap ++ rest) ∧
      start + byteLength front = d.hi ∧ start + byteLength (front ++ gap) = lo ∧ IsModifierGap gap := by
  have modifiers : ∀ gap, ((Text.words gap).all fun w => gapWords.contains (String.ofList w)) = true ↔
      IsModifierGap gap := by
    intro gap
    rw [IsModifierGap, ← Text.forall_mem_words_iff isWord_of_gapWord, List.all_eq_true]
    simp only [List.contains_iff_mem]
  simp only [attached?, Option.bind_eq_bind, Option.bind_eq_some_iff, Option.ite_none_right_eq_some, modifiers,
    Text.slice?_eq_some_iff, offset?_eq_some_iff, Text.byteLength_append, Option.some.injEq]
  constructor
  · rintro ⟨c, last, _, before, _, behind, gap, ⟨front, rest, whole, rfl, rfl⟩, spaced, rfl⟩
    exact ⟨last, front, gap, rest, whole, before, behind, spaced⟩
  · rintro ⟨last, front, gap, rest, whole, before, behind, spaced⟩
    exact ⟨d, last, _, before, _, behind, gap, ⟨front, rest, whole, rfl, rfl⟩, spaced, rfl⟩

theorem lastBefore?_placedAt (start position : Nat) (docs : List DocComment) :
    lastBefore? (docs.map (placedAt start)) (start + position) =
      (lastBefore? docs position).map (placedAt start) := by
  rw [lastBefore?, partitionPoint_map]
  simp only [placedAt, Nat.add_le_add_iff_left]
  rw [lastBefore?]
  cases partitionPoint (fun c : DocComment => decide (c.hi ≤ position)) docs.toArray with
  | zero => rfl
  | succ n => exact List.getElem?_map

theorem attached?_placedAt (start lo : Nat) (docs : List DocComment) (text : List Char) :
    attached? (docs.map (placedAt start)) text start (start + lo) =
      (attached? docs text 0 lo).map (placedAt start) := by
  have offset : ∀ n, offset? start (start + n) = some n := fun n => offset?_eq_some_iff.mpr rfl
  have same : ∀ n, offset? 0 n = some n := fun n => offset?_eq_some_iff.mpr (Nat.zero_add n)
  rw [attached?, attached?, lastBefore?_placedAt]
  cases lastBefore? docs lo with
  | none => rfl
  | some c =>
    simp only [Option.map_some, Option.bind_eq_bind, Option.bind_some, placedAt, offset, same]
    cases Text.slice? text c.hi lo with
    | none => rfl
    | some gap =>
      simp only [Option.bind_some]
      split <;> rfl

/-- It makes no difference where a text starts: its declarations get the same comments. -/
theorem attached?_collect_placedAt (start lo : Nat) (cs : List Comment) (text : List Char) :
    attached? (collect (cs.map (Comment.placedAt start))) text start (start + lo) =
      (attached? (collect cs) text 0 lo).map (placedAt start) := by
  rw [collect_placedAt, attached?_placedAt]

/-- The doc comments among comments that do not overlap, in whatever order tables of comments yield these and however
often: they are collected by where they start, each once, and a declaration gets the last one that ends before it,
exactly if what stands between the two in the source is made of modifiers. Where the source starts, and that its
offsets have to be character boundaries, is said by the fronts that it has. -/
theorem attached?_collect {cs : List Comment} (apart : NonOverlapping cs) :
    (∀ ds, (∀ c, c ∈ ds ↔ c ∈ cs) → collect ds = collect cs) ∧
    (collect cs).Pairwise (fun a b => a.lo < b.lo) ∧
    (∀ d, d ∈ collect cs ↔ ∃ c ∈ cs, ofComment? c = some d) ∧
    ∀ text start lo d, attached? (collect cs) text start lo = some d ↔
      (d ∈ collect cs ∧ d.hi ≤ lo ∧ ∀ e ∈ collect cs, e.hi ≤ lo → e.lo ≤ d.lo) ∧
      ∃ front gap rest, text = front ++ (gap ++ rest) ∧ start + byteLength front = d.hi ∧
        start + byteLength (front ++ gap) = lo ∧ IsModifierGap gap := by
  refine ⟨fun ds same => collect_congr apart same, collect_rises cs, fun d => mem_collect_iff apart, ?_⟩
  intro text start lo d
  rw [attached?_eq_some_iff, lastBefore?_eq_some_iff (collect_inOrder apart)]

/-- The comments of `/** é */ /* n */ /** b */ declare const y`, a text that starts at 100, out of order and the last
one twice. -/
def shuffled : List Comment :=
  [⟨118, 126, "* b ".toList⟩, ⟨110, 117, " n ".toList⟩, ⟨100, 109, "* é ".toList⟩, ⟨118, 126, "* b ".toList⟩]

/-- Behind `declare`, which starts at 127, stands a declaration that gets the last comment. -/
theorem attached?_collect_shuffled : NonOverlapping shuffled ∧ collect shuffled.reverse = collect shuffled ∧
    attached? (collect shuffled) "/** é */ /* n */ /** b */ declare const y".toList 100 135 =
      some ⟨118, 126, []⟩ := by
  have apart : NonOverlapping shuffled := by
    constructor
    · simp [shuffled]
    · simp [shuffled]
  obtain ⟨same, -, member, attached⟩ := attached?_collect apart
  have last : (⟨118, 126, []⟩ : DocComment) ∈ collect shuffled :=
    (member _).mpr ⟨⟨118, 126, "* b ".toList⟩, by simp [shuffled], by decide⟩
  have latest : ∀ e ∈ collect shuffled, e.hi ≤ 135 → e.lo ≤ 118 := by
    intro e given _
    obtain ⟨c, listed, doc⟩ := (member e).mp given
    have starts : ∀ c ∈ shuffled, c.lo ≤ 118 := by simp [shuffled]
    rw [(span_of_ofComment? doc).1]
    exact starts c listed
  have modifier : IsModifierGap " declare ".toList := by
    have blank : Text.IsBlankText [' '] := by simp [Text.IsBlankText, Text.isBlank]
    have known : String.ofList "declare".toList ∈ gapWords := by simp [gapWords]
    have behind : IsModifierGap [' '] := .blanks blank
    exact Text.SpacedOf.word blank known (by simp [Text.isBlank]) behind
  refine ⟨apart, same _ (fun c => List.mem_reverse), ?_⟩
  rw [attached]
  exact ⟨⟨last, by decide, latest⟩, "/** é */ /* n */ /** b */".toList, " declare ".toList, "const y".toList,
    by decide, by decide, by decide, modifier⟩

end DocComment

end DocLocale.Source
