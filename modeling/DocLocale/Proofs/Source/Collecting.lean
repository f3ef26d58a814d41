import DocLocale.Source.DocComment
import Mathlib.Data.List.Sort
import Mathlib.Tactic.Common

/-!
Doc comments collected from comments that come in any order and more than once. Sorting by where comments start
puts those that do not overlap one behind the other, with all copies of one comment next to each other. Main
statements: the doc comments collected are those among the comments, each once and in order; neither the order nor the
number of times that comments come makes a difference.
-/

set_option autoImplicit false
set_option relaxedAutoImplicit false

namespace DocLocale.Source

/-- Comments of one text. Each takes some bytes, and of two different ones one ends before the other starts. -/
structure NonOverlapping (cs : List Comment) : Prop where
  proper : ∀ c ∈ cs, c.lo < c.hi
  apart : ∀ c ∈ cs, ∀ d ∈ cs, c = d ∨ c.hi ≤ d.lo ∨ d.hi ≤ c.lo

theorem NonOverlapping.eq_of_lo {cs : List Comment} (apart : NonOverlapping cs) {c d : Comment} (first : c ∈ cs)
    (second : d ∈ cs) (same : c.lo = d.lo) : c = d := by
  have firstProper := apart.proper c first
  have secondProper := apart.proper d second
  rcases apart.apart c first d second with equal | before | behind
  · exact equal
  · omega
  · omega

theorem NonOverlapping.congr {cs ds : List Comment} (apart : NonOverlapping cs) (same : ∀ c, c ∈ ds ↔ c ∈ cs) :
    NonOverlapping ds := by
  constructor
  · intro c member
    exact apart.proper c ((same c).mp member)
  · intro c first d second
    exact apart.apart c ((same c).mp first) d ((same d).mp second)

namespace DocComment

theorem span_of_ofComment? {c : Comment} {d : DocComment} (doc : ofComment? c = some d) :
    d.lo = c.lo ∧ d.hi = c.hi := by
  unfold ofComment? at doc
  split at doc
  · cases doc
    exact ⟨rfl, rfl⟩
  · cases doc

section Distinct

variable {docs : List DocComment} {lo : Nat}

theorem distinctFrom_sublist : (distinctFrom lo docs).Sublist docs := by
  fun_induction distinctFrom lo docs with
  | case1 lo => exact .slnil
  | case2 d docs ih => exact ih.cons d
  | case3 lo d docs other ih => exact ih.cons_cons d

theorem distinct_sublist : (distinct docs).Sublist docs := by
  cases docs with
  | nil => exact .slnil
  | cons d docs => exact distinctFrom_sublist.cons_cons d

/-- The starts that are left rise from one behind the last one. -/
private theorem distinctFrom_rises (order : docs.Pairwise fun a b => a.lo ≤ b.lo) (low : ∀ d ∈ docs, lo ≤ d.lo) :
    (∀ d ∈ distinctFrom lo docs, lo < d.lo) ∧ (distinctFrom lo docs).Pairwise fun a b => a.lo < b.lo := by
  fun_induction distinctFrom lo docs with
  | case1 lo => exact ⟨fun d member => absurd member List.not_mem_nil, .nil⟩
  | case2 d docs ih =>
    obtain ⟨-, later⟩ := List.pairwise_cons.mp order
    exact ih later fun e member => low e (List.mem_cons_of_mem d member)
  | case3 lo d docs other ih =>
    obtain ⟨least, later⟩ := List.pairwise_cons.mp order
    obtain ⟨above, rises⟩ := ih later least
    have first : lo < d.lo := by
      have atLeast := low d List.mem_cons_self
      omega
    constructor
    · intro e member
      rcases List.mem_cons.mp member with rfl | behind
      · exact first
      · exact Nat.lt_trans first (above e behind)
    · exact List.pairwise_cons.mpr ⟨above, rises⟩

theorem distinct_rises (order : docs.Pairwise fun a b => a.lo ≤ b.lo) :
    (distinct docs).Pairwise fun a b => a.lo < b.lo := by
  cases docs with
  | nil => exact .nil
  | cons d docs =>
    obtain ⟨least, later⟩ := List.pairwise_cons.mp order
    obtain ⟨above, rises⟩ := distinctFrom_rises later least
    exact List.pairwise_cons.mpr ⟨above, rises⟩

private theorem exists_mem_distinctFrom (lo : Nat) {d : DocComment} (member : d ∈ docs) :
    d.lo = lo ∨ ∃ e ∈ distinctFrom lo docs, e.lo = d.lo := by
  fun_induction distinctFrom lo docs with
  | case1 lo => cases member
  | case2 c docs ih =>
    rcases List.mem_cons.mp member with rfl | behind
    · exact .inl rfl
    · exact ih behind
  | case3 lo c docs other ih =>
    right
    rcases List.mem_cons.mp member with rfl | behind
    · exact ⟨d, List.mem_cons_self, rfl⟩
    · rcases ih behind with same | ⟨e, kept, same⟩
      · exact ⟨c, List.mem_cons_self, same.symm⟩
      · exact ⟨e, List.mem_cons_of_mem c kept, same⟩

/-- No start is lost. -/
theorem exists_mem_distinct {d : DocComment} (member : d ∈ docs) : ∃ e ∈ distinct docs, e.lo = d.lo := by
  cases docs with
  | nil => cases member
  | cons c docs =>
    rcases List.mem_cons.mp member with rfl | behind
    · exact ⟨d, List.mem_cons_self, rfl⟩
    · rcases exists_mem_distinctFrom c.lo behind with same | ⟨e, kept, same⟩
      · exact ⟨c, List.mem_cons_self, same.symm⟩
      · exact ⟨e, List.mem_cons_of_mem c kept, same⟩

end Distinct

theorem collect_rises (cs : List Comment) : (collect cs).Pairwise fun a b => a.lo < b.lo := by
  apply distinct_rises
  apply List.Pairwise.imp fun {a b} first => of_decide_eq_true first
  apply List.pairwise_mergeSort
  · intro a b c first second
    simp only [decide_eq_true_eq] at *
    omega
  · intro a b
    simp only [Bool.or_eq_true, decide_eq_true_eq]
    omega

/-- The collected doc comments are those among the comments. -/
theorem mem_collect_iff {cs : List Comment} (apart : NonOverlapping cs) {d : DocComment} :
    d ∈ collect cs ↔ ∃ c ∈ cs, ofComment? c = some d := by
  have found : ∀ {e : DocComment}, e ∈ collect cs → ∃ c ∈ cs, ofComment? c = some e := by
    intro e member
    have sorted := distinct_sublist.subset member
    rwa [List.mem_mergeSort, List.mem_filterMap] at sorted
  constructor
  · exact found
  · rintro ⟨c, member, doc⟩
    have given : d ∈ (cs.filterMap ofComment?).mergeSort fun a b => a.lo ≤ b.lo :=
      List.mem_mergeSort.mpr (List.mem_filterMap.mpr ⟨c, member, doc⟩)
    obtain ⟨e, kept, start⟩ := exists_mem_distinct given
    -- What was kept for this start comes from a comment that starts there too, so from the same one.
    obtain ⟨c', member', doc'⟩ := found kept
    have same : c = c' := by
      apply apart.eq_of_lo member member'
      rw [← (span_of_ofComment? doc).1, ← (span_of_ofComment? doc').1, start]
    subst same
    obtain rfl : d = e := Option.some.inj (doc.symm.trans doc')
    exact kept

/-- Neither the order of the comments nor how often each comes makes a difference. -/
theorem collect_congr {cs ds : List Comment} (apart : NonOverlapping cs) (same : ∀ c, c ∈ ds ↔ c ∈ cs) :
    collect ds = collect cs := by
  have irreflexive : Std.Irrefl fun a b : DocComment => a.lo < b.lo := ⟨fun a => Nat.lt_irrefl a.lo⟩
  have asymmetric : Std.Asymm fun a b : DocComment => a.lo < b.lo := ⟨fun a b => Nat.lt_asymm⟩
  apply (collect_rises ds).eq_of_mem_iff (collect_rises cs)
  intro d
  rw [mem_collect_iff apart, mem_collect_iff (apart.congr same)]
  simp only [same]

/-- Doc comments in order: each takes some bytes and ends before the next one starts. -/
structure InOrder (docs : List DocComment) : Prop where
  proper : ∀ d ∈ docs, d.lo < d.hi
  apart : docs.Pairwise fun a b => a.hi ≤ b.lo

theorem InOrder.ends {docs : List DocComment} (order : InOrder docs) : docs.Pairwise fun a b => a.hi ≤ b.hi := by
  refine order.apart.imp_of_mem fun {a b} _ second before => ?_
  have proper := order.proper b second
  omega

theorem InOrder.rises {docs : List DocComment} (order : InOrder docs) : docs.Pairwise fun a b => a.lo < b.lo := by
  refine order.apart.imp_of_mem fun {a b} first _ before => ?_
  have proper := order.proper a first
  omega

/-- Sorting by starts sorts by ends, too. -/
theorem collect_inOrder {cs : List Comment} (apart : NonOverlapping cs) : InOrder (collect cs) := by
  have proper : ∀ d ∈ collect cs, d.lo < d.hi := by
    intro d member
    obtain ⟨c, given, doc⟩ := (mem_collect_iff apart).mp member
    rw [(span_of_ofComment? doc).1, (span_of_ofComment? doc).2]
    exact apart.proper c given
  refine ⟨proper, (collect_rises cs).imp_of_mem fun {a b} first second rises => ?_⟩
  obtain ⟨c, given, doc⟩ := (mem_collect_iff apart).mp first
  obtain ⟨c', given', doc'⟩ := (mem_collect_iff apart).mp second
  obtain ⟨lo, hi⟩ := span_of_ofComment? doc
  obtain ⟨lo', hi'⟩ := span_of_ofComment? doc'
  have proper' := proper b second
  rcases apart.apart c given c' given' with rfl | before | behind
  · omega
  · omega
  · omega

end DocComment

section Placing

variable (start : Nat)

/-- A comment of a text that starts at `start`, given by where it stands in the text. -/
def Comment.placedAt (c : Comment) : Comment := ⟨start + c.lo, start + c.hi, c.body⟩

def TagMark.placedAt (t : TagMark) : TagMark := ⟨t.name, start + t.position⟩

def DocComment.placedAt (d : DocComment) : DocComment :=
  ⟨start + d.lo, start + d.hi, d.tags.map (TagMark.placedAt start)⟩

theorem lineTag?_placedAt (position : Nat) (line : List Char) :
    lineTag? (start + position) line = (lineTag? position line).map (TagMark.placedAt start) := by
  simp only [lineTag?, Nat.add_assoc]
  split
  · rw [Option.map_map]
    rfl
  · rfl

theorem lineTags_placedAt (position : Nat) (lines : List (List Char)) :
    lineTags (start + position) lines = (lineTags position lines).map (TagMark.placedAt start) := by
  induction lines generalizing position with
  | nil => rfl
  | cons line lines ih =>
    have later := ih (position + Text.byteLength line + 1)
    rw [lineTags, lineTags, List.map_append, ← later, lineTag?_placedAt, Option.toList_map]
    simp only [Nat.add_assoc]

namespace DocComment

theorem ofComment?_placedAt (c : Comment) :
    ofComment? (c.placedAt start) = (ofComment? c).map (placedAt start) := by
  simp only [ofComment?, Comment.placedAt, Nat.add_assoc, lineTags_placedAt]
  split <;> rfl

theorem distinctFrom_placedAt (lo : Nat) (docs : List DocComment) :
    distinctFrom (start + lo) (docs.map (placedAt start)) = (distinctFrom lo docs).map (placedAt start) := by
  induction docs generalizing lo with
  | nil => rfl
  | cons d docs ih =>
    have same : start + d.lo = start + lo ↔ d.lo = lo := Nat.add_left_cancel_iff
    rw [List.map_cons, distinctFrom, distinctFrom]
    simp only [placedAt, same]
    split
    · exact ih lo
    · exact congrArg _ (ih d.lo)

/-- It makes no difference where the text of the comments starts. -/
theorem collect_placedAt (cs : List Comment) :
    collect (cs.map (Comment.placedAt start)) = (collect cs).map (placedAt start) := by
  have docs : (cs.map (Comment.placedAt start)).filterMap ofComment? =
      (cs.filterMap ofComment?).map (placedAt start) := by
    rw [List.filterMap_map, List.map_filterMap]
    exact List.filterMap_congr fun c _ => ofComment?_placedAt start c
  have order : ((cs.filterMap ofComment?).map (placedAt start)).mergeSort (fun a b => a.lo ≤ b.lo) =
      ((cs.filterMap ofComment?).mergeSort fun a b => a.lo ≤ b.lo).map (placedAt start) := by
    symm
    apply List.map_mergeSort
    intro a _ b _
    simp only [placedAt, Nat.add_le_add_iff_left]
  rw [collect, docs, order, collect]
  cases (cs.filterMap ofComment?).mergeSort fun a b => a.lo ≤ b.lo with
  | nil => rfl
  | cons d docs => exact congrArg _ (distinctFrom_placedAt start d.lo docs)

end DocComment

end Placing

end DocLocale.Source
