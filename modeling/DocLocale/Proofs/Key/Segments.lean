import DocLocale.Key.Segment
import DocLocale.Proofs.Text.Splitting

/-!
Segments of names. A hyphen in a segment only ever announces a capital, so a name without hyphens is given back
by its segment up to the case of the first letter. Of everything but small letters and hyphens a segment holds
what its name holds.
-/

set_option autoImplicit false
set_option relaxedAutoImplicit false

namespace DocLocale.Key

/-- The characters of a name, the first one lowered. -/
def lowered (name : String) : List Char :=
  match name.toList with
  | [] => []
  | c :: cs => c.toLower :: cs

private theorem eq_of_toLower_eq {c d : Char} (left : c.isUpper = true) (right : d.isUpper = true)
    (same : c.toLower = d.toLower) : c = d := by
  unfold Char.isUpper at left right
  unfold Char.toLower at same
  have capital : c.val ≥ 'A'.val ∧ c.val ≤ 'Z'.val := by simpa using left
  have capital' : d.val ≥ 'A'.val ∧ d.val ≤ 'Z'.val := by simpa using right
  rw [dif_pos capital, dif_pos capital', Char.mk.injEq] at same
  exact Char.ext (UInt32.add_left_inj _ |>.mp same)

/-- Characters that are no hyphens are told from each other by what becomes of them, whatever follows. -/
private theorem hyphenate_append_inj {c d : Char} {cs ds : List Char} (left : c ≠ '-') (right : d ≠ '-')
    (same : hyphenate c ++ cs = hyphenate d ++ ds) : c = d ∧ cs = ds := by
  unfold hyphenate at same
  by_cases upper : c.isUpper = true
  · by_cases upper' : d.isUpper = true
    · simp only [upper, upper', if_true, List.cons_append, List.nil_append, List.cons.injEq, true_and] at same
      exact ⟨eq_of_toLower_eq upper upper' same.1, same.2⟩
    · simp only [upper, upper', if_true, Bool.false_eq_true, if_false, List.cons_append, List.nil_append,
        List.cons.injEq] at same
      exact absurd same.1.symm right
  · by_cases upper' : d.isUpper = true
    · simp only [upper, upper', if_true, Bool.false_eq_true, if_false, List.cons_append, List.nil_append,
        List.cons.injEq] at same
      exact absurd same.1 left
    · simpa [upper, upper'] using same

private theorem hyphenate_ne_nil (c : Char) : hyphenate c ≠ [] := by
  unfold hyphenate
  split <;> simp

theorem flatMap_hyphenate_inj {as bs : List Char} (left : '-' ∉ as) (right : '-' ∉ bs)
    (same : as.flatMap hyphenate = bs.flatMap hyphenate) : as = bs := by
  induction as generalizing bs with
  | nil =>
    cases bs with
    | nil => rfl
    | cons d bs =>
      rw [List.flatMap_nil, List.flatMap_cons] at same
      exact absurd (List.append_eq_nil_iff.mp same.symm).1 (hyphenate_ne_nil d)
  | cons c as ih =>
    cases bs with
    | nil =>
      rw [List.flatMap_nil, List.flatMap_cons] at same
      exact absurd (List.append_eq_nil_iff.mp same).1 (hyphenate_ne_nil c)
    | cons d bs =>
      simp only [List.mem_cons, not_or] at left right
      rw [List.flatMap_cons, List.flatMap_cons] at same
      obtain ⟨first, rest⟩ := hyphenate_append_inj (Ne.symm left.1) (Ne.symm right.1) same
      rw [first, ih left.2 right.2 rest]

/-- Names without hyphens have the same segment exactly if they differ in the case of the first letter at
most. -/
theorem segment_eq_iff {a b : String} (left : '-' ∉ a.toList) (right : '-' ∉ b.toList) :
    segment a = segment b ↔ lowered a = lowered b := by
  have chars : segment a = segment b ↔ segmentChars a.toList = segmentChars b.toList := String.ofList_inj
  rw [chars]
  unfold lowered
  cases first : a.toList with
  | nil =>
    cases second : b.toList with
    | nil => exact Iff.rfl
    | cons d ds => simp [segmentChars]
  | cons c cs =>
    cases second : b.toList with
    | nil => simp [segmentChars]
    | cons d ds =>
      rw [first] at left
      rw [second] at right
      simp only [List.mem_cons, not_or] at left right
      simp only [segmentChars, List.cons.injEq]
      constructor
      · rintro ⟨start, rest⟩
        exact ⟨start, flatMap_hyphenate_inj left.2 right.2 rest⟩
      · rintro ⟨start, rfl⟩
        exact ⟨start, rfl⟩

/-- Lowering a character gives a small letter or leaves the character alone. -/
private theorem eq_of_toLower_not_lower {c : Char} (large : c.toLower.isLower = false) : c.toLower = c := by
  by_cases capital : c.val ≥ 'A'.val ∧ c.val ≤ 'Z'.val
  · have bounds : 65 ≤ c.val.toNat ∧ c.val.toNat ≤ 90 := capital
    have moved : (c.val + 32).toNat = c.val.toNat + 32 := by
      rw [UInt32.toNat_add]
      exact Nat.mod_eq_of_lt (by change c.val.toNat + 32 < 4294967296; omega)
    have small : 97 ≤ (c.val + 32).toNat ∧ (c.val + 32).toNat ≤ 122 := by omega
    unfold Char.toLower Char.isLower at large
    rw [dif_pos capital, Bool.and_eq_false_iff, decide_eq_false_iff_not, decide_eq_false_iff_not] at large
    rcases large with below | above
    · exact absurd small.1 below
    · exact absurd small.2 above
  · exact dif_neg capital

/-- What a segment holds besides small letters and hyphens it takes from its name. -/
theorem mem_of_mem_segment {x : Char} {name : String} (member : x ∈ (segment name).toList)
    (other : x ≠ '-') (large : x.isLower = false) : x ∈ name.toList := by
  have kept : ∀ c : Char, x = c.toLower → x = c := by
    rintro c rfl
    exact eq_of_toLower_not_lower large
  rw [segment, String.toList_ofList] at member
  cases chars : name.toList with
  | nil =>
    rw [chars] at member
    cases member
  | cons c cs =>
    rw [chars, segmentChars, List.mem_cons, List.mem_flatMap] at member
    rcases member with first | ⟨d, inside, behind⟩
    · rw [kept c first]
      exact List.mem_cons_self
    · refine List.mem_cons_of_mem _ ?_
      unfold hyphenate at behind
      split at behind
      · simp only [List.mem_cons, other, List.not_mem_nil, or_false, false_or] at behind
        rw [kept d behind]
        exact inside
      · rw [List.mem_singleton.mp behind]
        exact inside

theorem segment_eq_empty_iff {name : String} : segment name = "" ↔ name = "" := by
  have chars : segment name = "" ↔ segmentChars name.toList = [] := by
    rw [segment, ← String.toList_eq_nil_iff, String.toList_ofList]
  rw [chars, ← String.toList_eq_nil_iff]
  cases name.toList <;> simp [segmentChars]

/-- Of everything but dots, hyphens and small letters the key of a node holds what names hold. -/
theorem exists_name_of_mem_ofNode {t : Tree} {id : NodeId} {x : Char} (member : x ∈ (ofNode t id).toList)
    (dot : x ≠ '.') (hyphen : x ≠ '-') (large : x.isLower = false) : ∃ i, x ∈ (t.name i).toList := by
  rcases Text.mem_of_mem_intercalate member with same | ⟨part, present, inside⟩
  · exact absurd (List.mem_singleton.mp same) dot
  · obtain ⟨i, -, rfl⟩ := List.mem_map.mp present
    exact ⟨i, mem_of_mem_segment inside hyphen large⟩

end DocLocale.Key
