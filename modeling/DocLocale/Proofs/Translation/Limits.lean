import DocLocale.Proofs.Text.Swelling
import DocLocale.Proofs.Translation.WrapLines

/-!
How wide the pieces of a wrapped line can be. The loop goes on while the text is too wide, measured as a whole; where
to cut is decided by its characters one by one. The two measures part at control characters and emoji selectors, so a
piece that was cut off may be too wide, by at most one column for each of these.
-/

set_option autoImplicit false
set_option relaxedAutoImplicit false

namespace DocLocale.Translation

open Text

/-- A text and the credit of its context take no more columns than its characters one by one and those that swell. -/
private theorem measure_le (cs : List Char) :
    (Text.measure cs).1 + credit (Text.measure cs).2 ≤ summedWidth cs + swelling cs := by
  induction cs with
  | nil => decide
  | cons c cs ih =>
    have step := widthBefore_le c (Text.measure cs).2
    rw [Text.measure, summedWidth, swelling, List.countP_cons]
    rw [swelling] at ih
    dsimp only
    omega

/-- A text is wider than its characters one by one by at most one column for each control character and each emoji
selector. -/
theorem width_le_add_swelling (cs : List Char) : width cs ≤ summedWidth cs + swelling cs := by
  have whole := measure_le cs
  have saved := credit_nonneg (Text.measure cs).2
  unfold width
  omega

/-- What a cut takes stands at the front of what fits. -/
theorem cut_initial (limit : Nat) (cs : List Char) : (cut limit cs).1 <+: cs.take (fit limit cs) := by
  rcases cut_cases limit cs with ⟨head, tail, halves, -, taken⟩ | ⟨before, after, rest, halves, -, taken, -⟩ |
    ⟨head, rest, halves, -, taken, -⟩
  · rw [halves, taken, List.prefix_iff_eq_append, List.drop_length, List.append_nil]
  · rw [halves, taken]
    exact List.prefix_append _ _
  · rw [halves, taken, List.prefix_iff_eq_append, List.drop_length, List.append_nil]

/-- What is cut off a line is a single character at most, or within the limit but for the characters that swell. -/
theorem trimEnd_cut_within (limit : Nat) (cs : List Char) :
    (trimEnd (cut limit cs).1).length ≤ 1 ∨
      width (trimEnd (cut limit cs).1) ≤ limit + swelling (trimEnd (cut limit cs).1) := by
  have initial := (trimEnd_initial (cut limit cs).1).trans (cut_initial limit cs)
  refine (summedWidth_take_fit limit cs).imp (fun single => ?_) fun narrow => ?_
  · exact Nat.le_trans initial.length_le single
  · have swollen := width_le_add_swelling (trimEnd (cut limit cs).1)
    have part := summedWidth_le_of_initial initial
    omega

theorem length_or_width_le_of_mem_wrapLine (limit : Nat) (cs : List Char) :
    ∀ piece ∈ wrapLine limit cs, piece.length ≤ 1 ∨ width piece ≤ limit + swelling piece := by
  fun_induction wrapLine limit cs with
  | case1 cs wide ih =>
    intro piece member
    rcases List.mem_cons.mp member with rfl | later
    · exact trimEnd_cut_within limit cs
    · exact ih piece later
  | case2 => simp
  | case3 cs narrow nonempty =>
    intro piece member
    rw [List.mem_singleton.mp member]
    exact .inr (Nat.le_trans (Nat.le_of_not_lt narrow) (Nat.le_add_right _ _))

/-- A piece of a wrapped text is within the limit, but for one column for each control character and each emoji
selector in it, or a single character that is wider than the limit. -/
theorem wrap_width_le (limit : Nat) (lines : List String) :
    ∀ piece ∈ wrap limit lines,
      width piece.toList ≤ limit + swelling piece.toList ∨ ∃ c, piece.toList = [c] ∧ limit < width [c] := by
  intro piece member
  by_cases within : width piece.toList ≤ limit + swelling piece.toList
  · exact .inl within
  · right
    obtain ⟨line, -, inside⟩ := List.mem_flatMap.mp member
    obtain ⟨chars, present, rfl⟩ := List.mem_map.mp inside
    rw [String.toList_ofList] at within ⊢
    have short := (length_or_width_le_of_mem_wrapLine limit _ chars present).resolve_right within
    obtain ⟨c, rest, rfl, -⟩ := (wrapLine_pieces limit (inked_trim _) chars present).1
    obtain rfl : rest = [] := List.length_eq_zero_iff.mp (Nat.le_zero.mp (Nat.le_of_succ_le_succ short))
    exact ⟨c, rfl, by omega⟩

/-- Two lines that stay whole although they are wider than the limit: only the line as a whole has a column for each
tab, and a second one for each emoji with a selector. -/
theorem wrap_width_le_swollen :
    wrap 6 ["ab\tcd\tef"] = ["ab\tcd\tef"] ∧ width "ab\tcd\tef".toList = 6 + swelling "ab\tcd\tef".toList ∧
      wrap 4 ["☺\uFE0F☺\uFE0F☺\uFE0F"] = ["☺\uFE0F☺\uFE0F☺\uFE0F"] ∧
      4 < width "☺\uFE0F☺\uFE0F☺\uFE0F".toList ∧
      width "☺\uFE0F☺\uFE0F☺\uFE0F".toList ≤ 4 + swelling "☺\uFE0F☺\uFE0F☺\uFE0F".toList := by
  have tabbed : wrap 6 ["ab\tcd\tef"] = ["ab\tcd\tef"] := by decide +kernel
  have smiles : wrap 4 ["☺\uFE0F☺\uFE0F☺\uFE0F"] = ["☺\uFE0F☺\uFE0F☺\uFE0F"] := by decide +kernel
  refine ⟨tabbed, by decide +kernel, smiles, by decide +kernel, ?_⟩
  have bound := wrap_width_le 4 ["☺\uFE0F☺\uFE0F☺\uFE0F"] "☺\uFE0F☺\uFE0F☺\uFE0F" (by rw [smiles]; simp)
  exact bound.resolve_right fun ⟨c, single, _⟩ => by cases single

end DocLocale.Translation
