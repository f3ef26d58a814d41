import DocLocale.Text.Blank
import DocLocale.Text.Width

/-!
Greedy line wrapping by display width. A line that is too wide is cut at the last space that fits, or
inside a word when there is none, and each piece is trimmed.
-/

set_option autoImplicit false
set_option relaxedAutoImplicit false

namespace DocLocale.Translation

open Text

/-- How many leading characters fit into `limit` columns of which `used` are taken. -/
def fitFrom (limit used : Nat) : List Char → Nat
  | [] => 0
  | c :: cs =>
    if limit < used + charWidth c then 0 else fitFrom limit (used + charWidth c) cs + 1

/-- How many leading characters go on a line of `limit` columns; always at least one. -/
def fit (limit : Nat) (cs : List Char) : Nat := max 1 (fitFrom limit 0 cs)

/-- The text before and after the last space. -/
def splitLastSpace : List Char → Option (List Char × List Char)
  | [] => none
  | c :: cs =>
    match splitLastSpace cs with
    | some (before, after) => some (c :: before, after)
    | none => if c = ' ' then some ([], cs) else none

/-- Cuts a line that is too wide: at the space right behind what fits, else at the last space within
it, else right behind it. The space itself is dropped. -/
def cut (limit : Nat) (cs : List Char) : List Char × List Char :=
  let head := cs.take (fit limit cs)
  let rest := cs.drop (fit limit cs)
  match rest with
  | ' ' :: tail => (head, tail)
  | _ =>
    match splitLastSpace head with
    | some (before, after) => (before, after ++ rest)
    | none => (head, rest)

theorem length_splitLastSpace {cs before after : List Char}
    (h : splitLastSpace cs = some (before, after)) :
    before.length + after.length + 1 = cs.length := by
  induction cs generalizing before after with
  | nil => simp [splitLastSpace] at h
  | cons c cs ih =>
    simp only [splitLastSpace] at h
    split at h
    · rename_i b a e
      simp only [Option.some.injEq, Prod.mk.injEq] at h
      obtain ⟨rfl, rfl⟩ := h
      have := ih e
      simp only [List.length_cons]
      omega
    · split at h
      · simp only [Option.some.injEq, Prod.mk.injEq] at h
        obtain ⟨rfl, rfl⟩ := h
        simp
      · simp at h

theorem length_cut_lt (limit : Nat) {cs : List Char} (h : cs ≠ []) :
    (cut limit cs).2.length < cs.length := by
  have positive : 0 < cs.length := List.length_pos_iff.mpr h
  have one : 1 ≤ fit limit cs := Nat.le_max_left _ _
  have dropped : (cs.drop (fit limit cs)).length < cs.length := by
    simp only [List.length_drop]
    omega
  unfold cut
  dsimp only
  split
  · rename_i tail e
    have := congrArg List.length e
    simp only [List.length_cons] at this
    simp only
    omega
  · split
    · rename_i before after e
      have := length_splitLastSpace e
      simp only [List.length_append, List.length_drop, List.length_take] at *
      omega
    · exact dropped

theorem length_trim_le (cs : List Char) : (trim cs).length ≤ cs.length := by
  have start : (trimStart cs).length ≤ cs.length := (List.dropWhile_sublist _).length_le
  have finish : (trimEnd (trimStart cs)).length ≤ (trimStart cs).length := by
    simp only [trimEnd, List.length_reverse]
    simpa using (List.dropWhile_sublist (l := (trimStart cs).reverse) _).length_le
  exact Nat.le_trans finish start

theorem ne_nil_of_lt_width {limit : Nat} {cs : List Char} (h : limit < width cs) : cs ≠ [] := by
  rintro rfl
  simp [width, Text.measure] at h

/-- The lines of a trimmed text, none of them for an empty one. -/
def wrapLine (limit : Nat) (cs : List Char) : List (List Char) :=
  if limit < width cs then
    trimEnd (cut limit cs).1 :: wrapLine limit (trim (cut limit cs).2)
  else if cs = [] then [] else [cs]
termination_by cs.length
decreasing_by
  rename_i h
  exact Nat.lt_of_le_of_lt (length_trim_le _) (length_cut_lt limit (ne_nil_of_lt_width h))

/-- Wraps every line to `limit` columns. Blank lines vanish. -/
def wrap (limit : Nat) (lines : List String) : List String :=
  lines.flatMap fun line => (wrapLine limit (trim line.toList)).map String.ofList

end DocLocale.Translation
