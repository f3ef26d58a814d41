import DocLocale.Proofs.Source.Items
import DocLocale.Source.File

/-!
Files of rows. A file starts with its name in a line comment; main statement: the rows below it are read one after the
other, and the file attaches their comments as the rows tell.
-/

set_option autoImplicit false
set_option relaxedAutoImplicit false

namespace DocLocale.Source

open Text (byteLength IsBlankText)

/-! ### Line comments -/

private theorem skip_slashes (position : Nat) (lineBreak : Bool) (comments : List Comment) (rest : List Char) :
    skip position lineBreak comments .blanks ('/' :: '/' :: rest) = skip (position + 2) lineBreak comments .line rest :=
  rfl

private theorem skip_line (position : Nat) (lineBreak : Bool) (comments : List Comment) {front : List Char}
    (unbroken : ∀ c ∈ front, isLineEnd c = false) (rest : List Char) :
    skip position lineBreak comments .line (front ++ rest) =
      skip (position + byteLength front) lineBreak comments .line rest := by
  induction front generalizing position with
  | nil => rfl
  | cons c front ih =>
    rw [List.cons_append, skip.eq_def]
    simp only [unbroken c List.mem_cons_self, Bool.false_eq_true, if_false]
    rw [ih _ fun d member => unbroken d (List.mem_cons_of_mem c member), byteLength, Nat.add_assoc]

/-- Blanks that start with the end of a line. -/
structure IsBreak (cs : List Char) : Prop where
  blank : IsBlankText cs
  starts : ∃ c more, cs = c :: more ∧ isLineEnd c = true

theorem IsBreak.any {cs : List Char} (broken : IsBreak cs) : cs.any isLineEnd = true := by
  obtain ⟨c, more, rfl, ended⟩ := broken.starts
  rw [List.any_cons, ended, Bool.true_or]

/-- A line comment is passed over with the break behind it. -/
private theorem skip_lineComment (position : Nat) (lineBreak : Bool) (comments : List Comment) {body breaks : List Char}
    (unbroken : ∀ c ∈ body, isLineEnd c = false) (broken : IsBreak breaks) (rest : List Char) :
    skip position lineBreak comments .blanks ('/' :: '/' :: (body ++ breaks) ++ rest) =
      skip (position + byteLength ('/' :: '/' :: (body ++ breaks))) true comments .blanks rest := by
  have slash : '/'.utf8Size = 1 := by decide
  have blank := broken.blank
  obtain ⟨c, more, rfl, ended⟩ := broken.starts
  rw [List.cons_append, List.cons_append, skip_slashes, List.append_assoc, skip_line _ _ _ unbroken, List.cons_append,
    skip.eq_def]
  simp only [ended, if_true]
  rw [skip_blanks _ _ _ fun d member => isSpace_of_isBlank (blank d (List.mem_cons_of_mem c member)), Bool.true_or]
  congr 1
  simp only [byteLength, Text.byteLength_append, slash]
  omega

/-! ### Rows of a file -/

/-- What stands above the rows of a file: a comment between line breaks. -/
def headerChars (breaks title : List Char) : List Char := breaks ++ ('/' :: '/' :: (title ++ breaks))

section
variable {breaks title : List Char} (unbroken : ∀ c ∈ title, isLineEnd c = false) (broken : IsBreak breaks)

include unbroken broken

private theorem skip_header (rest : List Char) : skip 0 false [] .blanks (headerChars breaks title ++ rest) =
    skip (byteLength (headerChars breaks title)) true [] .blanks rest := by
  rw [headerChars, List.append_assoc, skip_blanks _ _ _ fun c member => isSpace_of_isBlank (broken.blank c member),
    skip_lineComment _ _ _ unbroken broken, Text.byteLength_append, Nat.zero_add]

private theorem start_eq (rest : List Char) : Cursor.start (headerChars breaks title ++ rest) =
    .behind 0 (byteLength (headerChars breaks title)) true [] rest := by
  rw [Cursor.behind, ← skip_header unbroken broken]
  unfold Cursor.start
  split
  · rename_i cs same
    obtain ⟨c, more, rfl, ended⟩ := broken.starts
    rw [headerChars, List.cons_append, List.cons_append, List.cons.injEq] at same
    rw [same.1] at ended
    cases ended
  · rfl

end

/-- Where a line breaks, it does not matter whether one was broken before. -/
private theorem behind_break {breaks : List Char} (broken : IsBreak breaks) (last pos : Nat) (comments : List Comment)
    (more : List Char) :
    Cursor.behind last pos true comments (breaks ++ more) = .behind last pos false comments (breaks ++ more) := by
  rw [(passes_blank [] pos broken.blank broken.any).behind, (passes_blank [] pos broken.blank broken.any).behind]

private theorem withoutMark_header {breaks : List Char} (broken : IsBreak breaks) (title rest : List Char) :
    withoutMark (headerChars breaks title ++ rest) = headerChars breaks title ++ rest := by
  obtain ⟨c, more, rfl, ended⟩ := broken.starts
  have other : c ≠ byteOrderMark := by
    rintro rfl
    exact absurd ended (by decide)
  rw [headerChars, List.cons_append, List.cons_append, withoutMark, if_neg other]

private theorem facing_end {breaks : List Char} (blank : IsBlankText breaks) (last pos : Nat) (comments : List Comment) :
    (Cursor.facing last pos comments breaks).token = .eof ∧ (Cursor.facing last pos comments breaks).comments = comments := by
  rw [Cursor.facing, ← List.append_nil breaks, skip_blanks _ _ _ fun c member => isSpace_of_isBlank (blank c member)]
  exact ⟨rfl, rfl⟩

private theorem fileStep_ends {ctx : Context} {k : Knot} {pos : Nat} {breaks : List Char} (blank : IsBlankText breaks) :
    Sees ctx (Grammar.fileStep k) pos breaks none := fun last comments => by
  simp only [Grammar.fileStep, Parse.run_bind, Parse.token, (facing_end blank last pos comments).1]
  rfl

namespace File

open Grammar

variable {ι : Type} {items : List ι} {row : ι → List Char} {given : ι → (Nat → Option DocComment) → Item → Prop}
  {breaks title more : List Char} {text : String}

/-- The rows of a file are read one after the other, and the file attaches their comments. -/
theorem parse?_rows (written : text.toList = headerChars breaks title ++ (items.flatMap row ++ breaks))
    (starts : items.flatMap row ++ breaks = breaks ++ more) (unbroken : ∀ c ∈ title, isLineEnd c = false)
    (broken : IsBreak breaks) (nonempty : items ≠ [])
    (reads : ∀ x ∈ items, RowReads (fileStep (knot (depth (byteLength text.toList)))) (row x) (given x)) :
    ∃ f, parse? text = some f ∧ GivesRows given items f.comment? f.items := by
  let ctx : Context := { text := text.toList, size := byteLength text.toList }
  let start := byteLength (headerChars breaks title)
  have fits : Fits ctx start (items.flatMap row ++ breaks) :=
    ⟨⟨headerChars breaks title, written, rfl⟩, by
      show start + _ ≤ byteLength text.toList
      rw [written, Text.byteLength_append _ (items.flatMap row ++ breaks)]⟩
  have borders : Borders ctx start start (items.flatMap row ++ breaks) :=
    ⟨headerChars breaks title, written, rfl, .inl rfl⟩
  obtain ⟨is, met, crosses, reveals⟩ := rows_crosses reads (fun pos => fileStep_ends broken.blank) nonempty fits borders
  have run : file (knot (depth (byteLength text.toList))) ctx (Cursor.start text.toList) =
      .ok is (.facing (start + byteLength (items.flatMap row)) (start + byteLength (items.flatMap row)) (met ++ []) breaks) := by
    rw [written, start_eq unbroken broken, starts, behind_break broken, ← starts, ← written]
    exact crosses.run 0 []
  have unmarked : withoutMark text.toList = text.toList := by rw [written, withoutMark_header broken]
  refine ⟨⟨text.toList, is, DocComment.collect met⟩, ?_, reveals _ met crosses.inside fun c member => member⟩
  simp only [parse?, unmarked]
  rw [run]
  simp only [(facing_end broken.blank _ _ _).2, List.append_nil]

end File

end DocLocale.Source
