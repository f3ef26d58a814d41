import DocLocale.Proofs.Source.Gaps
import DocLocale.Proofs.Source.InterfaceMembers
import Mathlib.Tactic.Common

/-!
Blocks of rows. A row is a gap and what the grammar reads behind it; rows of one block are read one after the other,
and each tells what comment belongs to it.
-/

set_option autoImplicit false
set_option relaxedAutoImplicit false

namespace DocLocale.Source

open Text (byteLength IsBlankText)

section
variable {α ι : Type} {ctx : Context} {step : Parse (Option α)} {start pos : Nat} {closing : List Char}

/-- A row that a step reads wherever it stands, with what it gives in the light of the comments around it. -/
structure RowReads (step : Parse (Option α)) (row : List Char) (gives : (Nat → Option DocComment) → α → Prop) :
    Prop where
  ends : EndsRow row
  reads : ∀ ctx start pos rest, Fits ctx pos (row ++ rest) → Borders ctx start pos (row ++ rest) →
    (∀ last comments, (Cursor.facing last pos comments (row ++ rest)).lo < pos + byteLength row) ∧
    ∃ a met, Crosses ctx step false pos row rest (some a) met ∧ Reveals ctx.text start met fun comment? => gives comment? a

theorem RowReads.mono {row : List Char} {gives gives' : (Nat → Option DocComment) → α → Prop} (reads : RowReads step row gives)
    (weaker : ∀ comment? a, gives comment? a → gives' comment? a) : RowReads step row gives' where
  ends := reads.ends
  reads ctx start pos rest fits borders := by
    obtain ⟨starts, a, met, crosses, reveals⟩ := reads.reads ctx start pos rest fits borders
    exact ⟨starts, a, met, crosses, reveals.mono (fun c member => member) fun comment? => weaker comment? a⟩

/-- Rows of a block, each with what is read from it in the light of the comments around them. -/
def GivesRows (gives : ι → (Nat → Option DocComment) → α → Prop) (items : List ι) (comment? : Nat → Option DocComment)
    (as : List α) : Prop := List.Forall₂ (fun a x => gives x comment? a) as items

private theorem rows_of_reads {row : ι → List Char} {gives : ι → (Nat → Option DocComment) → α → Prop}
    (ends : ∀ pos, Sees ctx step pos closing none) : ∀ {items : List ι} {pos : Nat},
    (∀ x ∈ items, RowReads step (row x) (gives x)) → items ≠ [] → Fits ctx pos (items.flatMap row ++ closing) →
    Borders ctx start pos (items.flatMap row ++ closing) →
    ∃ as met, Rows ctx step closing pos (items.flatMap row) as met ∧ Reveals ctx.text start met (GivesRows gives items · as)
  | [], _, _, nonempty, _, _ => absurd rfl nonempty
  | [x], pos, reads, _, fits, borders => by
    rw [List.flatMap_cons, List.flatMap_nil, List.append_nil] at fits borders ⊢
    have first := reads x (by simp)
    obtain ⟨front, s, shape, -⟩ := first.ends
    obtain ⟨starts, a, met, crosses, reveals⟩ := first.reads ctx start pos closing fits borders
    refine ⟨[a], met, .last (by simp [shape]) starts crosses (ends _), reveals.mono (fun c member => member) fun comment? given => ?_⟩
    exact .cons given .nil
  | x :: y :: xs, pos, reads, _, fits, borders => by
    rw [List.flatMap_cons, List.append_assoc] at fits borders
    rw [List.flatMap_cons]
    have first := reads x (by simp)
    obtain ⟨front, s, shape, -⟩ := first.ends
    obtain ⟨starts, a, met, crosses, reveals⟩ := first.reads ctx start pos _ fits borders
    obtain ⟨as, others, rows, later⟩ := rows_of_reads ends (fun z member => reads z (List.mem_cons_of_mem x member))
      (by simp) fits.drop (fits.borders first.ends)
    refine ⟨a :: as, others ++ met, .cons (by simp [shape]) starts crosses rows, fun hi all inside given => ?_⟩
    exact .cons (reveals hi all inside fun c member => given c (by simp [member]))
      (later hi all inside fun c member => given c (by simp [member]))

/-- Rows up to a closing text are read one after the other. -/
theorem rows_crosses {row : ι → List Char} {gives : ι → (Nat → Option DocComment) → α → Prop} {items : List ι}
    (reads : ∀ x ∈ items, RowReads step (row x) (gives x)) (ends : ∀ pos, Sees ctx step pos closing none)
    (nonempty : items ≠ []) (fits : Fits ctx pos (items.flatMap row ++ closing))
    (borders : Borders ctx start pos (items.flatMap row ++ closing)) :
    ∃ as met, Crosses ctx (Parse.repeated step) false pos (items.flatMap row) closing as met ∧
      Reveals ctx.text start met (GivesRows gives items · as) := by
  obtain ⟨as, met, rows, reveals⟩ := rows_of_reads ends reads nonempty fits borders
  exact ⟨as, met, rows.repeated fits, reveals⟩

/-- The same where there may be no rows. -/
theorem repeated_rows {row : ι → List Char} {gives : ι → (Nat → Option DocComment) → α → Prop} {items : List ι}
    (reads : ∀ x ∈ items, RowReads step (row x) (gives x)) (ends : ∀ pos, Sees ctx step pos closing none)
    (fits : Fits ctx pos (items.flatMap row ++ closing)) (borders : Borders ctx start pos (items.flatMap row ++ closing)) :
    ∃ as met, Moves ctx (Parse.repeated step) pos (items.flatMap row) closing as met ∧
      Reveals ctx.text start met (GivesRows gives items · as) := by
  by_cases empty : items = []
  · subst empty
    exact ⟨[], [], (Sees.repeated (ends pos)).moves, fun hi all inside given => .nil⟩
  · obtain ⟨as, met, crosses, reveals⟩ := rows_crosses reads ends empty fits borders
    exact ⟨as, met, crosses.moves, reveals⟩

/-- A step behind a gap reads a row. -/
theorem rowReads_of_gap {gap front : List Char} {tags : List String} {gives : (Nat → Option DocComment) → α → Prop}
    (gapped : GapReads gap tags) (ends : EndsRow front) (heads : ∀ rest, ∃ token, Heads (front ++ rest) token)
    (reads : ∀ ctx start pos rest, Fits ctx pos (front ++ rest) → ∃ a met,
      Crosses ctx step true pos front rest (some a) met ∧
      Reveals ctx.text start met fun comment? => tagsOf (comment? pos) = tags → gives comment? a) :
    RowReads step (gap ++ front) gives where
  ends := ends.behind gap
  reads ctx start pos rest fits borders := by
    rw [List.append_assoc] at fits borders
    obtain ⟨own, passes, told⟩ := gapped ctx start pos _ borders
    obtain ⟨a, met, crosses, reveals⟩ := reads ctx start _ rest fits.drop
    refine ⟨fun last comments => ?_, a, met ++ own, Crosses.behind_gap passes crosses, fun hi all inside given => ?_⟩
    · obtain ⟨token, first⟩ := heads rest
      obtain ⟨f, s, shape, -⟩ := ends
      have some : 0 < byteLength front := byteLength_pos (by simp [shape])
      have place : (Cursor.facing last pos comments (gap ++ front ++ rest)).lo = pos + byteLength gap := by
        rw [List.append_assoc]
        exact (congrArg Cursor.lo (passes.behind last false comments (front ++ rest))).trans (first.lo_behind _ _ _ _)
      rw [place, Text.byteLength_append]
      omega
    exact reveals hi all inside (fun c member => given c (by simp [member]))
      (told hi all inside fun c member => given c (by simp [member]))

/-- A step that is another parser in front of what it reads. -/
theorem Crosses.as_step {broken : Bool} {p : Parse α} {front rest : List Char} {a : α} {met : List Comment}
    (crosses : Crosses ctx p broken pos front rest a met)
    (stepped : ∀ last comments, step ctx (.behind last pos broken comments (front ++ rest)) =
      (p >>= fun a => pure (some a)) ctx (.behind last pos broken comments (front ++ rest))) :
    Crosses ctx step broken pos front rest (some a) met :=
  (crosses.bind_sees (.pure (some a) _ _)).congr stepped

end

namespace Grammar

variable {ctx : Context} {k : Knot} {gap : List Char} {tags : List String} {m : MemberText}

/-- One round of the members of a class. -/
def classStep (k : Knot) : Parse (Option Member) := do
  if ← Parse.isSymbol closeBrace then return none
  if (← Parse.token) == .eof then return none
  return some (← classMember k)

/-- What is read from a row with a member, and the tags that it gets. -/
def MemberText.Tagged (m : MemberText) (tags : List String) (comment? : Nat → Option DocComment) (x : Member) : Prop :=
  ∃ lo, m.form.Given lo x ∧ tagsOf (comment? lo) = tags

private theorem MemberForm.ends (form : MemberForm) : EndsRow form.chars := by
  have semicolon : EndsRow [';'] := ⟨[], ';', rfl, by decide⟩
  cases form with
  | property name isOptional type => exact semicolon.behind _
  | method name s => exact (semicolon.behind _).behind _
  | constructor ps => exact ((semicolon.behind _).behind _).behind _

private theorem MemberText.ends (m : MemberText) : EndsRow m.chars := by
  have own : EndsRow m.ownChars := by
    rw [ownChars]
    split
    · exact (m.form.ends.behind [' ']).behind _
    · exact m.form.ends
  rw [chars]
  split
  · exact (own.behind [' ']).behind _
  · exact own

/-- A row with a member of a class. -/
theorem classRow_reads (gapped : GapReads gap tags) (reads : m.form.ReadsInClass k m.isReadonly) :
    RowReads (classStep k) (gap ++ m.chars) (m.Tagged tags) := by
  refine rowReads_of_gap gapped m.ends (fun rest => ?_) fun ctx start pos rest fits => ?_
  · obtain ⟨token, heads, -⟩ := m.classMember_heads reads rest
    exact ⟨token, heads⟩
  · obtain ⟨token, heads, inside, more⟩ := m.classMember_heads reads rest
    obtain ⟨x, met, crosses, given⟩ := m.classMember_crosses reads fits
    refine ⟨x, met, crosses.as_step fun last comments => ?_, fun hi all inside listed tagged => ⟨pos, given, tagged⟩⟩
    simp [classStep, Parse.isSymbol, Parse.token, heads.token_behind, inside, more]

/-- A row with a member of an interface. -/
theorem interfaceRow_reads (gapped : GapReads gap tags) (reads : m.form.ReadsInInterface k m.isReadonly)
    (bound : m.isStatic = false) : RowReads (memberStep k) (gap ++ m.chars) (m.Tagged tags) := by
  refine rowReads_of_gap gapped m.ends (fun rest => ?_) fun ctx start pos rest fits => ?_
  · obtain ⟨token, heads, -⟩ := m.typeMember_heads reads bound rest
    exact ⟨token, heads⟩
  · obtain ⟨token, heads, starts⟩ := m.typeMember_heads reads bound rest
    have other : token ≠ .symbol closeBrace := by
      rintro rfl
      exact absurd starts (by decide)
    obtain ⟨x, met, crosses, given⟩ := m.typeMember_crosses reads bound fits
    refine ⟨x, met, crosses.as_step fun last comments => ?_, fun hi all inside listed tagged => ⟨pos, given, tagged⟩⟩
    simp [memberStep, Parse.isSymbol, heads.token_behind, other]

/-- A closing brace ends the rows of a class, an interface, or any block. -/
theorem classStep_ends {pos : Nat} {close rest : List Char} (blank : IsBlankText close) :
    Sees ctx (classStep k) pos (close ++ '\x7d' :: rest) none :=
  (closes_isSymbol blank).bind (.pure none _ _)

theorem memberStep_ends {pos : Nat} {close rest : List Char} (blank : IsBlankText close) :
    Sees ctx (memberStep k) pos (close ++ '\x7d' :: rest) none :=
  (closes_isSymbol blank).bind (.pure none _ _)

end Grammar

end DocLocale.Source
