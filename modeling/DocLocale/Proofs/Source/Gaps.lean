import DocLocale.Proofs.Source.Attaching
import DocLocale.Proofs.Source.Crossing
import Mathlib.Tactic.Common

/-!
Gaps in front of rows of a text: blanks that break the line, with a doc comment in them or without one. What a
declaration gets is told by the gap in front of it: its comment if there is one, and nothing if the row before ends
with a mark that no comment reaches over.
-/

set_option autoImplicit false
set_option relaxedAutoImplicit false

namespace DocLocale.Source

open Text (byteLength IsBlankText)

/-! ## Passing gaps -/

theorem isSpace_of_isBlank {c : Char} (blank : Text.isBlank c = true) : isSpace c = true ∧ c ≠ '/' := by
  refine ⟨by simp [isSpace, blank], ?_⟩
  rintro rfl
  exact absurd blank (by decide)

/-- A gap is passed over, with the comments `own` in it and a broken line behind it. -/
structure Passes (text gap : List Char) (pos : Nat) (own : List Comment) : Prop where
  inside : Inside text pos (pos + byteLength gap) own
  skips : ∀ lineBreak comments rest, skip pos lineBreak comments .blanks (gap ++ rest) =
    skip (pos + byteLength gap) true (own ++ comments) .blanks rest

section
variable {text gap : List Char} {pos : Nat} {own : List Comment}

theorem Passes.behind (passes : Passes text gap pos own) (last : Nat) (broken : Bool) (comments : List Comment)
    (rest : List Char) : Cursor.behind last pos broken comments (gap ++ rest) =
      .behind last (pos + byteLength gap) true (own ++ comments) rest := by
  rw [Cursor.behind, passes.skips, Cursor.behind]

theorem passes_blank (text : List Char) (pos : Nat) (blank : IsBlankText gap) (broken : gap.any isLineEnd = true) :
    Passes text gap pos [] := by
  refine ⟨inside_nil _ _ _, fun lineBreak comments rest => ?_⟩
  rw [skip_blanks _ _ _ (fun c member => isSpace_of_isBlank (blank c member)), broken, Bool.or_true, List.nil_append]

theorem Crosses.behind_gap {α : Type} {ctx : Context} {p : Parse α} {front rest : List Char} {a : α}
    {met : List Comment} (passes : Passes ctx.text gap pos own)
    (crosses : Crosses ctx p true (pos + byteLength gap) front rest a met) :
    Crosses ctx p false pos (gap ++ front) rest a (met ++ own) where
  inside := passes.inside.behind crosses.inside
  run last comments := by
    rw [List.append_assoc, passes.behind, crosses.run, Text.byteLength_append, Nat.add_assoc, List.append_assoc]

end

/-! ## Closing braces -/

section
variable {ctx : Context} {pos : Nat} {close rest : List Char}

private theorem facing_blanks (blank : IsBlankText close) (last : Nat) (comments : List Comment) (cs : List Char) :
    ∃ broken, Cursor.facing last pos comments (close ++ cs) =
      .behind last (pos + byteLength close) broken comments cs := by
  refine ⟨false || close.any isLineEnd, ?_⟩
  rw [Cursor.facing, skip_blanks _ _ _ (fun c member => isSpace_of_isBlank (blank c member)), Cursor.behind]

private theorem lexes_brace (rest : List Char) : Lexes ['\x7d'] (.symbol "\x7d") rest := lexes_mark (by simp [marks]) rest

theorem closes_isSymbol (blank : IsBlankText close) :
    Sees ctx (Parse.isSymbol "\x7d") pos (close ++ '\x7d' :: rest) true := by
  intro last comments
  obtain ⟨broken, moved⟩ := facing_blanks blank last comments ('\x7d' :: rest)
  have shown := (lexes_brace rest).heads.token_behind last (pos + byteLength close) broken comments
  rw [List.singleton_append] at shown
  rw [moved, Parse.isSymbol, shown, beq_self_eq_true]

private theorem closes_next {p : Parse Unit} {q : Parse Bool} (blank : IsBlankText close)
    (moves : ∀ c : Cursor, c.token = .symbol "\x7d" → p ctx c = .ok () c.next ∧ q ctx c = .ok true c.next) :
    Takes ctx p pos (close ++ ['\x7d']) rest () ∧ Takes ctx q pos (close ++ ['\x7d']) rest true := by
  have steps : ∀ last comments, ∃ c : Cursor, Cursor.facing last pos comments (close ++ ['\x7d'] ++ rest) = c ∧
      c.token = .symbol "\x7d" ∧ c.next = .facing (pos + byteLength (close ++ ['\x7d']))
        (pos + byteLength (close ++ ['\x7d'])) comments rest := by
    intro last comments
    obtain ⟨broken, moved⟩ := facing_blanks blank last comments (['\x7d'] ++ rest)
    rw [List.append_assoc, moved]
    refine ⟨_, rfl, (lexes_brace rest).heads.token_behind _ _ _ _, ?_⟩
    rw [(lexes_brace rest).next_behind, Text.byteLength_append, Nat.add_assoc]
  constructor
  · intro last comments
    obtain ⟨c, place, shown, next⟩ := steps last comments
    rw [place, (moves c shown).1, next]
  · intro last comments
    obtain ⟨c, place, shown, next⟩ := steps last comments
    rw [place, (moves c shown).2, next]

/-- Behind the rows of a block stands its closing brace. -/
theorem closes_block (blank : IsBlankText close) :
    Takes ctx (Parse.expect "\x7d") pos (close ++ ['\x7d']) rest () ∧
      Takes ctx (Parse.eat "\x7d") pos (close ++ ['\x7d']) rest true := by
  refine closes_next blank fun c shown => ?_
  rw [Parse.expect, Parse.eat, shown, if_pos (beq_self_eq_true _), if_pos (beq_self_eq_true _)]
  exact ⟨rfl, rfl⟩

end

/-! ## What declarations get -/

/-- Marks that end the rows of a block. -/
def rowEnds : List Char := [';', ',', '\x7b', '\x7d']

/-- A text that ends with one of these marks. -/
def EndsRow (cs : List Char) : Prop := ∃ front s, cs = front ++ [s] ∧ s ∈ rowEnds

theorem EndsRow.behind {cs : List Char} (ends : EndsRow cs) (front : List Char) : EndsRow (front ++ cs) := by
  obtain ⟨f, s, rfl, stop⟩ := ends
  exact ⟨front ++ f, s, by rw [List.append_assoc], stop⟩

/-- The doc comment of what starts at a position, among the comments of a text. -/
def attachedIn (text : List Char) (all : List Comment) (position : Nat) : Option DocComment :=
  DocComment.attached? (DocComment.collect all) text 0 position

/-- The names of the tags that a doc comment gives. -/
def tagsOf (comment? : Option DocComment) : List String := ((comment?.map (·.tags)).getD []).map (·.name)

/-- A place in a text where a row starts: where comments start, or right behind the mark that ends another row. -/
def Borders (ctx : Context) (start pos : Nat) (cs : List Char) : Prop :=
  ∃ before, ctx.text = before ++ cs ∧ byteLength before = pos ∧
    (pos = start ∨ EndsRow before)

theorem Fits.borders {ctx : Context} {start pos : Nat} {front cs : List Char} (fits : Fits ctx pos (front ++ cs))
    (ends : EndsRow front) : Borders ctx start (pos + byteLength front) cs := by
  obtain ⟨before, whole, place⟩ := fits.text
  exact ⟨before ++ front, by rw [whole, List.append_assoc before], by rw [Text.byteLength_append, place],
    .inr (ends.behind before)⟩

/-- A character that stands between two places stands in the text between them. -/
private theorem mem_between {front gap rest before behind : List Char} {x : Char}
    (same : before ++ x :: behind = front ++ (gap ++ rest)) (low : byteLength front ≤ byteLength before)
    (high : byteLength before < byteLength (front ++ gap)) : x ∈ gap := by
  have nothing : ∀ cs : List Char, byteLength cs = 0 → cs = [] := by
    intro cs none
    by_contra some
    have size := byteLength_pos some
    omega
  rcases List.append_eq_append_iff.mp same with ⟨more, longer, later⟩ | ⟨more, longer, later⟩
  · rw [longer, Text.byteLength_append] at low
    obtain rfl := nothing more (by omega)
    cases gap with
    | nil =>
      rw [longer, List.append_nil, List.append_nil] at high
      omega
    | cons c gap =>
      rw [List.nil_append, List.cons_append, List.cons.injEq] at later
      rw [later.1]
      exact List.mem_cons_self
  · rcases List.append_eq_append_iff.mp later with ⟨further, beyond, last⟩ | ⟨further, inner, last⟩
    · rw [longer, beyond, Text.byteLength_append, Text.byteLength_append, Text.byteLength_append] at high
      omega
    · cases further with
      | nil =>
        rw [longer, inner, List.append_nil] at high
        omega
      | cons c further =>
        rw [List.cons_append, List.cons.injEq] at last
        rw [inner, last.1]
        simp

section
variable {text : List Char} {start hi : Nat} {all : List Comment}

/-- A declaration gets the comment in front of it. -/
theorem attachedIn_own (inside : Inside text start hi all) {c : Comment} {d : DocComment} (member : c ∈ all)
    (doc : DocComment.ofComment? c = some d) {front gap rest : List Char} (whole : text = front ++ (gap ++ rest))
    (ends : byteLength front = c.hi) (blank : IsBlankText gap) :
    attachedIn text all (c.hi + byteLength gap) = some d := by
  obtain ⟨docLo, docHi⟩ := DocComment.span_of_ofComment? doc
  have order := DocComment.collect_inOrder inside.apart
  have collected := (DocComment.mem_collect_iff inside.apart).mpr ⟨c, member, doc⟩
  refine DocComment.attached?_eq_some_iff.mpr ⟨(DocComment.lastBefore?_eq_some_iff order).mpr ⟨collected, by omega, ?_⟩,
    front, gap, rest, whole, by omega, by rw [Text.byteLength_append]; omega, .blanks blank⟩
  intro e given reached
  obtain ⟨c', member', doc'⟩ := (DocComment.mem_collect_iff inside.apart).mp given
  obtain ⟨docLo', docHi'⟩ := DocComment.span_of_ofComment? doc'
  have proper := inside.apart.proper c' member'
  rcases inside.apart.apart c member c' member' with rfl | behind | before
  · omega
  · -- a comment further on would start with a slash among the blanks
    obtain ⟨before, body, more, written, place, -⟩ := inside.written c' member'
    have same : before ++ '/' :: (body ++ '/' :: more) = front ++ (gap ++ rest) := by
      rw [← whole, written]
      rfl
    have slash := mem_between same (by omega) (by rw [Text.byteLength_append]; omega)
    exact absurd (blank '/' slash) (by decide)
  · omega

private theorem mem_of_isModifierGap {gap : List Char} (spaced : IsModifierGap gap) {c : Char} (member : c ∈ gap) :
    Text.isBlank c = true ∨ ∃ w ∈ gapWords, c ∈ w.toList := by
  induction spaced with
  | blanks blank => exact .inl (blank c member)
  | word blank known apart later ih =>
    rcases List.mem_append.mp member with front | behind
    · exact .inl (blank c front)
    · rcases List.mem_append.mp behind with inside | rest
      · exact .inr ⟨_, known, by simpa using inside⟩
      · exact ih rest

private theorem byteLength_rowEnd {s : Char} (stop : s ∈ rowEnds) : byteLength [s] = 1 := by
  simp only [rowEnds, List.mem_cons, List.not_mem_nil, or_false] at stop
  rcases stop with rfl | rfl | rfl | rfl <;> rfl

/-- The marks that end rows stand in no gap of modifiers. -/
private theorem not_mem_of_rowEnd {s : Char} (stop : s ∈ rowEnds) {gap : List Char} (spaced : IsModifierGap gap) : s ∉ gap := by
  intro member
  have free : ∀ s ∈ rowEnds, Text.isBlank s = false ∧ ∀ w ∈ gapWords, s ∉ w.toList := by
    simp only [rowEnds, List.mem_cons, List.not_mem_nil, or_false, forall_eq_or_imp, forall_eq]
    decide
  obtain ⟨solid, unworded⟩ := free s stop
  rcases mem_of_isModifierGap spaced member with blank | ⟨w, known, part⟩
  · rw [solid] at blank
    cases blank
  · exact unworded w known part

/-- A declaration gets nothing if only blanks stand between it and the row before. -/
theorem attachedIn_none {ctx : Context} {pos : Nat} {gap rest : List Char} (inside : Inside ctx.text start hi all)
    (borders : Borders ctx start pos (gap ++ rest)) (blank : IsBlankText gap) :
    attachedIn ctx.text all (pos + byteLength gap) = none := by
  by_contra some
  obtain ⟨d, found⟩ := Option.ne_none_iff_exists'.mp some
  obtain ⟨last, front, gap', rest', whole', ends, reached, spaced⟩ := DocComment.attached?_eq_some_iff.mp found
  have order := DocComment.collect_inOrder inside.apart
  obtain ⟨given, -, -⟩ := (DocComment.lastBefore?_eq_some_iff order).mp last
  obtain ⟨c, member, doc⟩ := (DocComment.mem_collect_iff inside.apart).mp given
  obtain ⟨docLo, docHi⟩ := DocComment.span_of_ofComment? doc
  have proper := inside.apart.proper c member
  have low := (inside.bounds c member).1
  obtain ⟨before, body, more, written, opens, closes⟩ := inside.written c member
  obtain ⟨above, whole, place, border⟩ := borders
  have clear : '/' ∉ gap := fun slash => absurd (blank '/' slash) (by decide)
  rw [Text.byteLength_append] at reached
  rcases border with rfl | ⟨f, s, rfl, stop⟩
  · -- the comment would start with a slash among the blanks
    have same : before ++ '/' :: (body ++ '/' :: more) = above ++ (gap ++ rest) := by
      rw [← whole, written]
      rfl
    exact clear (mem_between same (by omega) (by rw [Text.byteLength_append]; omega))
  · have size := byteLength_rowEnd stop
    have other : s ≠ '/' := by
      rintro rfl
      exact absurd stop (by decide)
    rw [Text.byteLength_append, size] at place
    by_cases beyond : byteLength f < c.hi
    · -- the comment would end with a slash behind the mark
      have slash : byteLength ['/'] = 1 := rfl
      rw [← List.append_assoc, Text.byteLength_append, slash] at closes
      have same : (before ++ '/' :: body) ++ '/' :: more = f ++ ((s :: gap) ++ rest) := by
        have split : (before ++ '/' :: body) ++ '/' :: more = ctx.text := by
          rw [written, List.append_assoc]
        rw [split, whole]
        simp
      have tail : byteLength (s :: gap) = 1 + byteLength gap := by
        rw [← List.singleton_append, Text.byteLength_append, size]
      have inner := mem_between same (by omega) (by rw [Text.byteLength_append f, tail]; omega)
      rcases List.mem_cons.mp inner with mark | blanks
      · exact other mark.symm
      · exact clear blanks
    · -- the mark would be a part of a modifier
      have same : f ++ s :: (gap ++ rest) = front ++ (gap' ++ rest') := by
        rw [← whole', whole]
        simp
      exact not_mem_of_rowEnd stop spaced (mem_between same (by omega) (by rw [Text.byteLength_append]; omega))

end

/-- What the comments met on the way tell, whichever other comments the text holds from `start` on. -/
def Reveals (text : List Char) (start : Nat) (met : List Comment) (tells : (Nat → Option DocComment) → Prop) : Prop :=
  ∀ hi all, Inside text start hi all → (∀ c ∈ met, c ∈ all) → tells (attachedIn text all)

theorem Reveals.mono {text : List Char} {start : Nat} {met more : List Comment}
    {tells told : (Nat → Option DocComment) → Prop} (reveals : Reveals text start met tells)
    (listed : ∀ c ∈ met, c ∈ more) (weaker : ∀ comment?, tells comment? → told comment?) :
    Reveals text start more told := fun hi all inside given =>
  weaker _ (reveals hi all inside fun c member => given c (listed c member))

/-- A gap that gives the declaration behind it tags. -/
def GapReads (gap : List Char) (tags : List String) : Prop :=
  ∀ ctx start pos rest, Borders ctx start pos (gap ++ rest) → ∃ own, Passes ctx.text gap pos own ∧
    Reveals ctx.text start own fun comment? => tagsOf (comment? (pos + byteLength gap)) = tags

theorem gapReads_blank {gap : List Char} (blank : IsBlankText gap) (broken : gap.any isLineEnd = true) :
    GapReads gap [] := by
  intro ctx start pos rest borders
  refine ⟨[], passes_blank ctx.text pos blank broken, fun hi all inside given => ?_⟩
  change tagsOf (attachedIn _ _ _) = []
  rw [attachedIn_none inside borders blank]
  rfl

section
variable {before body behind : List Char} (leading : IsBlankText before) (uncut : Uncut body)
  (trailing : IsBlankText behind) (broken : behind.any isLineEnd = true)

include leading uncut trailing broken

/-- A comment between blanks is met on the way. -/
theorem passes_comment {text above rest : List Char}
    (whole : text = above ++ (before ++ '/' :: '*' :: (body ++ '*' :: '/' :: behind) ++ rest)) :
    Passes text (before ++ '/' :: '*' :: (body ++ '*' :: '/' :: behind)) (byteLength above)
      [⟨byteLength above + byteLength before, byteLength above + byteLength before + 2 + byteLength body + 2, body⟩] := by
  have marks : '/'.utf8Size = 1 ∧ '*'.utf8Size = 1 := by decide
  have spaces : ∀ {gap : List Char}, IsBlankText gap → ∀ c ∈ gap, isSpace c = true ∧ c ≠ '/' :=
    fun blank c member => isSpace_of_isBlank (blank c member)
  refine ⟨⟨⟨?_, ?_⟩, ?_, ?_⟩, ?_⟩
  · intro d member
    rw [List.mem_singleton.mp member]
    show byteLength above + byteLength before < byteLength above + byteLength before + 2 + byteLength body + 2
    omega
  · intro d first e second
    exact .inl ((List.mem_singleton.mp first).trans (List.mem_singleton.mp second).symm)
  · intro d member
    rw [List.mem_singleton.mp member]
    simp only [Text.byteLength_append, byteLength, marks]
    omega
  · intro d member
    rw [List.mem_singleton.mp member]
    refine ⟨above ++ before, '*' :: (body ++ ['*']), behind ++ rest, ?_, ?_, ?_⟩
    · rw [whole]
      simp
    · rw [Text.byteLength_append]
    · simp only [Text.byteLength_append, List.cons_append, byteLength, marks]
      omega
  · intro lineBreak comments rest
    exact skip_between _ lineBreak comments (spaces leading) uncut (spaces trailing) broken rest

/-- A doc comment between blanks that break the line. -/
theorem gapReads_comment (marked : body.head? = some '*') {tags : List String}
    (tagged : ∀ position, (lineTags position (Text.splitAt '\n' body)).map (·.name) = tags) :
    GapReads (before ++ '/' :: '*' :: (body ++ '*' :: '/' :: behind)) tags := by
  intro ctx start pos rest borders
  obtain ⟨above, whole, rfl, -⟩ := borders
  refine ⟨_, passes_comment leading uncut trailing broken whole, fun hi all inside given => ?_⟩
  let c : Comment :=
    ⟨byteLength above + byteLength before, byteLength above + byteLength before + 2 + byteLength body + 2, body⟩
  have doc : DocComment.ofComment? c = some ⟨c.lo, c.hi, lineTags (c.lo + 2) (Text.splitAt '\n' body)⟩ :=
    if_pos marked
  have marks : '/'.utf8Size = 1 ∧ '*'.utf8Size = 1 := by decide
  have shape : ctx.text = above ++ (before ++ '/' :: '*' :: (body ++ ['*', '/'])) ++ (behind ++ rest) := by
    rw [whole]
    simp
  have attached := attachedIn_own inside (given c List.mem_cons_self) doc shape (by
    simp only [Text.byteLength_append, byteLength, marks, c]
    omega) trailing
  have reached : c.hi + byteLength behind =
      byteLength above + byteLength (before ++ '/' :: '*' :: (body ++ '*' :: '/' :: behind)) := by
    simp only [Text.byteLength_append, byteLength, marks, c]
    omega
  change tagsOf (attachedIn _ _ _) = tags
  rw [← reached, attached]
  exact tagged _

end

end DocLocale.Source
