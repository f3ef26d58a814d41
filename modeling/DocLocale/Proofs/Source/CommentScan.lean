import DocLocale.Proofs.Source.TagLine
import DocLocale.Proofs.Text.Splitting
import DocLocale.Render.Layout

/-!
Rendered comment blocks, read again. Main statement: the text of a block is one doc comment between
blanks, and its tags are those that its lines start with.
-/

set_option autoImplicit false
set_option relaxedAutoImplicit false

namespace DocLocale.Source

open Text (isBlank byteLength splitAt)

section Skipping

variable (position : Nat) (lineBreak : Bool) (comments : List Comment)

private theorem skip_open (rest : List Char) :
    skip position lineBreak comments .blanks ('/' :: '*' :: rest) =
      skip (position + 2) lineBreak comments (.block position []) rest :=
  rfl

private theorem skip_close (lo : Nat) (body rest : List Char) :
    skip position lineBreak comments (.block lo body) ('*' :: '/' :: rest) =
      skip (position + 2) lineBreak (⟨lo, position + 2, body.reverse⟩ :: comments) .blanks rest :=
  rfl

private theorem skip_block_cons (lo : Nat) (body : List Char) {c : Char} {cs : List Char}
    (inside : c = '*' → cs.head? ≠ some '/') :
    skip position lineBreak comments (.block lo body) (c :: cs) =
      skip (position + c.utf8Size) (lineBreak || isLineEnd c) comments (.block lo (c :: body)) cs := by
  -- The patterns of `skip` overlap on characters, so the cases are split on its one defining equation.
  rw [skip.eq_def]
  split
  all_goals simp_all

private theorem skip_blank_cons {c : Char} (space : isSpace c = true) (unopened : c ≠ '/')
    (rest : List Char) :
    skip position lineBreak comments .blanks (c :: rest) =
      skip (position + c.utf8Size) (lineBreak || isLineEnd c) comments .blanks rest := by
  rw [skip.eq_def]
  split
  all_goals simp_all

/-- A text that a comment can hold: no star stands before a slash. -/
def Uncut : List Char → Prop
  | [] => True
  | c :: cs => (c = '*' → cs.head? ≠ some '/') ∧ Uncut cs

/-- A block comment is passed over up to its closing mark. -/
theorem skip_block (lo : Nat) (body : List Char) {text : List Char} (uncut : Uncut text)
    (rest : List Char) :
    skip position lineBreak comments (.block lo body) (text ++ '*' :: '/' :: rest) =
      skip (position + byteLength text + 2) (lineBreak || text.any isLineEnd)
        (⟨lo, position + byteLength text + 2, body.reverse ++ text⟩ :: comments) .blanks rest := by
  induction text generalizing position lineBreak body with
  | nil => simpa [byteLength] using skip_close position lineBreak comments lo body rest
  | cons c text ih =>
    have inside : c = '*' → (text ++ '*' :: '/' :: rest).head? ≠ some '/' := by
      intro star
      cases text with
      | nil => simp
      | cons d text => simpa using uncut.1 star
    rw [List.cons_append, skip_block_cons position lineBreak comments lo body inside,
      ih _ _ _ uncut.2]
    simp [byteLength, Nat.add_assoc, Bool.or_assoc]

/-- Blanks are passed over. -/
theorem skip_blanks {blanks : List Char} (all : ∀ c ∈ blanks, isSpace c = true ∧ c ≠ '/')
    (rest : List Char) :
    skip position lineBreak comments .blanks (blanks ++ rest) =
      skip (position + byteLength blanks) (lineBreak || blanks.any isLineEnd) comments .blanks
        rest := by
  induction blanks generalizing position lineBreak with
  | nil => simp [byteLength]
  | cons c blanks ih =>
    obtain ⟨space, unopened⟩ := all c List.mem_cons_self
    rw [List.cons_append, skip_blank_cons position lineBreak comments space unopened,
      ih _ _ fun d member => all d (List.mem_cons_of_mem _ member)]
    simp [byteLength, Nat.add_assoc, Bool.or_assoc]

/-- A block comment between blanks is kept. -/
theorem skip_between {before body after : List Char}
    (leading : ∀ c ∈ before, isSpace c = true ∧ c ≠ '/') (uncut : Uncut body)
    (trailing : ∀ c ∈ after, isSpace c = true ∧ c ≠ '/') (broken : after.any isLineEnd = true)
    (rest : List Char) :
    skip position lineBreak comments .blanks
        ((before ++ '/' :: '*' :: (body ++ '*' :: '/' :: after)) ++ rest) =
      skip (position + byteLength (before ++ '/' :: '*' :: (body ++ '*' :: '/' :: after))) true
        (⟨position + byteLength before, position + byteLength before + 2 + byteLength body + 2, body⟩ ::
          comments) .blanks rest := by
  have marks : '/'.utf8Size = 1 ∧ '*'.utf8Size = 1 := by decide
  have bytes : byteLength (before ++ '/' :: '*' :: (body ++ '*' :: '/' :: after)) =
      byteLength before + 2 + byteLength body + 2 + byteLength after := by
    simp only [Text.byteLength_append, byteLength, marks]
    omega
  rw [List.append_assoc, List.cons_append, List.cons_append, List.append_assoc, List.cons_append,
    List.cons_append, skip_blanks _ _ _ leading, skip_open, skip_block _ _ _ _ _ uncut,
    skip_blanks _ _ _ trailing, broken, Bool.or_true, bytes, List.reverse_nil, List.nil_append]
  simp only [Nat.add_assoc]

end Skipping

theorem Uncut.append {a b : List Char} (starless : '*' ∉ a) (uncut : Uncut b) : Uncut (a ++ b) := by
  induction a with
  | nil => exact uncut
  | cons c a ih =>
    simp only [List.mem_cons, not_or] at starless
    exact ⟨fun star => absurd star.symm starless.1, ih starless.2⟩

theorem uncut_of_starless {a : List Char} (starless : '*' ∉ a) : Uncut a := by
  simpa using Uncut.append starless (b := []) trivial

/-- A text can go on with anything but a slash. -/
theorem Uncut.append_cons {a b : List Char} {c : Char} (front : Uncut a) (other : c ≠ '/')
    (back : Uncut (c :: b)) : Uncut (a ++ c :: b) := by
  induction a with
  | nil => exact back
  | cons d a ih =>
    refine ⟨?_, ih front.2⟩
    intro star
    cases a with
    | nil => simpa using other
    | cons e a => simpa using front.1 star

theorem uncut_iff {cs : List Char} : Uncut cs ↔ ¬ ['*', '/'] <:+: cs := by
  induction cs with
  | nil => simp [Uncut]
  | cons c cs ih =>
    have first : ['*', '/'] <+: c :: cs ↔ c = '*' ∧ cs.head? = some '/' := by
      cases cs with
      | nil => simp
      | cons d cs => simp [List.cons_prefix_cons, eq_comm]
    rw [Uncut, ih, List.infix_cons_iff, first, not_or, not_and]

/-- A text that nothing closes before its end is closed there and nowhere else. -/
theorem eq_of_uncut {front rest before after : List Char} (uncut : Uncut front) (starless : '*' ∉ rest)
    (closed : front ++ '*' :: '/' :: rest = before ++ '*' :: '/' :: after) : after = rest := by
  induction front generalizing before with
  | nil =>
    match before, closed with
    | [], closed => simpa using closed.symm
    | [_], closed => simp at closed
    | _ :: _ :: before, closed =>
      simp only [List.nil_append, List.cons_append, List.cons.injEq] at closed
      refine absurd ?_ starless
      rw [closed.2.2]
      simp
  | cons c front ih =>
    cases before with
    | cons b before =>
      simp only [List.cons_append, List.cons.injEq] at closed
      exact ih uncut.2 closed.2
    | nil =>
      simp only [List.cons_append, List.nil_append, List.cons.injEq] at closed
      refine absurd ?_ (uncut.1 closed.1)
      cases front with
      | nil => simp at closed
      | cons d front =>
        rw [List.cons_append, List.cons.injEq] at closed
        rw [closed.2.1, List.head?_cons]

/-- The line breaks that a style may have. -/
def IsNewline (s : String) : Prop := s = "\n" ∨ s = "\r\n"

/-- A text that can stand on a line of a comment: it starts with no indentation, and neither breaks the
line nor holds a star. -/
structure Clean (line : List Char) : Prop where
  start : ∃ c cs, line = c :: cs ∧ isIndent c = false
  unbroken : '\n' ∉ line
  starless : '*' ∉ line

section Block

variable {returns : List Char}

/-- The text between the marks of a comment block, whose lines end with `returns` and a line feed. -/
def blockBody (indent : Nat) (returns : List Char) (lines : List (List Char)) : List Char :=
  '*' :: returns ++ '\n' ::
    (lines.flatMap (fun line => laidOut indent line ++ returns ++ ['\n']) ++
      List.replicate indent ' ' ++ [' '])

theorem exists_returns {newline : String} (isNewline : IsNewline newline) :
    ∃ returns, newline.toList = returns ++ ['\n'] ∧ (returns = [] ∨ returns = ['\r']) := by
  rcases isNewline with rfl | rfl
  · exact ⟨[], rfl, Or.inl rfl⟩
  · exact ⟨['\r'], rfl, Or.inr rfl⟩

private theorem not_mem_laidOut {c : Char} (indent : Nat) {line : List Char} (space : c ≠ ' ')
    (star : c ≠ '*') (absent : c ∉ line) : c ∉ laidOut indent line := by
  simp [laidOut, List.mem_replicate, space, star, absent]

theorem toList_comment {style : Render.Style} (depth : Int) {lines : List String} (some : lines ≠ [])
    (split : style.newline.toList = returns ++ ['\n']) :
    (Render.comment style depth lines).toList =
      List.replicate (style.indentSize * depth.toNat) ' ' ++ '/' :: '*' ::
        (blockBody (style.indentSize * depth.toNat) returns (lines.map String.toList) ++
          '*' :: '/' :: (returns ++ ['\n'])) := by
  have first : "/**".toList = ['/', '*', '*'] := rfl
  have inner : " * ".toList = [' ', '*', ' '] := rfl
  have last : " */".toList = [' ', '*', '/'] := rfl
  simp [Render.comment, some, Render.Style.line, Render.Style.indent, blockBody, laidOut, split, first,
    inner, last, String.toList_join, List.flatMap_map]

private theorem uncut_lines (plain : returns = [] ∨ returns = ['\r']) (indent : Nat)
    {lines : List (List Char)} (inside : ∀ line ∈ lines, Uncut line) {rest : List Char}
    (uncut : Uncut rest) :
    Uncut (lines.flatMap (fun line => laidOut indent line ++ returns ++ ['\n']) ++ rest) := by
  induction lines with
  | nil => exact uncut
  | cons line lines ih =>
    have blanks : '*' ∉ List.replicate indent ' ' ++ [' '] := by simp [List.mem_replicate]
    have later := ih fun other member => inside other (List.mem_cons_of_mem _ member)
    -- What ends a line is no slash, so no star before it is cut.
    have ended : Uncut (line ++ (returns ++ '\n' ::
        (lines.flatMap (fun line => laidOut indent line ++ returns ++ ['\n']) ++ rest))) := by
      have text := inside line List.mem_cons_self
      have broken : Uncut ('\n' ::
          (lines.flatMap (fun line => laidOut indent line ++ returns ++ ['\n']) ++ rest)) :=
        ⟨by simp, later⟩
      rcases plain with rfl | rfl
      · exact text.append_cons (by decide) broken
      · exact text.append_cons (by decide) ⟨by simp, broken⟩
    have shape : (line :: lines).flatMap (fun line => laidOut indent line ++ returns ++ ['\n']) ++ rest =
        (List.replicate indent ' ' ++ [' ']) ++ '*' :: ' ' :: (line ++ (returns ++ '\n' ::
          (lines.flatMap (fun line => laidOut indent line ++ returns ++ ['\n']) ++ rest))) := by
      simp [laidOut]
    rw [shape]
    exact Uncut.append blanks ⟨by simp, by simp, ended⟩

/-- A comment block is closed by its last mark only, if none of its lines holds one. -/
theorem uncut_blockBody (plain : returns = [] ∨ returns = ['\r']) (indent : Nat)
    {lines : List (List Char)} (inside : ∀ line ∈ lines, Uncut line) :
    Uncut (blockBody indent returns lines) := by
  have blanks : '*' ∉ List.replicate indent ' ' ++ [' '] := by simp [List.mem_replicate]
  have inner := uncut_lines plain indent inside (uncut_of_starless blanks)
  unfold blockBody
  rcases plain with rfl | rfl <;> simpa [Uncut] using inner

private theorem splitAt_blockBody (plain : returns = [] ∨ returns = ['\r']) (indent : Nat)
    {lines : List (List Char)} (clean : ∀ line ∈ lines, Clean line) :
    splitAt '\n' (blockBody indent returns lines) =
      ('*' :: returns) :: lines.map (fun line => laidOut indent line ++ returns) ++
        [List.replicate indent ' ' ++ [' ']] := by
  have unbroken : ∀ part ∈ ('*' :: returns) :: lines.map (fun line => laidOut indent line ++ returns),
      '\n' ∉ part := by
    intro part member
    rcases List.mem_cons.mp member with rfl | member
    · rcases plain with rfl | rfl <;> decide
    · obtain ⟨line, present, rfl⟩ := List.mem_map.mp member
      have inner := not_mem_laidOut indent (by decide) (by decide) (clean line present).unbroken
      rcases plain with rfl | rfl <;> simpa using inner
  have closing : '\n' ∉ List.replicate indent ' ' ++ [' '] := by simp [List.mem_replicate]
  have shape : blockBody indent returns lines =
      (('*' :: returns) :: lines.map (fun line => laidOut indent line ++ returns)).flatMap (· ++ ['\n']) ++
        (List.replicate indent ' ' ++ [' ']) := by
    simp [blockBody, List.flatMap_map]
  rw [shape, Text.splitAt_lines unbroken, Text.splitAt_of_not_mem closing]

private theorem lineName?_spaces (n : Nat) : lineName? (List.replicate n ' ' ++ [' ']) = none := by
  have blanks : (List.replicate n ' ' ++ [' ']).dropWhile isIndent = [] := by
    rw [List.dropWhile_append_of_pos]
    · rfl
    · intro c member
      rw [List.eq_of_mem_replicate member]
      rfl
  simp only [lineName?, lineTag?, skipIndent, blanks]
  rfl

private theorem lineName?_line (plain : returns = [] ∨ returns = ['\r']) (indent : Nat)
    {line : List Char} (clean : Clean line) :
    lineName? (laidOut indent line ++ returns) = headTag? line := by
  obtain ⟨c, cs, rfl, start⟩ := clean.start
  rcases plain with rfl | rfl
  · rw [List.append_nil]
    exact lineName?_laidOut indent start
  · have shape : laidOut indent (c :: cs) ++ ['\r'] = laidOut indent (c :: (cs ++ ['\r'])) := by
      simp [laidOut]
    rw [shape, lineName?_laidOut indent start, ← List.cons_append, headTag?_append_return]

/-- The tags of a comment block are those that its lines start with. -/
theorem lineTags_blockBody (plain : returns = [] ∨ returns = ['\r']) (indent : Nat)
    {lines : List (List Char)} (clean : ∀ line ∈ lines, Clean line) (position : Nat) :
    (lineTags position (splitAt '\n' (blockBody indent returns lines))).map (·.name) =
      lines.filterMap headTag? := by
  have opening : lineName? ('*' :: returns) = none := by rcases plain with rfl | rfl <;> rfl
  rw [lineTags_map_name, splitAt_blockBody plain indent clean, List.cons_append,
    List.filterMap_cons_none opening, List.filterMap_append, List.filterMap_map,
    List.filterMap_cons_none (lineName?_spaces indent), List.filterMap_nil, List.append_nil]
  exact List.filterMap_congr fun line member => lineName?_line plain indent (clean line member)

end Block

/-- A rendered comment is one doc comment between blanks, and its tags are those that its lines start
with. -/
theorem skip_comment {style : Render.Style} (newline : IsNewline style.newline) (depth : Int)
    {lines : List String} (nonempty : lines ≠ []) (clean : ∀ line ∈ lines, Clean line.toList)
    (position : Nat) (lineBreak : Bool) (comments : List Comment) (rest : List Char) :
    ∃ c d, skip position lineBreak comments .blanks
          ((Render.comment style depth lines).toList ++ rest) =
        skip (position + byteLength (Render.comment style depth lines).toList) true (c :: comments)
          .blanks rest ∧
      DocComment.ofComment? c = some d ∧
      d.tags.map (·.name) = lines.filterMap fun line => headTag? line.toList := by
  obtain ⟨returns, split, plain⟩ := exists_returns newline
  have inside : ∀ line ∈ lines.map String.toList, Clean line := by simpa using clean
  have spaces : ∀ c ∈ List.replicate (style.indentSize * depth.toNat) ' ',
      isSpace c = true ∧ c ≠ '/' := by
    intro c member
    rw [List.eq_of_mem_replicate member]
    decide
  have ending : ∀ c ∈ returns ++ ['\n'], isSpace c = true ∧ c ≠ '/' := by
    have space : isSpace '\r' = true ∧ isSpace '\n' = true := by decide
    rcases plain with rfl | rfl <;> simp [space]
  have broken : (returns ++ ['\n']).any isLineEnd = true := by rcases plain with rfl | rfl <;> rfl
  have uncut := uncut_blockBody plain (style.indentSize * depth.toNat)
    fun line member => uncut_of_starless (inside line member).starless
  rw [toList_comment depth nonempty split]
  refine ⟨_, _, skip_between position lineBreak comments spaces uncut ending broken rest, rfl, ?_⟩
  dsimp only
  rw [lineTags_blockBody plain _ inside, List.filterMap_map]
  rfl

end DocLocale.Source
