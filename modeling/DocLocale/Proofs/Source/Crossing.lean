import DocLocale.Proofs.Source.Collecting
import DocLocale.Proofs.Source.Following
import Mathlib.Tactic.Common

/-!
What parsers do in front of a text with comments in it. A parser crosses the text and adds the comments that it
passes on the way; what is crossed piece by piece is crossed whole.
-/

set_option autoImplicit false
set_option relaxedAutoImplicit false

namespace DocLocale.Source

open Text (byteLength)

/-! ## Comments between two places -/

/-- A comment stands in a text where it says, from its first slash to its last. -/
def Written (text : List Char) (c : Comment) : Prop :=
  ∃ front body rest, text = front ++ ('/' :: body ++ '/' :: rest) ∧ byteLength front = c.lo ∧
    byteLength (front ++ ('/' :: body ++ ['/'])) = c.hi

/-- Comments that a text holds from one byte to another. -/
structure Inside (text : List Char) (lo hi : Nat) (cs : List Comment) : Prop where
  apart : NonOverlapping cs
  bounds : ∀ c ∈ cs, lo ≤ c.lo ∧ c.hi ≤ hi
  written : ∀ c ∈ cs, Written text c

section
variable {text : List Char} {lo mid hi : Nat} {cs ds : List Comment}

theorem inside_nil (text : List Char) (lo hi : Nat) : Inside text lo hi [] := by
  constructor
  · constructor
    · exact fun c member => absurd member List.not_mem_nil
    · exact fun c member => absurd member List.not_mem_nil
  · exact fun c member => absurd member List.not_mem_nil
  · exact fun c member => absurd member List.not_mem_nil

theorem Inside.mono {lo' hi' : Nat} (inside : Inside text lo hi cs) (below : lo' ≤ lo) (above : hi ≤ hi') :
    Inside text lo' hi' cs := by
  refine ⟨inside.apart, fun c member => ?_, inside.written⟩
  obtain ⟨first, last⟩ := inside.bounds c member
  exact ⟨Nat.le_trans below first, Nat.le_trans last above⟩

/-- Comments further on are put in front. -/
theorem Inside.append (first : Inside text lo mid cs) (later : Inside text mid hi ds) (low : lo ≤ mid)
    (high : mid ≤ hi) : Inside text lo hi (ds ++ cs) := by
  constructor
  · constructor
    · intro c member
      rcases List.mem_append.mp member with there | here
      · exact later.apart.proper c there
      · exact first.apart.proper c here
    · intro c left d right
      rcases List.mem_append.mp left with there | here
      · rcases List.mem_append.mp right with there' | here'
        · exact later.apart.apart c there d there'
        · exact .inr (.inr (Nat.le_trans (first.bounds d here').2 (later.bounds c there).1))
      · rcases List.mem_append.mp right with there' | here'
        · exact .inr (.inl (Nat.le_trans (first.bounds c here).2 (later.bounds d there').1))
        · exact first.apart.apart c here d here'
  · intro c member
    rcases List.mem_append.mp member with there | here
    · exact ⟨Nat.le_trans low (later.bounds c there).1, (later.bounds c there).2⟩
    · exact ⟨(first.bounds c here).1, Nat.le_trans (first.bounds c here).2 high⟩
  · intro c member
    rcases List.mem_append.mp member with there | here
    · exact later.written c there
    · exact first.written c here

/-- The same for a text and what stands behind it. -/
theorem Inside.behind {pos : Nat} {front more : List Char} (first : Inside text pos (pos + byteLength front) cs)
    (later : Inside text (pos + byteLength front) (pos + byteLength front + byteLength more) ds) :
    Inside text pos (pos + byteLength (front ++ more)) (ds ++ cs) := by
  rw [Text.byteLength_append, ← Nat.add_assoc]
  exact first.append later (Nat.le_add_right _ _) (Nat.le_add_right _ _)

end

/-! ## Cursors behind line breaks -/

/-- The cursor in front of a text that starts at byte `pos`, where a line may have been broken before. -/
def Cursor.behind (last pos : Nat) (broken : Bool) (comments : List Comment) (cs : List Char) : Cursor :=
  .ofGap last (skip pos broken comments .blanks cs)

theorem Cursor.behind_blank (last pos : Nat) (broken : Bool) (comments : List Comment) (cs : List Char) :
    behind last pos broken comments (' ' :: cs) = behind last (pos + 1) broken comments cs := by
  have blank : ∀ c ∈ [' '], isSpace c = true ∧ c ≠ '/' := by
    intro c member
    rw [List.mem_singleton.mp member]
    decide
  have skipped := skip_blanks pos broken comments blank cs
  have unbroken : (broken || [' '].any isLineEnd) = broken := by
    rw [show [' '].any isLineEnd = false from rfl, Bool.or_false]
  rw [unbroken] at skipped
  rw [behind, behind]
  exact congrArg (ofGap last) skipped

theorem Lexes.behind {front rest : List Char} {token : Token} (lexes : Lexes front token rest) (last pos : Nat)
    (broken : Bool) (comments : List Comment) : Cursor.behind last pos broken comments (front ++ rest) =
      ⟨token, pos, pos + byteLength front, front ++ rest, rest, broken, last, comments⟩ := by
  rw [Cursor.behind, lexes.solid, Cursor.ofGap, lexes.piece]

theorem Lexes.next_behind {front rest : List Char} {token : Token} (lexes : Lexes front token rest) (last pos : Nat)
    (broken : Bool) (comments : List Comment) : (Cursor.behind last pos broken comments (front ++ rest)).next =
      .facing (pos + byteLength front) (pos + byteLength front) comments rest := by
  rw [lexes.behind, Cursor.next, Cursor.facing]

/-! ## Crossing -/

section
variable {α β : Type} {ctx : Context} {p : Parse α} {f : α → Parse β} {broken : Bool} {pos : Nat}
  {front more rest cs : List Char} {a : α} {b : β} {met others : List Comment}

/-- A parser takes `front` off the text at `pos`, where `rest` follows, passes the comments `met` on the way and gives a
value. Where `broken` holds, a line was broken before the text. -/
structure Crosses (ctx : Context) (p : Parse α) (broken : Bool) (pos : Nat) (front rest : List Char) (a : α)
    (met : List Comment) : Prop where
  inside : Inside ctx.text pos (pos + byteLength front) met
  run : ∀ last comments, p ctx (.behind last pos broken comments (front ++ rest)) =
    .ok a (.facing (pos + byteLength front) (pos + byteLength front) (met ++ comments) rest)

theorem Takes.crosses (taken : Takes ctx p pos front rest a) : Crosses ctx p false pos front rest a [] :=
  ⟨inside_nil _ _ _, taken⟩

namespace Crosses

/-- What follows looks back at where the token before ended. -/
theorem bind_stay (first : Crosses ctx p broken pos front rest a met)
    (later : ∀ comments, f a ctx (.facing (pos + byteLength front) (pos + byteLength front) comments rest) =
      .ok b (.facing (pos + byteLength front) (pos + byteLength front) comments rest)) :
    Crosses ctx (p >>= f) broken pos front rest b met where
  inside := first.inside
  run last comments := by
    rw [Parse.run_bind, first.run last comments]
    exact later (met ++ comments)

theorem bind_sees (first : Crosses ctx p broken pos front rest a met)
    (later : Sees ctx (f a) (pos + byteLength front) rest b) : Crosses ctx (p >>= f) broken pos front rest b met :=
  first.bind_stay fun comments => later _ comments

theorem blank (crosses : Crosses ctx p broken (pos + 1) front rest a met) :
    Crosses ctx p broken pos (' ' :: front) rest a met := by
  have size : pos + 1 + byteLength front = pos + byteLength (' ' :: front) := by
    have one : ' '.utf8Size = 1 := by decide
    rw [byteLength, one, Nat.add_assoc]
  constructor
  · rw [← size]
    exact crosses.inside.mono (Nat.le_succ pos) (Nat.le_refl _)
  · intro last comments
    rw [List.cons_append, Cursor.behind_blank, crosses.run last comments, size]

/-- The same parser on the text at hand. -/
theorem congr {q : Parse α} (crosses : Crosses ctx q broken pos front rest a met)
    (same : ∀ last comments, p ctx (.behind last pos broken comments (front ++ rest)) =
      q ctx (.behind last pos broken comments (front ++ rest))) : Crosses ctx p broken pos front rest a met :=
  ⟨crosses.inside, fun last comments => (same last comments).trans (crosses.run last comments)⟩

end Crosses

theorem Sees.bind_crosses (first : Sees ctx p pos (front ++ rest) a)
    (later : Crosses ctx (f a) false pos front rest b met) : Crosses ctx (p >>= f) false pos front rest b met where
  inside := later.inside
  run last comments := by
    have stays : p ctx (.behind last pos false comments (front ++ rest)) = _ := first last comments
    rw [Parse.run_bind, stays]
    exact later.run last comments

theorem Sees.bind_crosses_append (first : Sees ctx p pos (front ++ (more ++ rest)) a)
    (later : Crosses ctx (f a) false pos (front ++ more) rest b met) :
    Crosses ctx (p >>= f) false pos (front ++ more) rest b met := by
  rw [← List.append_assoc] at first
  exact first.bind_crosses later

/-- A parser crosses `front`, or nothing, right behind the token before. -/
structure Moves (ctx : Context) (p : Parse α) (pos : Nat) (front rest : List Char) (a : α) (met : List Comment) :
    Prop where
  inside : Inside ctx.text pos (pos + byteLength front) met
  run : ∀ comments, p ctx (.facing pos pos comments (front ++ rest)) =
    .ok a (.facing (pos + byteLength front) (pos + byteLength front) (met ++ comments) rest)

theorem Crosses.moves (crosses : Crosses ctx p false pos front rest a met) : Moves ctx p pos front rest a met :=
  ⟨crosses.inside, fun comments => crosses.run pos comments⟩

theorem Goes.moves (goes : Goes ctx p pos front rest a) : Moves ctx p pos front rest a [] :=
  ⟨inside_nil _ _ _, goes⟩

theorem Sees.moves (seen : Sees ctx p pos cs a) : Moves ctx p pos [] cs a [] := seen.goes.moves

theorem Moves.bind (first : Moves ctx p pos front (more ++ rest) a met)
    (later : Moves ctx (f a) (pos + byteLength front) more rest b others) :
    Moves ctx (p >>= f) pos (front ++ more) rest b (others ++ met) where
  inside := first.inside.behind later.inside
  run comments := by
    have following := later.run (met ++ comments)
    rw [Nat.add_assoc, ← Text.byteLength_append, ← List.append_assoc] at following
    rw [List.append_assoc, Parse.run_bind, first.run comments]
    exact following

theorem Moves.bind_takes (first : Moves ctx p pos front (more ++ rest) a met)
    (later : Takes ctx (f a) (pos + byteLength front) more rest b) : Moves ctx (p >>= f) pos (front ++ more) rest b met :=
  first.bind later.goes.moves

theorem Moves.bind_sees (first : Moves ctx p pos front rest a met)
    (later : Sees ctx (f a) (pos + byteLength front) rest b) : Moves ctx (p >>= f) pos front rest b met := by
  simpa using Moves.bind (by simpa using first) later.moves

theorem Sees.bind_moves (first : Sees ctx p pos (front ++ rest) a) (later : Moves ctx (f a) pos front rest b met) :
    Moves ctx (p >>= f) pos front rest b met where
  inside := later.inside
  run comments := by
    rw [first.run_bind]
    exact later.run comments

theorem Crosses.bind_moves (first : Crosses ctx p broken pos front (more ++ rest) a met)
    (later : Moves ctx (f a) (pos + byteLength front) more rest b others) :
    Crosses ctx (p >>= f) broken pos (front ++ more) rest b (others ++ met) where
  inside := first.inside.behind later.inside
  run last comments := by
    have following := later.run (met ++ comments)
    rw [Nat.add_assoc, ← Text.byteLength_append, ← List.append_assoc] at following
    rw [List.append_assoc, Parse.run_bind, first.run last comments]
    exact following

theorem Takes.bind_moves (first : Takes ctx p pos front (more ++ rest) a)
    (later : Moves ctx (f a) (pos + byteLength front) more rest b met) :
    Crosses ctx (p >>= f) false pos (front ++ more) rest b met := by
  simpa using first.crosses.bind_moves later

theorem Moves.congr {q : Parse α} (moves : Moves ctx q pos front rest a met)
    (same : ∀ comments, p ctx (.facing pos pos comments (front ++ rest)) = q ctx (.facing pos pos comments (front ++ rest))) :
    Moves ctx p pos front rest a met :=
  ⟨moves.inside, fun comments => (same comments).trans (moves.run comments)⟩

theorem Crosses.bind (first : Crosses ctx p broken pos front (more ++ rest) a met)
    (later : Crosses ctx (f a) false (pos + byteLength front) more rest b others) :
    Crosses ctx (p >>= f) broken pos (front ++ more) rest b (others ++ met) :=
  first.bind_moves later.moves

theorem Crosses.bind_takes (first : Crosses ctx p broken pos front (more ++ rest) a met)
    (later : Takes ctx (f a) (pos + byteLength front) more rest b) :
    Crosses ctx (p >>= f) broken pos (front ++ more) rest b met :=
  first.bind_moves later.goes.moves

theorem Takes.bind_crosses (first : Takes ctx p pos front (more ++ rest) a)
    (later : Crosses ctx (f a) false (pos + byteLength front) more rest b met) :
    Crosses ctx (p >>= f) false pos (front ++ more) rest b met :=
  first.bind_moves later.moves

/-! ### Tokens -/

section
variable {token : Token}

theorem Lexes.crosses (lexes : Lexes front token rest) (moves : ∀ c : Cursor, c.token = token →
    p ctx c = .ok a c.next) : Crosses ctx p broken pos front rest a [] where
  inside := inside_nil _ _ _
  run last comments := by
    rw [moves _ (by rw [lexes.behind]), lexes.next_behind]
    rfl

theorem Lexes.crosses_advance (lexes : Lexes front token rest) :
    Crosses ctx Parse.advance broken pos front rest () [] :=
  lexes.crosses fun _ _ => rfl

theorem Lexes.crosses_anyWord {w : String} (lexes : Lexes front (.word w) rest) :
    Crosses ctx Parse.anyWord broken pos front rest w [] :=
  lexes.crosses fun c shown => by rw [Parse.anyWord, shown]

theorem Lexes.crosses_expectWord {w : String} (lexes : Lexes front (.word w) rest) :
    Crosses ctx (Parse.expectWord w) broken pos front rest () [] :=
  lexes.crosses fun c shown => by rw [Parse.expectWord, shown, if_pos (beq_self_eq_true _)]

end

/-- The token that a text starts with, wherever it stands. -/
structure Heads (cs : List Char) (token : Token) : Prop where
  token_behind : ∀ last pos broken comments, (Cursor.behind last pos broken comments cs).token = token
  lo_behind : ∀ last pos broken comments, (Cursor.behind last pos broken comments cs).lo = pos
  lineBreak_behind : ∀ last pos broken comments, (Cursor.behind last pos broken comments cs).lineBreak = broken

theorem Lexes.heads {token : Token} (lexes : Lexes front token rest) : Heads (front ++ rest) token := by
  constructor
  all_goals
    intro last pos broken comments
    rw [lexes.behind]

/-- A parser that passes over the word in front of a text goes on like another one behind it. -/
theorem Crosses.behind_word {q : Parse α} {word : List Char} {token : Token}
    (lexes : Lexes word token (' ' :: (front ++ rest)))
    (crosses : Crosses ctx q false (pos + byteLength word + 1) front rest a met)
    (same : ∀ last comments, p ctx (.behind last pos broken comments (word ++ ' ' :: (front ++ rest))) =
      q ctx (Cursor.behind last pos broken comments (word ++ ' ' :: (front ++ rest))).next) :
    Crosses ctx p broken pos (word ++ ' ' :: front) rest a met := by
  have size : pos + byteLength word + 1 + byteLength front = pos + byteLength (word ++ ' ' :: front) := by
    have one : ' '.utf8Size = 1 := by decide
    rw [Text.byteLength_append, byteLength, one]
    omega
  constructor
  · rw [← size]
    exact crosses.inside.mono (by omega) (Nat.le_refl _)
  · intro last comments
    have later : q ctx (.facing (pos + byteLength word) (pos + byteLength word + 1) comments (front ++ rest)) = _ :=
      crosses.run _ comments
    rw [List.append_assoc, List.cons_append, same, lexes.next_behind, Cursor.facing_blank, later, size]

/-! ### Loops -/

theorem repeated_eq_nil {step : Parse (Option α)} {c : Cursor} (stays : step ctx c = .ok none c) :
    Parse.repeated step ctx c = .ok [] c := by
  have none : ∀ fuel, Parse.repeatN step fuel ctx c = .ok [] c := by
    intro fuel
    cases fuel with
    | zero => rfl
    | succ fuel => simp [Parse.repeatN, stays]
  exact none _

section
variable {step : Parse (Option α)}

/-- How a step that is repeated crosses a text, piece by piece, up to where it gives nothing. The first token of each
piece starts inside it. -/
inductive Rows (ctx : Context) (step : Parse (Option α)) (rest : List Char) :
    Nat → List Char → List α → List Comment → Prop
  | last {pos : Nat} {front : List Char} {a : α} {met : List Comment} (nonempty : front ≠ [])
    (starts : ∀ last comments, (Cursor.facing last pos comments (front ++ rest)).lo < pos + byteLength front)
    (crosses : Crosses ctx step false pos front rest (some a) met)
    (ends : Sees ctx step (pos + byteLength front) rest none) : Rows ctx step rest pos front [a] met
  | cons {pos : Nat} {front more : List Char} {a : α} {as : List α} {met others : List Comment} (nonempty : front ≠ [])
    (starts : ∀ last comments, (Cursor.facing last pos comments (front ++ (more ++ rest))).lo < pos + byteLength front)
    (crosses : Crosses ctx step false pos front (more ++ rest) (some a) met)
    (later : Rows ctx step rest (pos + byteLength front) more as others) :
    Rows ctx step rest pos (front ++ more) (a :: as) (others ++ met)

namespace Rows

variable {as : List α}

theorem repeatN (rows : Rows ctx step rest pos front as met) :
    ∀ fuel, as.length ≤ fuel → Crosses ctx (Parse.repeatN step fuel) false pos front rest as met := by
  induction rows with
  | @last pos front a met nonempty starts crosses ends =>
    intro fuel room
    cases fuel with
    | zero => simp at room
    | succ fuel => exact crosses.bind_sees ((ends.repeatN fuel).bind (.pure [a] _ rest))
  | @cons pos front more a as met others nonempty starts crosses later ih =>
    intro fuel room
    cases fuel with
    | zero => simp at room
    | succ fuel => exact crosses.bind ((ih fuel (by simpa using room)).bind_sees (.pure (a :: as) _ rest))

theorem length_le (rows : Rows ctx step rest pos front as met) : as.length ≤ byteLength front := by
  induction rows with
  | last nonempty => exact byteLength_pos nonempty
  | cons nonempty starts crosses later ih =>
    have some := byteLength_pos nonempty
    rw [Text.byteLength_append, List.length_cons]
    omega

/-- The first piece starts where there are bytes left for all pieces. -/
theorem starts (rows : Rows ctx step rest pos front as met) (last : Nat) (comments : List Comment) :
    (Cursor.facing last pos comments (front ++ rest)).lo + as.length ≤ pos + byteLength front := by
  cases rows with
  | last nonempty starts =>
    have first := starts last comments
    rw [List.length_singleton]
    omega
  | cons nonempty starts crosses later =>
    have others := later.length_le
    have first := starts last comments
    rw [List.append_assoc, Text.byteLength_append, List.length_cons]
    omega

/-- Every piece takes a byte, so the budget lets the step be repeated to the end. -/
theorem repeated (rows : Rows ctx step rest pos front as met) (fits : Fits ctx pos (front ++ rest)) :
    Crosses ctx (Parse.repeated step) false pos front rest as met where
  inside := (rows.repeatN _ (Nat.le_refl _)).inside
  run last comments := by
    have room := fits.room
    have start : (Cursor.behind last pos false comments (front ++ rest)).lo + as.length ≤ pos + byteLength front :=
      rows.starts last comments
    rw [Text.byteLength_append] at room
    exact (rows.repeatN _ (by omega)).run last comments

end Rows

end

end

/-! ### Lists -/

section
variable {α ι : Type} {ctx : Context} {step : Parse (Option α)} {chars : ι → List Char} {gives : α → ι → Prop}
  {closing : List Char} {items : List ι} {pos : Nat}

/-- A step that is repeated crosses items one by one, with a comma between them, up to a closing text. -/
structure Listing (ctx : Context) (step : Parse (Option α)) (chars : ι → List Char) (gives : α → ι → Prop)
    (closing : List Char) (items : List ι) : Prop where
  nonempty : ∀ x ∈ items, chars x ≠ []
  begins : BeginsItems chars ',' closing items
  last : ∀ x ∈ items, ∀ pos, Fits ctx pos (chars x ++ closing) →
    ∃ a met, Crosses ctx step false pos (chars x) closing (some a) met ∧ gives a x
  more : ∀ x ∈ items, ∀ pos cs, Fits ctx pos (chars x ++ ',' :: cs) →
    ∃ a met, Crosses ctx step false pos (chars x ++ [',']) cs (some a) met ∧ gives a x
  ends : ∀ pos, Sees ctx step pos closing none

private theorem Listing.tail {x : ι} {xs : List ι} (listing : Listing ctx step chars gives closing (x :: xs)) :
    Listing ctx step chars gives closing xs where
  nonempty y member := listing.nonempty y (List.mem_cons_of_mem x member)
  begins y member := listing.begins y (List.mem_cons_of_mem x member)
  last y member := listing.last y (List.mem_cons_of_mem x member)
  more y member := listing.more y (List.mem_cons_of_mem x member)
  ends := listing.ends

private theorem lo_lt_of_begins {gap front more : List Char} {token : Token} (shape : gap = [] ∨ gap = [' '])
    (begins : Begins (front ++ more) token) (nonempty : front ≠ []) (last : Nat) (comments : List Comment) :
    (Cursor.facing last pos comments (gap ++ front ++ more)).lo < pos + byteLength (gap ++ front) := by
  have some := byteLength_pos nonempty
  rw [Text.byteLength_append]
  rcases shape with rfl | rfl
  · rw [List.nil_append, begins.lo_facing]
    omega
  · have one : byteLength [' '] = 1 := rfl
    rw [List.singleton_append, List.cons_append, Cursor.facing_blank, begins.lo_facing]
    omega

private theorem blank_crosses {α : Type} {p : Parse α} {gap front more : List Char} {a : α} {met : List Comment}
    (shape : gap = [] ∨ gap = [' ']) (crosses : Crosses ctx p false (pos + byteLength gap) front more a met) :
    Crosses ctx p false pos (gap ++ front) more a met := by
  rcases shape with rfl | rfl
  · exact crosses
  · exact crosses.blank

/-- The pieces of a list: each item with the comma behind it, and a blank in front of all but the first. -/
private theorem Listing.rows : ∀ {items : List ι} {pos : Nat} (gap : List Char), (gap = [] ∨ gap = [' ']) →
    Listing ctx step chars gives closing items → items ≠ [] →
    Fits ctx pos (gap ++ ([',', ' '].intercalate (items.map chars) ++ closing)) →
    ∃ as met, Rows ctx step closing pos (gap ++ [',', ' '].intercalate (items.map chars)) as met ∧
      List.Forall₂ gives as items
  | [], _, _, _, _, nonempty, _ => absurd rfl nonempty
  | [x], pos, gap, shape, listing, _, fits => by
    rw [List.map_singleton, List.intercalate_singleton] at fits ⊢
    have nonempty := listing.nonempty x (by simp)
    obtain ⟨token, begins⟩ := (listing.begins x (by simp)).1
    obtain ⟨a, met, crosses, given⟩ := listing.last x (by simp) _ fits.drop
    exact ⟨[a], met, .last (by simp [nonempty]) (lo_lt_of_begins shape begins nonempty) (blank_crosses shape crosses)
      (listing.ends _), .cons given .nil⟩
  | x :: y :: xs, pos, gap, shape, listing, _, fits => by
    have text : [',', ' '].intercalate ((x :: y :: xs).map chars) =
        (chars x ++ [',']) ++ ([' '] ++ [',', ' '].intercalate ((y :: xs).map chars)) := by
      simp [List.intercalate_cons_cons]
    rw [text] at fits ⊢
    rw [List.append_assoc (chars x ++ [','])] at fits
    obtain ⟨token, begins⟩ := (listing.begins x (by simp)).2
      (([' '] ++ [',', ' '].intercalate ((y :: xs).map chars)) ++ closing)
    rw [← List.singleton_append, ← List.append_assoc] at begins
    obtain ⟨a, met, crosses, given⟩ := listing.more x (by simp) (pos + byteLength gap)
      (([' '] ++ [',', ' '].intercalate ((y :: xs).map chars)) ++ closing) (by simpa using fits.drop)
    have inner := fits.drop.drop
    rw [Nat.add_assoc, ← Text.byteLength_append] at inner
    rw [List.append_assoc] at inner
    obtain ⟨as, others, rows, later⟩ := Listing.rows [' '] (.inr rfl) listing.tail (by simp) inner
    rw [← List.append_assoc gap]
    exact ⟨a :: as, others ++ met, .cons (by simp) (lo_lt_of_begins shape begins (by simp))
      (blank_crosses shape crosses) rows, .cons given later⟩

/-- Items up to a closing text are crossed one after the other. -/
theorem Listing.repeated (listing : Listing ctx step chars gives closing items) (nonempty : items ≠ [])
    (fits : Fits ctx pos ([',', ' '].intercalate (items.map chars) ++ closing)) :
    ∃ as met, Crosses ctx (Parse.repeated step) false pos ([',', ' '].intercalate (items.map chars)) closing as met ∧
      List.Forall₂ gives as items := by
  obtain ⟨as, met, rows, given⟩ := listing.rows [] (.inl rfl) nonempty fits
  exact ⟨as, met, rows.repeated fits, given⟩

/-- Items with commas between them up to a place where the list is closed. -/
theorem commaStep_listing {closed : Parse Bool} {element : Parse α} {ends : List Char → Prop}
    (reads : ∀ x ∈ items, ∀ pos rest, Fits ctx pos (chars x ++ rest) → ends rest →
      ∃ a met, Crosses ctx element false pos (chars x) rest a met ∧ gives a x)
    (nonempty : ∀ x ∈ items, chars x ≠ [])
    (opens : ∀ x ∈ items, ∀ rest, ends rest →
      (∃ token, Begins (chars x ++ rest) token) ∧ ∀ pos, Sees ctx closed pos (chars x ++ rest) false)
    (comma : ∀ cs, ends (',' :: cs)) (final : ends closing) (closes : ∀ pos, Sees ctx closed pos closing true)
    (stops : ∀ pos, Sees ctx (Parse.eat ",") pos closing false) :
    Listing ctx (commaStep closed element) chars gives closing items where
  nonempty := nonempty
  begins x member := ⟨(opens x member closing final).1, fun cs => (opens x member _ (comma cs)).1⟩
  last x member pos fits := by
    obtain ⟨a, met, crosses, given⟩ := reads x member pos closing fits final
    obtain ⟨-, opened⟩ := opens x member closing final
    exact ⟨a, met, (opened pos).bind_crosses
      (crosses.bind_sees ((stops _).bind ((closes _).bind (.pure _ _ _)))), given⟩
  more x member pos cs fits := by
    obtain ⟨a, met, crosses, given⟩ := reads x member pos _ fits (comma cs)
    obtain ⟨-, opened⟩ := opens x member _ (comma cs)
    have separator : Lexes [','] (.symbol ",") cs := lexes_mark (by simp [marks]) cs
    refine ⟨a, met, Sees.bind_crosses_append (opened pos) (crosses.bind_takes ?_), given⟩
    exact separator.eat.bind_sees (.pure _ _ _)
  ends pos := (closes pos).bind (.pure _ _ _)

end

end DocLocale.Source
