import DocLocale.Proofs.Source.Taking
import Mathlib.Data.List.Forall2
import Mathlib.Tactic.Common

/-!
What stands behind a type in a source, and lists of items with commas between them.
-/

set_option autoImplicit false
set_option relaxedAutoImplicit false

namespace DocLocale.Source

open Text (byteLength)

/-! ## What follows -/

/-- Tokens that may follow a whole type. -/
def stopTokens : List Token :=
  [.eof, .symbol ",", .symbol ">", .symbol ")", .symbol ";", .symbol "]", .symbol "\x7d"]

/-- Tokens that go on with a type. -/
def operatorTokens : List Token := [.symbol "|", .symbol "[", .symbol "<"]

/-- Tokens that may follow a member of a union. -/
def memberTokens : List Token := .symbol "|" :: stopTokens

/-- Tokens that may follow a type without operators. -/
def atomTokens : List Token := .symbol "[" :: memberTokens

/-- A text that does not belong to the type in front of it. -/
structure Follows (tokens : List Token) (cs : List Char) : Prop where
  apart : Apart cs
  shows : ∃ token ∈ tokens, Shows cs token

theorem Follows.mono {tokens others : List Token} {cs : List Char} (follows : Follows tokens cs)
    (more : ∀ token ∈ tokens, token ∈ others) : Follows others cs := by
  obtain ⟨token, listed, shown⟩ := follows.shows
  exact ⟨follows.apart, token, more token listed, shown⟩

/-- Where a text stands in the text of a context. -/
structure Fits (ctx : Context) (pos : Nat) (cs : List Char) : Prop where
  text : ∃ before, ctx.text = before ++ cs ∧ byteLength before = pos
  room : pos + byteLength cs ≤ ctx.size

theorem Fits.drop {ctx : Context} {pos : Nat} {front cs : List Char} (fits : Fits ctx pos (front ++ cs)) :
    Fits ctx (pos + byteLength front) cs := by
  obtain ⟨before, whole, start⟩ := fits.text
  have room := fits.room
  rw [Text.byteLength_append] at room
  exact ⟨⟨before ++ front, by rw [whole, List.append_assoc], by rw [Text.byteLength_append, start]⟩, by omega⟩

theorem Fits.tail {ctx : Context} {pos : Nat} {c : Char} {cs : List Char} (fits : Fits ctx pos (c :: cs)) :
    Fits ctx (pos + byteLength [c]) cs :=
  Fits.drop (by exact fits)

theorem Fits.blank {ctx : Context} {pos : Nat} {cs : List Char} (fits : Fits ctx pos (' ' :: cs)) :
    Fits ctx (pos + 1) cs := fits.tail

/-- The text of a type is cut out of the source whole. -/
theorem Fits.slice {ctx : Context} {pos : Nat} {front cs : List Char} (fits : Fits ctx pos (front ++ cs)) :
    Text.slice? ctx.text pos (pos + byteLength front) = some front := by
  obtain ⟨before, whole, start⟩ := fits.text
  exact Text.slice?_eq_some_iff.mpr ⟨before, cs, whole, start, rfl⟩

/-- The marks that stop a type. -/
def stopMarks : List (Char × String) := [(',', ","), ('>', ">"), (')', ")"), (';', ";"), (']', "]"), ('\x7d', "\x7d")]

theorem marks_of_stopMarks {m : Char × String} (mark : m ∈ stopMarks) : m ∈ marks := by
  simp only [stopMarks, List.mem_cons, List.not_mem_nil, or_false] at mark
  rcases mark with rfl | rfl | rfl | rfl | rfl | rfl <;> simp [marks]

theorem follows_mark {c : Char} {s : String} (mark : (c, s) ∈ stopMarks) (cs : List Char) :
    Follows stopTokens (c :: cs) := by
  refine ⟨apart_mark (marks_of_stopMarks mark) cs, .symbol s, ?_, (lexes_mark (marks_of_stopMarks mark) cs).shows⟩
  simp only [stopMarks, List.mem_cons, Prod.mk.injEq, List.not_mem_nil, or_false] at mark
  simp only [stopTokens, List.mem_cons, Token.symbol.injEq, List.not_mem_nil, or_false]
  tauto

theorem begins_mark {c : Char} {s : String} (mark : (c, s) ∈ marks) (cs : List Char) : Begins (c :: cs) (.symbol s) :=
  (lexes_mark mark cs).begins

theorem follows_comma (cs : List Char) : Follows stopTokens (',' :: cs) := follows_mark (s := ",") (by simp [stopMarks]) cs

theorem Follows.blank_mark {c : Char} {s : String} (mark : (c, s) ∈ stopMarks) (cs : List Char) :
    Follows stopTokens (' ' :: c :: cs) := by
  obtain ⟨token, listed, shown⟩ := (follows_mark mark cs).shows
  exact ⟨apart_blank _, token, listed, shown.blank⟩

/-! ## Lists -/

section
variable {α ι : Type} {ctx : Context} {step : Parse (Option α)} {chars : ι → List Char} {gives : α → ι → Prop}
  {separator : Char} {closing : List Char} {items : List ι} {pos : Nat}

/-- The texts of items start with tokens where they are listed. -/
def BeginsItems (chars : ι → List Char) (separator : Char) (closing : List Char) (items : List ι) : Prop :=
  ∀ x ∈ items, (∃ token, Begins (chars x ++ closing) token) ∧ ∀ cs, ∃ token, Begins (chars x ++ separator :: cs) token

theorem BeginsItems.first (begins : BeginsItems chars separator closing items) (nonempty : items ≠ []) :
    ∃ token, Begins ([separator, ' '].intercalate (items.map chars) ++ closing) token := by
  match items, nonempty with
  | [x], _ => simpa using (begins x (by simp)).1
  | x :: y :: xs, _ =>
    rw [List.map_cons, List.map_cons, List.intercalate_cons_cons, List.append_assoc, List.append_assoc]
    exact (begins x (by simp)).2 _

/-- A step that is repeated reads items one by one, with a separator between them, up to a closing text. -/
structure Rounds (ctx : Context) (step : Parse (Option α)) (chars : ι → List Char) (gives : α → ι → Prop) (separator : Char)
    (closing : List Char) (items : List ι) : Prop where
  nonempty : ∀ x ∈ items, chars x ≠ []
  begins : BeginsItems chars separator closing items
  last : ∀ x ∈ items, ∀ pos, Fits ctx pos (chars x ++ closing) →
    ∃ a, Takes ctx step pos (chars x) closing (some a) ∧ gives a x
  more : ∀ x ∈ items, ∀ pos cs, Fits ctx pos (chars x ++ separator :: cs) →
    ∃ a, Takes ctx step pos (chars x ++ [separator]) cs (some a) ∧ gives a x
  ends : ∀ pos, Sees ctx step pos closing none

private theorem Rounds.tail {x : ι} {xs : List ι} (rounds : Rounds ctx step chars gives separator closing (x :: xs)) :
    Rounds ctx step chars gives separator closing xs where
  nonempty y member := rounds.nonempty y (List.mem_cons_of_mem x member)
  begins y member := rounds.begins y (List.mem_cons_of_mem x member)
  last y member := rounds.last y (List.mem_cons_of_mem x member)
  more y member := rounds.more y (List.mem_cons_of_mem x member)
  ends := rounds.ends

theorem Rounds.pieces : ∀ {items : List ι} {pos : Nat}, Rounds ctx step chars gives separator closing items →
    items ≠ [] → Fits ctx pos ([separator, ' '].intercalate (items.map chars) ++ closing) →
    ∃ as, Pieces ctx step closing pos ([separator, ' '].intercalate (items.map chars)) as ∧ List.Forall₂ gives as items
  | [], _, _, nonempty, _ => absurd rfl nonempty
  | [x], pos, rounds, _, fits => by
    rw [List.map_singleton, List.intercalate_singleton] at fits ⊢
    obtain ⟨a, taken, given⟩ := rounds.last x (by simp) pos fits
    exact ⟨[a], .last (rounds.nonempty x (by simp)) taken (rounds.ends _), .cons given .nil⟩
  | x :: y :: xs, pos, rounds, _, fits => by
    have shape : [separator, ' '].intercalate ((x :: y :: xs).map chars) =
        (chars x ++ [separator]) ++ ' ' :: [separator, ' '].intercalate ((y :: xs).map chars) := by
      simp [List.intercalate_cons_cons]
    rw [shape] at fits ⊢
    rw [List.append_assoc] at fits
    obtain ⟨a, taken, given⟩ := rounds.more x (by simp) pos _ (by simpa using fits)
    obtain ⟨as, pieces, later⟩ := Rounds.pieces rounds.tail (by simp) fits.drop.blank
    exact ⟨a :: as, .cons (by simp) taken pieces.blank, .cons given later⟩

theorem Rounds.repeated (rounds : Rounds ctx step chars gives separator closing items) (nonempty : items ≠ [])
    (fits : Fits ctx pos ([separator, ' '].intercalate (items.map chars) ++ closing)) :
    ∃ as, Takes ctx (Parse.repeated step) pos ([separator, ' '].intercalate (items.map chars)) closing as ∧
      List.Forall₂ gives as items := by
  obtain ⟨as, pieces, given⟩ := rounds.pieces nonempty fits
  obtain ⟨token, begins⟩ := rounds.begins.first nonempty
  have room := fits.room
  rw [Text.byteLength_append] at room
  exact ⟨as, pieces.repeated begins.near (by omega), given⟩

theorem Rounds.repeated_blank (rounds : Rounds ctx step chars gives separator closing items) (nonempty : items ≠ [])
    (fits : Fits ctx pos (' ' :: ([separator, ' '].intercalate (items.map chars) ++ closing))) :
    ∃ as, Takes ctx (Parse.repeated step) pos (' ' :: [separator, ' '].intercalate (items.map chars)) closing as ∧
      List.Forall₂ gives as items := by
  obtain ⟨as, pieces, given⟩ := rounds.pieces nonempty fits.blank
  obtain ⟨token, begins⟩ := rounds.begins.first nonempty
  have room := fits.room
  rw [← List.cons_append, Text.byteLength_append] at room
  exact ⟨as, pieces.blank.repeated begins.near_blank (by omega), given⟩

/-- Items up to a closing mark are read one after the other, and the mark is taken. -/
theorem Rounds.closed {β : Type} {c : Char} {s : String} {rest : List Char} {finish : List α → Parse β} {b : β}
    (rounds : Rounds ctx step chars gives separator (c :: rest) items) (mark : (c, s) ∈ marks)
    (fits : Fits ctx pos ([separator, ' '].intercalate (items.map chars) ++ c :: rest))
    (finishes : ∀ as, List.Forall₂ gives as items → ∀ comments last,
      last = pos + byteLength ([separator, ' '].intercalate (items.map chars) ++ [c]) →
      finish as ctx (.facing last last comments rest) = .ok b (.facing last last comments rest)) :
    Takes ctx (Parse.repeated step >>= fun as => Parse.expect s >>= fun _ => finish as) pos
      ([separator, ' '].intercalate (items.map chars) ++ [c]) rest b := by
  have closing := lexes_mark mark rest
  by_cases empty : items = []
  · subst empty
    exact (Sees.repeated (rounds.ends pos)).bind_takes
      (closing.expect.bind_stay fun comments => finishes [] .nil comments _ rfl)
  · obtain ⟨as, taken, given⟩ := rounds.repeated empty fits
    refine taken.bind (closing.expect.bind_stay fun comments => finishes as given comments _ ?_)
    rw [Text.byteLength_append, Nat.add_assoc]

end

section
variable {α ι : Type} {ctx : Context} {element : Parse α} {chars : ι → List Char} {gives : α → ι → Prop} {s : String}
  {items : List ι}

/-- A parser reads items from their texts. -/
def ReadsItems (ctx : Context) (element : Parse α) (chars : ι → List Char) (gives : α → ι → Prop) (items : List ι) : Prop :=
  ∀ x ∈ items, ∀ pos rest, Fits ctx pos (chars x ++ rest) → Follows stopTokens rest →
    ∃ a, Takes ctx element pos (chars x) rest a ∧ gives a x

/-- The texts of items start with a token other than the symbol `s`. -/
def StartsOff (chars : ι → List Char) (s : String) (items : List ι) : Prop :=
  ∀ x ∈ items, chars x ≠ [] ∧ ∀ rest, Follows stopTokens rest →
    ∃ token, token ≠ .symbol s ∧ Begins (chars x ++ rest) token

theorem StartsOff.begins {c : Char} (starts : StartsOff chars s items) (mark : (c, s) ∈ stopMarks) (rest : List Char) :
    BeginsItems chars ',' (c :: rest) items := by
  intro x member
  obtain ⟨-, begins⟩ := starts x member
  refine ⟨?_, fun cs => ?_⟩
  · obtain ⟨token, -, first⟩ := begins _ (follows_mark mark rest)
    exact ⟨token, first⟩
  · obtain ⟨token, -, first⟩ := begins _ (follows_comma cs)
    exact ⟨token, first⟩

/-- One round of a list with commas. -/
def commaStep (closed : Parse Bool) (element : Parse α) : Parse (Option α) := do
  if ← closed then return none
  let a ← element
  if ← Parse.eat "," then return some a
  if ← closed then return some a
  Parse.fail

/-- Items with commas between them and a closing mark behind are read one after the other. -/
theorem commaStep_rounds {c : Char} (mark : (c, s) ∈ stopMarks) (other : s ≠ ",")
    (reads : ReadsItems ctx element chars gives items) (starts : StartsOff chars s items) (rest : List Char) :
    Rounds ctx (commaStep (Parse.isSymbol s) element) chars gives ',' (c :: rest) items where
  nonempty x member := (starts x member).1
  begins := starts.begins mark rest
  last x member pos fits := by
    obtain ⟨a, taken, given⟩ := reads x member pos _ fits (follows_mark mark rest)
    obtain ⟨token, opens, shown, -⟩ := (starts x member).2 _ (follows_mark mark rest)
    have closes := (lexes_mark (marks_of_stopMarks mark) rest).shows
    have comma : Token.symbol s ≠ .symbol "," := by simpa using other
    exact ⟨a, (shown.not_isSymbol opens).bind_takes
      (taken.bind_sees ((closes.not_eat comma).bind (closes.isSymbol.bind (.pure _ _ _)))), given⟩
  more x member pos cs fits := by
    obtain ⟨a, taken, given⟩ := reads x member pos _ fits (follows_comma cs)
    obtain ⟨token, opens, shown, -⟩ := (starts x member).2 _ (follows_comma cs)
    have comma : Lexes [','] (.symbol ",") cs := lexes_mark (by simp [marks]) cs
    rw [← List.singleton_append, ← List.append_assoc] at shown
    exact ⟨a, (shown.not_isSymbol opens).bind_takes (taken.bind (comma.eat.bind_sees (.pure _ _ _))), given⟩
  ends pos := (lexes_mark (marks_of_stopMarks mark) rest).shows.isSymbol.bind (.pure _ _ _)

end

end DocLocale.Source
