import DocLocale.Source.Location
import DocLocale.Text.Bytes
import Mathlib.Algebra.Ring.Nat

/-!
Where a byte of a text is located. The text is read once from its start: a line end puts the count of columns back to
none, every other character adds its own. Main statement: between the characters of a line, the line number is the
number of line ends passed and the column the sum of the columns on the line, both counted from one.
-/

set_option autoImplicit false
set_option relaxedAutoImplicit false

namespace DocLocale.Source

open Text (byteLength)

/-- The line ends of a text that `rest` follows. -/
def lineEnds (rest : List Char) : List Char → Nat
  | [] => 0
  | c :: cs => (if endsLine c (cs ++ rest) then 1 else 0) + lineEnds rest cs

/-- A place between two characters of a line of a text. -/
structure Spot (text : List Char) where
  /-- The lines before this one. -/
  above : List Char
  /-- The line up to the place. -/
  front : List Char
  /-- The line from the place on. -/
  rest : List Char
  /-- The text from the end of the line on. -/
  below : List Char
  whole : text = above ++ (front ++ rest ++ below)
  starts : ∀ c ∈ above.getLast?, endsLine c (front ++ rest ++ below) = true
  ends : ∀ c ∈ below.head?, c = '\n'
  unbroken : ∀ c ∈ front ++ rest, c ≠ '\n' ∧ c ≠ '\r'

namespace Spot

variable {text : List Char} (spot : Spot text)

/-- The line of a place. -/
abbrev line : List Char := spot.front ++ spot.rest

/-- The byte that a place lies before. -/
def position : Nat := byteLength spot.above + byteLength spot.front

end Spot

section Runs

variable {line column bytes : Nat} {start : List Char}

/-- One step over a character: it ends the line or adds its columns. -/
theorem locateFrom_cons (c : Char) (cs : List Char) :
    locateFrom line column start (c.utf8Size + bytes) (c :: cs) =
      if endsLine c cs then locateFrom (line + 1) 0 cs bytes cs
      else locateFrom line (column + columnsOf c) start bytes cs := by
  have size := c.utf8Size_pos
  rw [locateFrom, if_neg (by omega), Nat.add_sub_cancel_left]

/-- A run over characters of a line adds up their columns. -/
theorem locateFrom_of_unbroken {front rest : List Char} (unbroken : ∀ c ∈ front, c ≠ '\n' ∧ c ≠ '\r') :
    locateFrom line column start (byteLength front + bytes) (front ++ rest) =
      locateFrom line (column + (front.map columnsOf).sum) start bytes rest := by
  induction front generalizing column with
  | nil => rw [byteLength, Nat.zero_add, List.nil_append, List.map_nil, List.sum_nil, Nat.add_zero]
  | cons c front ih =>
    obtain ⟨feed, carriage⟩ := unbroken c (.head _)
    have inside : ¬endsLine c (front ++ rest) = true := by simp [endsLine, feed, carriage]
    rw [byteLength, Nat.add_assoc, List.cons_append, locateFrom_cons, if_neg inside,
      ih fun d member => unbroken d (.tail _ member), List.map_cons, List.sum_cons, Nat.add_assoc]

/-- A run over whole lines counts them and comes to the start of a line. -/
theorem locateFrom_of_lines {above rest : List Char} (nonempty : above ≠ [])
    (starts : ∀ c ∈ above.getLast?, endsLine c rest = true) :
    locateFrom line column start (byteLength above + bytes) (above ++ rest) =
      locateFrom (line + lineEnds rest above) 0 rest bytes rest := by
  induction above generalizing line column start with
  | nil => exact absurd rfl nonempty
  | cons c above ih =>
    rw [byteLength, Nat.add_assoc, List.cons_append, locateFrom_cons, lineEnds]
    cases above with
    | nil =>
      have last : endsLine c rest = true := starts c rfl
      rw [List.nil_append, if_pos last, if_pos last, lineEnds, byteLength, Nat.zero_add]
    | cons d above =>
      have further := List.cons_ne_nil d above
      split
      · rw [ih further starts, Nat.add_assoc]
      · rw [ih further starts, Nat.zero_add]

/-- At the byte looked for, the line is read from its start. -/
theorem locateFrom_zero (cs : List Char) :
    locateFrom line column start 0 cs = ⟨line, column + 1, String.ofList (start.takeWhile (· ≠ '\n'))⟩ := by
  cases cs with
  | nil => rfl
  | cons c cs => rw [locateFrom, if_pos rfl]

end Runs

namespace Spot

variable {text : List Char} (spot : Spot text)

theorem takeWhile_eq_line : (spot.line ++ spot.below).takeWhile (· ≠ '\n') = spot.line := by
  have stop : spot.below.takeWhile (· ≠ '\n') = [] := by
    cases below : spot.below with
    | nil => rfl
    | cons c cs =>
      have feed : c = '\n' := spot.ends c (by rw [below]; rfl)
      simp [feed]
  rw [List.takeWhile_append_of_pos fun c member => decide_eq_true (spot.unbroken c member).1, stop, List.append_nil]

/-- A run over a text comes to the start of the line of a place. -/
theorem locate_eq_locateFrom : locate text spot.position =
    locateFrom (1 + lineEnds (spot.line ++ spot.below) spot.above) 0 (spot.line ++ spot.below)
      (byteLength spot.front) (spot.line ++ spot.below) := by
  obtain ⟨above, front, rest, below, rfl, starts, -, -⟩ := spot
  cases above with
  | nil => rw [position, byteLength, Nat.zero_add, lineEnds, Nat.add_zero]; rfl
  | cons c above => exact locateFrom_of_lines (List.cons_ne_nil c above) starts

/-- A place is located on its line, behind the columns of the characters before it. -/
theorem locate_position : locate text spot.position = ⟨1 + lineEnds (spot.line ++ spot.below) spot.above,
    (spot.front.map columnsOf).sum + 1, String.ofList spot.line⟩ := by
  have inside : ∀ c ∈ spot.front, c ≠ '\n' ∧ c ≠ '\r' :=
    fun c member => spot.unbroken c (List.mem_append_left _ member)
  calc locate text spot.position
    _ = locateFrom (1 + lineEnds (spot.line ++ spot.below) spot.above) 0 (spot.line ++ spot.below)
          (byteLength spot.front + 0) (spot.front ++ (spot.rest ++ spot.below)) := by
      rw [locate_eq_locateFrom, Nat.add_zero, List.append_assoc]
    _ = _ := locateFrom_of_unbroken inside
    _ = _ := by rw [locateFrom_zero, takeWhile_eq_line, Nat.zero_add]

end Spot

end DocLocale.Source
