import DocLocale.Proofs.Source.Facing
import Mathlib.Tactic.Common

/-!
What parsers do in front of a text. A parser takes the front of the text, or only looks at it, or fails there; the
rules put parsers one after the other.
-/

set_option autoImplicit false
set_option relaxedAutoImplicit false

namespace DocLocale.Source

open Text (byteLength)

/-! ## Running parsers -/

section
variable {α β : Type} (ctx : Context) (c : Cursor)

@[simp] theorem Parse.run_bind (p : Parse α) (f : α → Parse β) :
    (p >>= f) ctx c = match p ctx c with | .ok a c => f a ctx c | .fail c => .fail c := rfl

@[simp] theorem Parse.run_pure (a : α) : (pure a : Parse α) ctx c = .ok a c := rfl

@[simp] theorem Parse.run_ite (b : Prop) [Decidable b] (p q : Parse α) :
    (if b then p else q) ctx c = if b then p ctx c else q ctx c := by split <;> rfl

end

variable {α β : Type} {ctx : Context} {p : Parse α} {f : α → Parse β} {pos : Nat} {front more rest cs : List Char}
  {a : α} {b : β}

/-- A parser takes `front` off the text at `pos`, where `rest` follows, and gives a value. -/
def Takes (ctx : Context) (p : Parse α) (pos : Nat) (front rest : List Char) (value : α) : Prop :=
  ∀ last comments, p ctx (.facing last pos comments (front ++ rest)) =
    .ok value (.facing (pos + byteLength front) (pos + byteLength front) comments rest)

/-- A parser gives a value and stays in front of the text. -/
def Sees (ctx : Context) (p : Parse α) (pos : Nat) (cs : List Char) (value : α) : Prop :=
  ∀ last comments, p ctx (.facing last pos comments cs) = .ok value (.facing last pos comments cs)

/-- A parser fails in front of the text. -/
def Fails (ctx : Context) (p : Parse α) (pos : Nat) (cs : List Char) : Prop :=
  ∀ last comments, ∃ c, p ctx (.facing last pos comments cs) = .fail c

theorem Takes.bind (first : Takes ctx p pos front (more ++ rest) a)
    (later : Takes ctx (f a) (pos + byteLength front) more rest b) : Takes ctx (p >>= f) pos (front ++ more) rest b := by
  intro last comments
  rw [List.append_assoc, Parse.run_bind, first last comments]
  simp only
  rw [later, Text.byteLength_append, Nat.add_assoc]

theorem Takes.bind_cons {c : Char} (first : Takes ctx p pos [c] (more ++ rest) a)
    (later : Takes ctx (f a) (pos + byteLength [c]) more rest b) : Takes ctx (p >>= f) pos (c :: more) rest b :=
  first.bind later

/-- What follows looks back at where the token before ended. -/
theorem Takes.bind_stay (first : Takes ctx p pos front rest a)
    (later : ∀ comments, f a ctx (.facing (pos + byteLength front) (pos + byteLength front) comments rest) =
      .ok b (.facing (pos + byteLength front) (pos + byteLength front) comments rest)) :
    Takes ctx (p >>= f) pos front rest b := by
  intro last comments
  rw [Parse.run_bind, first last comments]
  exact later comments

theorem Takes.bind_sees (first : Takes ctx p pos front rest a)
    (later : Sees ctx (f a) (pos + byteLength front) rest b) : Takes ctx (p >>= f) pos front rest b :=
  first.bind_stay fun comments => later _ comments

theorem Takes.bind_previousEnd {g : α → Nat → Parse β} (first : Takes ctx p pos front rest a)
    (later : Sees ctx (g a (pos + byteLength front)) (pos + byteLength front) rest b) :
    Takes ctx (p >>= fun a => Parse.previousEnd >>= g a) pos front rest b :=
  first.bind_stay fun comments => later _ comments

/-- A parser takes `front`, or nothing, right behind the token before. -/
def Goes (ctx : Context) (p : Parse α) (pos : Nat) (front rest : List Char) (value : α) : Prop :=
  ∀ comments, p ctx (.facing pos pos comments (front ++ rest)) =
    .ok value (.facing (pos + byteLength front) (pos + byteLength front) comments rest)

theorem Takes.goes (taken : Takes ctx p pos front rest a) : Goes ctx p pos front rest a :=
  fun comments => taken pos comments

theorem Sees.goes (seen : Sees ctx p pos cs a) : Goes ctx p pos [] cs a := fun comments => seen pos comments

theorem Goes.bind (first : Goes ctx p pos front (more ++ rest) a)
    (later : Goes ctx (f a) (pos + byteLength front) more rest b) : Goes ctx (p >>= f) pos (front ++ more) rest b := by
  intro comments
  rw [List.append_assoc, Parse.run_bind, first comments]
  simp only
  rw [later comments, Text.byteLength_append, Nat.add_assoc]

theorem Goes.bind_sees (first : Goes ctx p pos front rest a)
    (later : Sees ctx (f a) (pos + byteLength front) rest b) : Goes ctx (p >>= f) pos front rest b := by
  intro comments
  rw [Parse.run_bind, first comments]
  exact later _ comments

theorem Sees.bind_goes (first : Sees ctx p pos (front ++ rest) a) (later : Goes ctx (f a) pos front rest b) :
    Goes ctx (p >>= f) pos front rest b := by
  intro comments
  rw [Parse.run_bind, first pos comments]
  exact later comments

theorem Takes.bind_goes (first : Takes ctx p pos front (more ++ rest) a)
    (later : Goes ctx (f a) (pos + byteLength front) more rest b) : Takes ctx (p >>= f) pos (front ++ more) rest b := by
  intro last comments
  rw [List.append_assoc, Parse.run_bind, first last comments]
  simp only
  rw [later comments, Text.byteLength_append, Nat.add_assoc]

theorem Takes.bind_fails (first : Takes ctx p pos front rest a)
    (later : Fails ctx (f a) (pos + byteLength front) rest) : Fails ctx (p >>= f) pos (front ++ rest) := by
  intro last comments
  rw [Parse.run_bind, first last comments]
  exact later _ comments

theorem Sees.bind_takes (first : Sees ctx p pos (front ++ rest) a) (later : Takes ctx (f a) pos front rest b) :
    Takes ctx (p >>= f) pos front rest b := by
  intro last comments
  rw [Parse.run_bind, first last comments]
  exact later last comments

theorem Sees.bind_takes_append (first : Sees ctx p pos (front ++ (more ++ rest)) a)
    (later : Takes ctx (f a) pos (front ++ more) rest b) : Takes ctx (p >>= f) pos (front ++ more) rest b := by
  rw [← List.append_assoc] at first
  exact first.bind_takes later

theorem Sees.run_bind (first : Sees ctx p pos cs a) (last : Nat) (comments : List Comment) :
    (p >>= f) ctx (.facing last pos comments cs) = f a ctx (.facing last pos comments cs) := by
  rw [Parse.run_bind, first last comments]

theorem Sees.bind (first : Sees ctx p pos cs a) (later : Sees ctx (f a) pos cs b) : Sees ctx (p >>= f) pos cs b := by
  intro last comments
  rw [Parse.run_bind, first last comments]
  exact later last comments

theorem Sees.bind_fails (first : Sees ctx p pos cs a) (later : Fails ctx (f a) pos cs) : Fails ctx (p >>= f) pos cs := by
  intro last comments
  rw [Parse.run_bind, first last comments]
  exact later last comments

theorem Fails.bind (first : Fails ctx p pos cs) : Fails ctx (p >>= f) pos cs := by
  intro last comments
  obtain ⟨c, failed⟩ := first last comments
  exact ⟨c, by rw [Parse.run_bind, failed]⟩

theorem Sees.pure (a : α) (pos : Nat) (cs : List Char) : Sees ctx (pure a : Parse α) pos cs a := fun _ _ => rfl

theorem Fails.fail (pos : Nat) (cs : List Char) : Fails ctx (Parse.fail : Parse α) pos cs := fun _ _ => ⟨_, rfl⟩

theorem Takes.blank (taken : Takes ctx p (pos + 1) front rest a) : Takes ctx p pos (' ' :: front) rest a := by
  have size : ' '.utf8Size = 1 := by decide
  intro last comments
  rw [List.cons_append, Cursor.facing_blank, taken last comments, byteLength, size, Nat.add_assoc]

theorem Sees.blank (seen : Sees ctx p (pos + 1) cs a) : Sees ctx p pos (' ' :: cs) a := by
  intro last comments
  rw [Cursor.facing_blank, seen last comments]

theorem Fails.blank (failed : Fails ctx p (pos + 1) cs) : Fails ctx p pos (' ' :: cs) := by
  intro last comments
  rw [Cursor.facing_blank]
  exact failed last comments

/-- Text that a parser takes whole, or fails in, may be tried. -/
theorem Fails.attempt (failed : Fails ctx p pos cs) : Sees ctx (Parse.attempt p) pos cs none := by
  intro last comments
  obtain ⟨c, stopped⟩ := failed last comments
  rw [Parse.attempt, stopped]

theorem Fails.wouldParse (failed : Fails ctx p pos cs) : Sees ctx (Parse.wouldParse p) pos cs false := by
  intro last comments
  obtain ⟨c, stopped⟩ := failed last comments
  rw [Parse.wouldParse, stopped]

theorem Takes.wouldParse (taken : Takes ctx p pos front rest a) :
    Sees ctx (Parse.wouldParse p) pos (front ++ rest) true := by
  intro last comments
  rw [Parse.wouldParse, taken last comments]

/-! ## Tokens -/

/-- The token in front of a text, on the same line. -/
def Shows (cs : List Char) (token : Token) : Prop :=
  ∀ last pos comments, (Cursor.facing last pos comments cs).token = token ∧
    (Cursor.facing last pos comments cs).lineBreak = false

theorem Lexes.shows {token : Token} (lexes : Lexes front token rest) : Shows (front ++ rest) token :=
  fun last pos comments => ⟨lexes.token_facing last pos comments, lexes.lineBreak_facing last pos comments⟩

theorem Shows.blank {token : Token} (shows_ : Shows cs token) : Shows (' ' :: cs) token := by
  intro last pos comments
  rw [Cursor.facing_blank]
  exact shows_ last (pos + 1) comments

theorem shows_nil : Shows [] .eof := fun _ _ _ => ⟨rfl, rfl⟩

section
variable {token : Token}

theorem Shows.sees_token (shown : Shows cs token) : Sees ctx Parse.token pos cs token := fun last comments => by
  rw [Parse.token, (shown last pos comments).1]

theorem Shows.sees_lineBreak (shown : Shows cs token) : Sees ctx Parse.lineBreak pos cs false := fun last comments => by
  rw [Parse.lineBreak, (shown last pos comments).2]

theorem Shows.isSymbol {s : String} (shown : Shows cs (.symbol s)) : Sees ctx (Parse.isSymbol s) pos cs true :=
  fun last comments => by rw [Parse.isSymbol, (shown last pos comments).1, beq_self_eq_true]

theorem Shows.not_isSymbol {s : String} (shown : Shows cs token) (other : token ≠ .symbol s) :
    Sees ctx (Parse.isSymbol s) pos cs false := fun last comments => by
  rw [Parse.isSymbol, (shown last pos comments).1, beq_eq_false_iff_ne.mpr other]

theorem Shows.not_isWord {w : String} (shown : Shows cs token) (other : token ≠ .word w) :
    Sees ctx (Parse.isWord w) pos cs false := fun last comments => by
  rw [Parse.isWord, (shown last pos comments).1, beq_eq_false_iff_ne.mpr other]

theorem Shows.isOneOf {s : String} (shown : Shows cs (.symbol s)) (ss : List String) :
    Sees ctx (Parse.isOneOf ss) pos cs (ss.contains s) := fun last comments => by
  rw [Parse.isOneOf, (shown last pos comments).1]

theorem Shows.not_isOneOf {ss : List String} (shown : Shows cs token) (other : ∀ s ∈ ss, token ≠ .symbol s) :
    Sees ctx (Parse.isOneOf ss) pos cs false := fun last comments => by
  rw [Parse.isOneOf, (shown last pos comments).1]
  cases token with
  | symbol s =>
    have unlisted : s ∉ ss := fun listed => other s listed rfl
    simp [unlisted]
  | _ => rfl

theorem Shows.isReferenceWord {w : String} (shown : Shows cs (.word w)) :
    Sees ctx Parse.isReferenceWord pos cs (isReference w) := fun last comments => by
  rw [Parse.isReferenceWord, (shown last pos comments).1]

theorem Shows.not_isReferenceWord (shown : Shows cs token) (other : ∀ w, token ≠ .word w) :
    Sees ctx Parse.isReferenceWord pos cs false := fun last comments => by
  rw [Parse.isReferenceWord, (shown last pos comments).1]
  cases token with
  | word w => exact absurd rfl (other w)
  | _ => rfl

theorem Shows.not_eat {s : String} (shown : Shows cs token) (other : token ≠ .symbol s) :
    Sees ctx (Parse.eat s) pos cs false := fun last comments => by
  rw [Parse.eat, (shown last pos comments).1, if_neg (by simpa using other)]

theorem Shows.not_eatWord {w : String} (shown : Shows cs token) (other : token ≠ .word w) :
    Sees ctx (Parse.eatWord w) pos cs false := fun last comments => by
  rw [Parse.eatWord, (shown last pos comments).1, if_neg (by simpa using other)]

theorem Shows.not_expect {s : String} (shown : Shows cs token) (other : token ≠ .symbol s) :
    Fails ctx (Parse.expect s) pos cs := fun last comments => by
  rw [Parse.expect, (shown last pos comments).1, if_neg (by simpa using other)]
  exact ⟨_, rfl⟩

theorem Shows.not_expectWord {w : String} (shown : Shows cs token) (other : token ≠ .word w) :
    Fails ctx (Parse.expectWord w) pos cs := fun last comments => by
  rw [Parse.expectWord, (shown last pos comments).1, if_neg (by simpa using other)]
  exact ⟨_, rfl⟩

theorem Shows.not_anyWord (shown : Shows cs token) (other : ∀ w, token ≠ .word w) : Fails ctx Parse.anyWord pos cs := by
  intro last comments
  rw [Parse.anyWord, (shown last pos comments).1]
  cases token <;> simp_all

/-- The token that a text starts with, with no blank in front of it. -/
structure Begins (cs : List Char) (token : Token) : Prop where
  shows : Shows cs token
  lo_facing : ∀ last pos comments, (Cursor.facing last pos comments cs).lo = pos

theorem Lexes.begins (lexes : Lexes front token rest) : Begins (front ++ rest) token := ⟨lexes.shows, lexes.lo_facing⟩

theorem Begins.sees_position (begins : Begins cs token) : Sees ctx Parse.position pos cs pos :=
  fun last comments => by rw [Parse.position, begins.lo_facing]

theorem Lexes.advance (lexes : Lexes front token rest) : Takes ctx Parse.advance pos front rest () :=
  fun last comments => by rw [Parse.advance, lexes.next_facing]

theorem Lexes.expect {s : String} (lexes : Lexes front (.symbol s) rest) : Takes ctx (Parse.expect s) pos front rest () :=
  fun last comments => by rw [Parse.expect, lexes.token_facing, if_pos (by simp), lexes.next_facing]

theorem Lexes.eat {s : String} (lexes : Lexes front (.symbol s) rest) : Takes ctx (Parse.eat s) pos front rest true :=
  fun last comments => by rw [Parse.eat, lexes.token_facing, if_pos (by simp), lexes.next_facing]

theorem Lexes.eatWord {w : String} (lexes : Lexes front (.word w) rest) :
    Takes ctx (Parse.eatWord w) pos front rest true :=
  fun last comments => by rw [Parse.eatWord, lexes.token_facing, if_pos (by simp), lexes.next_facing]

theorem Lexes.expectWord {w : String} (lexes : Lexes front (.word w) rest) :
    Takes ctx (Parse.expectWord w) pos front rest () :=
  fun last comments => by rw [Parse.expectWord, lexes.token_facing, if_pos (by simp), lexes.next_facing]

theorem Lexes.anyWord {w : String} (lexes : Lexes front (.word w) rest) :
    Takes ctx Parse.anyWord pos front rest w :=
  fun last comments => by
    rw [Parse.anyWord, lexes.token_facing]
    simp only
    rw [lexes.next_facing]

end

/-! ## Loops -/

section
variable {step : Parse (Option α)}

/-- How a step that is repeated takes a text apart, piece by piece, up to where it gives nothing. -/
inductive Pieces (ctx : Context) (step : Parse (Option α)) (rest : List Char) : Nat → List Char → List α → Prop
  | last {pos : Nat} {front : List Char} {a : α} (nonempty : front ≠ [])
    (taken : Takes ctx step pos front rest (some a)) (ends : Sees ctx step (pos + byteLength front) rest none) :
    Pieces ctx step rest pos front [a]
  | cons {pos : Nat} {front more : List Char} {a : α} {as : List α} (nonempty : front ≠ [])
    (taken : Takes ctx step pos front (more ++ rest) (some a))
    (later : Pieces ctx step rest (pos + byteLength front) more as) :
    Pieces ctx step rest pos (front ++ more) (a :: as)

theorem Sees.repeatN (ends : Sees ctx step pos cs none) (fuel : Nat) :
    Sees ctx (Parse.repeatN step fuel) pos cs [] := by
  cases fuel with
  | zero => exact .pure [] pos cs
  | succ fuel => exact ends.bind (.pure [] pos cs)

theorem Sees.repeated (ends : Sees ctx step pos cs none) : Sees ctx (Parse.repeated step) pos cs [] :=
  fun last comments => ends.repeatN _ last comments

theorem Pieces.repeatN {as : List α} (pieces : Pieces ctx step rest pos front as) :
    ∀ fuel, as.length ≤ fuel → Takes ctx (Parse.repeatN step fuel) pos front rest as := by
  induction pieces with
  | @last pos front a nonempty taken ends =>
    intro fuel room
    cases fuel with
    | zero => simp at room
    | succ fuel => exact taken.bind_sees ((ends.repeatN fuel).bind (.pure [a] _ rest))
  | @cons pos front more a as nonempty taken later ih =>
    intro fuel room
    cases fuel with
    | zero => simp at room
    | succ fuel => exact taken.bind ((ih fuel (by simpa using room)).bind_sees (.pure (a :: as) _ rest))

theorem byteLength_pos (nonempty : front ≠ []) : 0 < byteLength front := by
  obtain ⟨c, front, rfl⟩ := List.exists_cons_of_ne_nil nonempty
  have size := c.utf8Size_pos
  rw [byteLength]
  omega

theorem Pieces.length_le {as : List α} (pieces : Pieces ctx step rest pos front as) :
    as.length ≤ byteLength front := by
  induction pieces with
  | last nonempty taken ends => exact byteLength_pos nonempty
  | cons nonempty taken later ih =>
    have some := byteLength_pos nonempty
    rw [List.length_cons, Text.byteLength_append]
    omega

theorem Pieces.blank {as : List α} (pieces : Pieces ctx step rest (pos + 1) front as) :
    Pieces ctx step rest pos (' ' :: front) as := by
  have size : ∀ cs, pos + 1 + byteLength cs = pos + byteLength (' ' :: cs) := by
    intro cs
    have one : ' '.utf8Size = 1 := by decide
    rw [byteLength, one, Nat.add_assoc]
  cases pieces with
  | last nonempty taken ends =>
    rw [size] at ends
    exact .last (by simp) taken.blank ends
  | cons nonempty taken later =>
    rw [size] at later
    exact .cons (by simp) taken.blank later

/-- The first token of a text stands behind one blank at most. -/
def Near (cs : List Char) : Prop := ∀ last pos comments, (Cursor.facing last pos comments cs).lo ≤ pos + 1

theorem Begins.near {token : Token} (begins : Begins cs token) : Near cs := by
  intro last pos comments
  rw [begins.lo_facing]
  exact Nat.le_succ pos

theorem Begins.near_blank {token : Token} (begins : Begins cs token) : Near (' ' :: cs) := by
  intro last pos comments
  have place : (Cursor.facing last pos comments (' ' :: cs)).lo = pos + 1 := by
    rw [Cursor.facing_blank, begins.lo_facing]
  exact Nat.le_of_eq place

/-- Every piece takes a byte, so the budget lets the step be repeated to the end. -/
theorem Pieces.repeated {as : List α} (pieces : Pieces ctx step rest pos front as) (near : Near (front ++ rest))
    (fits : pos + byteLength front ≤ ctx.size) : Takes ctx (Parse.repeated step) pos front rest as := by
  intro last comments
  have short := pieces.length_le
  have start := near last pos comments
  exact pieces.repeatN _ (by omega) last comments

end

end DocLocale.Source
