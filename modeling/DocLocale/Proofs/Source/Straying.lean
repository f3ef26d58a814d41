import DocLocale.Proofs.Source.Following
import Mathlib.Tactic.Common

/-!
Parsers that are tried in front of a type. They fail, take the type whole, or stop at an operator inside it.
-/

set_option autoImplicit false
set_option relaxedAutoImplicit false

namespace DocLocale.Source

open Text (byteLength)

/-! ## Parsers that stop at operators -/

section
variable {α β : Type} {ctx : Context} {p : Parse α} {f : α → Parse β} {pos : Nat} {front more rest cs : List Char}

/-- A parser stops in front of an operator of a type. -/
def Stops (ctx : Context) (p : Parse α) (pos : Nat) (cs : List Char) : Prop :=
  ∀ last comments, ∃ a c, p ctx (.facing last pos comments cs) = .ok a c ∧ c.token ∈ operatorTokens

/-- A parser fails in front of operators. -/
def FailsAtOperators (ctx : Context) (p : Parse α) : Prop :=
  ∀ c, c.token ∈ operatorTokens → ∃ stopped, p ctx c = .fail stopped

/-- A parser in front of the text of a type fails, or takes it whole, or stops at an operator. -/
def Strays (ctx : Context) (p : Parse α) (pos : Nat) (front rest : List Char) : Prop :=
  Fails ctx p pos (front ++ rest) ∨ (∃ a, Takes ctx p pos front rest a) ∨ Stops ctx p pos (front ++ rest)

/-- A parser takes a text or fails in front of it. -/
def Tries (ctx : Context) (p : Parse α) (pos : Nat) (front rest : List Char) (value : α) : Prop :=
  Fails ctx p pos (front ++ rest) ∨ Takes ctx p pos front rest value

theorem Tries.congr {q : Parse α} {a : α} (tries : Tries ctx q pos front rest a)
    (same : ∀ last comments, p ctx (.facing last pos comments (front ++ rest)) =
      q ctx (.facing last pos comments (front ++ rest))) : Tries ctx p pos front rest a := by
  rcases tries with fails | taken
  · exact .inl fun last comments => same last comments ▸ fails last comments
  · exact .inr fun last comments => same last comments ▸ taken last comments

theorem Stops.bind_fails (stops : Stops ctx p pos cs) (later : ∀ a, FailsAtOperators ctx (f a)) :
    Fails ctx (p >>= f) pos cs := by
  intro last comments
  obtain ⟨a, c, stopped, operator⟩ := stops last comments
  rw [Parse.run_bind, stopped]
  exact later a c operator

theorem Stops.bind_stay {b : β} (stops : Stops ctx p pos cs)
    (later : ∀ a c, c.token ∈ operatorTokens → f a ctx c = .ok b c) : Stops ctx (p >>= f) pos cs := by
  intro last comments
  obtain ⟨a, c, stopped, operator⟩ := stops last comments
  exact ⟨b, c, by rw [Parse.run_bind, stopped]; exact later a c operator, operator⟩

theorem Stops.blank (stops : Stops ctx p (pos + 1) cs) : Stops ctx p pos (' ' :: cs) := by
  intro last comments
  rw [Cursor.facing_blank]
  exact stops last comments

theorem Strays.blank (strays : Strays ctx p (pos + 1) front rest) : Strays ctx p pos (' ' :: front) rest := by
  rcases strays with fails | ⟨a, taken⟩ | stops
  · exact .inl fails.blank
  · exact .inr (.inl ⟨a, taken.blank⟩)
  · exact .inr (.inr stops.blank)

theorem Sees.bind_strays {a : α} (first : Sees ctx p pos (front ++ rest) a) (later : Strays ctx (f a) pos front rest) :
    Strays ctx (p >>= f) pos front rest := by
  rcases later with fails | ⟨b, taken⟩ | stops
  · exact .inl (first.bind_fails fails)
  · exact .inr (.inl ⟨b, first.bind_takes taken⟩)
  · refine .inr (.inr fun last comments => ?_)
    rw [first.run_bind]
    exact stops last comments

theorem Takes.bind_strays {a : α} (first : Takes ctx p pos front (more ++ rest) a)
    (later : Strays ctx (f a) (pos + byteLength front) more rest) : Strays ctx (p >>= f) pos (front ++ more) rest := by
  rcases later with fails | ⟨b, taken⟩ | stops
  · refine .inl ?_
    rw [List.append_assoc]
    exact first.bind_fails fails
  · exact .inr (.inl ⟨b, first.bind taken⟩)
  · refine .inr (.inr fun last comments => ?_)
    rw [List.append_assoc, Parse.run_bind, first last comments]
    exact stops _ comments

/-- What is read up to the end of a type goes on behind it, and fails elsewhere. -/
theorem Strays.bind_tries {b : β} (strays : Strays ctx p pos front (more ++ rest))
    (operators : ∀ a, FailsAtOperators ctx (f a)) (later : ∀ a pos, Goes ctx (f a) pos more rest b) :
    Tries ctx (p >>= f) pos (front ++ more) rest b := by
  rcases strays with fails | ⟨a, taken⟩ | stops
  · exact .inl (by rw [List.append_assoc]; exact fails.bind)
  · exact .inr (taken.bind_goes (later a _))
  · exact .inl (by rw [List.append_assoc]; exact stops.bind_fails operators)

theorem FailsAtOperators.fails {token : Token} (fails : FailsAtOperators ctx p) (shown : Shows cs token)
    (operator : token ∈ operatorTokens) : Fails ctx p pos cs := fun last comments =>
  fails _ (by rwa [(shown last pos comments).1])

theorem Strays.bind_fails (strays : Strays ctx p pos front rest) (operators : ∀ a, FailsAtOperators ctx (f a))
    (later : ∀ a pos, Fails ctx (f a) pos rest) : Fails ctx (p >>= f) pos (front ++ rest) := by
  rcases strays with fails | ⟨a, taken⟩ | stops
  · exact fails.bind
  · exact taken.bind_fails (later a _)
  · exact stops.bind_fails operators

end

/-! ## Loops that fail -/

section
variable {α ι : Type} {ctx : Context} {step : Parse (Option α)} {chars : ι → List Char} {gives : α → ι → Prop}
  {separator : Char} {closing : List Char} {items : List ι} {pos : Nat} {cs : List Char}

/-- A step that is repeated fails after some pieces. -/
inductive Breaks (ctx : Context) (step : Parse (Option α)) : Nat → List Char → Prop
  | here {pos : Nat} {cs : List Char} (fails : Fails ctx step pos cs) : Breaks ctx step pos cs
  | later {pos : Nat} {front cs : List Char} {a : α} (nonempty : front ≠ [])
    (taken : Takes ctx step pos front cs (some a)) (breaks : Breaks ctx step (pos + byteLength front) cs) :
    Breaks ctx step pos (front ++ cs)

theorem Breaks.repeatN (breaks : Breaks ctx step pos cs) :
    ∀ fuel, byteLength cs < fuel → Fails ctx (Parse.repeatN step fuel) pos cs := by
  induction breaks with
  | @here pos cs fails =>
    intro fuel room
    cases fuel with
    | zero => omega
    | succ fuel => exact fails.bind
  | @later pos front cs a nonempty taken breaks ih =>
    intro fuel room
    have size := byteLength_pos nonempty
    rw [Text.byteLength_append] at room
    cases fuel with
    | zero => omega
    | succ fuel => exact taken.bind_fails (ih fuel (by omega)).bind

theorem Breaks.repeated (breaks : Breaks ctx step pos cs) (near : Near cs) (fits : Fits ctx pos cs) :
    Fails ctx (Parse.repeated step) pos cs := by
  intro last comments
  have start := near last pos comments
  have room := fits.room
  exact breaks.repeatN _ (by omega) last comments

theorem Breaks.blank (breaks : Breaks ctx step (pos + 1) cs) : Breaks ctx step pos (' ' :: cs) := by
  have size : ∀ cs, pos + 1 + byteLength cs = pos + byteLength (' ' :: cs) := by
    intro cs
    have one : ' '.utf8Size = 1 := by decide
    rw [byteLength, one, Nat.add_assoc]
  cases breaks with
  | here fails => exact .here fails.blank
  | later nonempty taken breaks =>
    rw [size] at breaks
    exact .later (by simp) taken.blank breaks

end

end DocLocale.Source
