import DocLocale.Proofs.Source.Collecting
import DocLocale.Source.Grammar.Templates

/-!
Comments passed on the way through a text. Each ends before the next one starts, since skipping only goes forward and
a comment that is open started behind all that were closed. Main statement: the comments passed before any token that
reading comes to do not overlap, so the doc comments among them are collected in order.
-/

set_option autoImplicit false
set_option relaxedAutoImplicit false

namespace DocLocale.Source

/-- Comments passed before a position. -/
structure Passed (position : Nat) (cs : List Comment) : Prop where
  apart : NonOverlapping cs
  before : ∀ c ∈ cs, c.hi ≤ position

theorem passed_nil (position : Nat) : Passed position [] := by
  constructor
  · constructor
    · exact fun c member => absurd member List.not_mem_nil
    · exact fun c member => absurd member List.not_mem_nil
  · exact fun c member => absurd member List.not_mem_nil

theorem Passed.mono {position position' : Nat} {cs : List Comment} (passed : Passed position cs)
    (further : position ≤ position') : Passed position' cs := by
  refine ⟨passed.apart, fun c member => ?_⟩
  exact Nat.le_trans (passed.before c member) further

/-- A comment that started behind all others is passed, too. -/
theorem Passed.cons {cs : List Comment} {c : Comment} (passed : Passed c.lo cs) (proper : c.lo < c.hi) :
    Passed c.hi (c :: cs) := by
  have ended := passed.before
  constructor
  · constructor
    · intro d member
      rcases List.mem_cons.mp member with rfl | earlier
      · exact proper
      · exact passed.apart.proper d earlier
    · intro d first e second
      rcases List.mem_cons.mp first with rfl | firstEarlier
      · rcases List.mem_cons.mp second with rfl | secondEarlier
        · exact .inl rfl
        · exact .inr (.inr (ended e secondEarlier))
      · rcases List.mem_cons.mp second with rfl | secondEarlier
        · exact .inr (.inl (ended d firstEarlier))
        · exact passed.apart.apart d firstEarlier e secondEarlier
  · intro d member
    rcases List.mem_cons.mp member with rfl | earlier
    · exact Nat.le_refl d.hi
    · have early := ended d earlier
      omega

/-- Where all closed comments have ended: here, or where an open one started. -/
def Skipping.floor (position : Nat) : Skipping → Nat
  | .block lo _ => lo
  | _ => position

section Skip

variable {position : Nat} {lineBreak : Bool} {comments : List Comment} {state : Skipping} {cs : List Char}

/-- Skipping keeps the comments passed apart. -/
theorem passed_skip (passed : Passed (state.floor position) comments) (behind : state.floor position ≤ position) :
    Passed (skip position lineBreak comments state cs).position
      (skip position lineBreak comments state cs).comments := by
  fun_induction skip position lineBreak comments state cs with
  | case1 position lineBreak comments state => exact passed.mono behind
  | case2 position lineBreak comments cs ih => exact ih (passed.mono (Nat.le_add_right _ _)) (Nat.le_refl _)
  | case3 position lineBreak comments cs ih =>
    -- The comment opens behind all that were passed.
    exact ih passed (Nat.le_add_right _ _)
  | case4 position lineBreak comments c cs unslashed unstarred space ih =>
    exact ih (passed.mono (Nat.le_add_right _ _)) (Nat.le_refl _)
  | case5 position lineBreak comments c cs => exact passed
  | case6 position lineBreak comments c cs ends ih =>
    exact ih (passed.mono (Nat.le_add_right _ _)) (Nat.le_refl _)
  | case7 position lineBreak comments c cs inside ih =>
    exact ih (passed.mono (Nat.le_add_right _ _)) (Nat.le_refl _)
  | case8 position lineBreak comments lo body cs ih =>
    have proper : lo < position + 2 := by
      have started : lo ≤ position := behind
      omega
    exact ih (passed.cons (c := ⟨lo, position + 2, body.reverse⟩) proper) (Nat.le_refl _)
  | case9 position lineBreak comments lo body c cs inside ih =>
    exact ih passed (Nat.le_trans behind (Nat.le_add_right _ _))

end Skip

namespace Cursor

/-- A token that all comments passed end before. -/
structure Settled (c : Cursor) : Prop where
  passed : Passed c.lo c.comments
  forward : c.lo ≤ c.hi

theorem settled_ofGap (previousEnd : Nat) {g : Gap} (passed : Passed g.position g.comments) :
    (ofGap previousEnd g).Settled :=
  ⟨passed, Nat.le_add_right _ _⟩

theorem settled_start (cs : List Char) : (start cs).Settled := by
  unfold start
  split
  · apply settled_ofGap
    exact passed_skip (passed_nil 0) (Nat.le_refl 0)
  · apply settled_ofGap
    exact passed_skip (passed_nil 0) (Nat.le_refl 0)

theorem Settled.next {c : Cursor} (settled : c.Settled) : c.next.Settled := by
  apply settled_ofGap
  exact passed_skip (settled.passed.mono settled.forward) (Nat.le_refl c.hi)

theorem Settled.cursorAt {c : Cursor} (settled : c.Settled) {position : Nat} (further : c.lo ≤ position)
    (rest : List Char) : (Grammar.cursorAt c position rest).Settled := by
  apply settled_ofGap
  exact passed_skip (settled.passed.mono further) (Nat.le_refl position)

/-- The tokens that reading a text comes to: the first one, and from any of them the next one, the same place read as
another symbol, and what follows a template or a regular expression that starts there. -/
inductive Reached (cs : List Char) : Cursor → Prop
  | start : Reached cs (start cs)
  | next {c : Cursor} (reached : Reached cs c) : Reached cs c.next
  | relex {c : Cursor} (reached : Reached cs c) (text : String) : Reached cs (c.relex text)
  | literal {c : Cursor} (reached : Reached cs c) {position : Nat} (further : c.lo ≤ position) (rest : List Char) :
    Reached cs (Grammar.cursorAt c position rest)

theorem Reached.settled {cs : List Char} {c : Cursor} (reached : Reached cs c) : c.Settled := by
  induction reached with
  | start => exact settled_start cs
  | next reached ih => exact ih.next
  | relex reached text ih => exact ⟨ih.passed, Nat.le_add_right _ _⟩
  | literal reached further rest ih => exact ih.cursorAt further rest

/-- The doc comments passed before a token stand in order. -/
theorem Reached.inOrder {cs : List Char} {c : Cursor} (reached : Reached cs c) :
    DocComment.InOrder (DocComment.collect c.comments) :=
  DocComment.collect_inOrder reached.settled.passed.apart

end Cursor

end DocLocale.Source
