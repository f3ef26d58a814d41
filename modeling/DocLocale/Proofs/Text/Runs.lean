import DocLocale.Bisection
import DocLocale.Text.Ranges
import Mathlib.Data.List.Chain
import Mathlib.Data.List.TakeWhile
import Mathlib.Tactic.Common

/-!
Tables of characters as sets. Bisection counts the bounds at or below a point, so in a table with increasing bounds
that come in pairs a character belongs to the set exactly if one of the runs between two bounds of a pair holds it.
That one such set lies inside another is then read off their runs.
-/

set_option autoImplicit false
set_option relaxedAutoImplicit false

namespace DocLocale.Text.Ranges

/-- The runs between the bounds of a list, taken in pairs. -/
def pairs : List Nat → List (Nat × Nat)
  | [] => []
  | [_] => []
  | lo :: hi :: bounds => (lo, hi) :: pairs bounds

/-- The runs of a table, each with its first point and the point behind its last one. -/
def runs (r : Ranges) : List (Nat × Nat) := pairs r.bounds.toList

/-- The bounds of a table increase and come in pairs. -/
structure Paired (r : Ranges) : Prop where
  increasing : r.bounds.toList.IsChain (· < ·)
  even : r.bounds.toList.length % 2 = 0

instance (r : Ranges) : Decidable r.Paired :=
  decidable_of_iff (r.bounds.toList.IsChain (· < ·) ∧ r.bounds.toList.length % 2 = 0)
    ⟨fun ⟨increasing, even⟩ => ⟨increasing, even⟩, fun paired => ⟨paired.increasing, paired.even⟩⟩

section Bisection

variable {bounds : Array Nat} {x : Nat}

private theorem rankBetween_eq_bisect {lo hi : Nat} (room : hi ≤ bounds.size) :
    rankBetween bounds x lo hi = bisect (fun b => b ≤ x) bounds lo hi room := by
  fun_induction rankBetween bounds x lo hi with
  | case1 lo hi proper mid hit ih =>
    have inside : mid < bounds.size := by omega
    have low : decide (bounds[mid] ≤ x) = true := by simpa [Array.getD, inside] using hit
    rw [bisect, dif_pos proper]
    exact (ih room).trans (if_pos low).symm
  | case2 lo hi proper mid miss ih =>
    have inside : mid < bounds.size := by omega
    have high : ¬ decide (bounds[mid] ≤ x) = true := by simpa [Array.getD, inside] using miss
    rw [bisect, dif_pos proper]
    exact (ih (by omega)).trans (if_neg high).symm
  | case3 lo hi done => rw [bisect, dif_neg done]

/-- The rank of a point is the number of bounds at or below it. -/
theorem rank_eq_countP {r : Ranges} (increasing : r.bounds.toList.IsChain (· < ·)) (x : Nat) :
    r.rank x = r.bounds.toList.countP (· ≤ x) := by
  have falls : r.bounds.toList.Pairwise fun a b => decide (b ≤ x) = true → decide (a ≤ x) = true := by
    refine (List.isChain_iff_pairwise.mp increasing).imp fun {a b} less low => ?_
    rw [decide_eq_true_eq] at low ⊢
    omega
  obtain ⟨front, back, whole, all, none⟩ := exists_split falls
  have table : r.bounds = (front ++ back).toArray := by rw [← whole, Array.toArray_toList]
  have behind : back.countP (· ≤ x) = 0 := by
    rw [List.countP_eq_zero]
    intro b member
    rw [none b member]
    exact Bool.false_ne_true
  calc r.rank x
    _ = partitionPoint (fun b => b ≤ x) r.bounds := rankBetween_eq_bisect (Nat.le_refl _)
    _ = front.length := by rw [table, partitionPoint_append all none]
    _ = _ := by rw [whole, List.countP_append, List.countP_eq_length.mpr all, behind, Nat.add_zero]

end Bisection

/-- An odd number of bounds lies at or below a point exactly if a run holds it. -/
private theorem odd_countP_iff {bounds : List Nat} (increasing : bounds.IsChain (· < ·))
    (even : bounds.length % 2 = 0) (x : Nat) :
    bounds.countP (· ≤ x) % 2 = 1 ↔ ∃ run ∈ pairs bounds, run.1 ≤ x ∧ x < run.2 := by
  fun_induction pairs bounds with
  | case1 => simp
  | case2 => simp at even
  | case3 lo hi bounds ih =>
    obtain ⟨proper, increasing⟩ := List.isChain_cons_cons.mp increasing
    obtain ⟨later, -⟩ := List.pairwise_cons.mp (List.isChain_iff_pairwise.mp increasing)
    have rest := ih increasing.tail (by simp only [List.length_cons] at even; omega)
    by_cases behind : hi ≤ x
    · -- Both bounds of the first run lie below the point, which leaves the parity as it is.
      have first : lo ≤ x := Nat.le_trans (Nat.le_of_lt proper) behind
      simp only [List.countP_cons, first, behind, decide_true, if_true, List.mem_cons, exists_eq_or_imp,
        Nat.not_lt.mpr behind, and_false, false_or, ← rest]
      omega
    · -- No bound behind the first run lies below the point.
      have none : bounds.countP (· ≤ x) = 0 := by
        rw [List.countP_eq_zero]
        intro b member
        have high := later b member
        simp only [decide_eq_true_eq]
        omega
      have outside : ¬ ∃ run ∈ pairs bounds, run.1 ≤ x ∧ x < run.2 := by
        rw [← rest, none]
        decide
      by_cases first : lo ≤ x
      · simp [first, behind, none, Nat.lt_of_not_le behind]
      · simp only [List.countP_cons, first, behind, none, List.mem_cons, exists_eq_or_imp, outside]
        simp

/-- A character belongs to a table exactly if one of the runs holds it. -/
theorem mem_iff {r : Ranges} (paired : r.Paired) (c : Char) :
    r.mem c = true ↔ ∃ run ∈ r.runs, run.1 ≤ c.toNat ∧ c.toNat < run.2 := by
  rw [mem, decide_eq_true_eq, rank_eq_countP paired.increasing]
  exact odd_countP_iff paired.increasing paired.even c.toNat

section Inclusion

/-- The runs that remain when the runs of a table, one after the other, take away the runs in front that they hold. -/
def uncovered (runs : List (Nat × Nat)) (r : Ranges) : List (Nat × Nat) :=
  r.runs.foldl (fun left run => left.dropWhile fun inner => run.1 ≤ inner.1 && inner.2 ≤ run.2) runs

private theorem exists_of_uncovered {runs left : List (Nat × Nat)}
    (none : runs.foldl (fun left run => left.dropWhile fun inner => run.1 ≤ inner.1 && inner.2 ≤ run.2) left = [])
    {inner : Nat × Nat} (member : inner ∈ left) : ∃ run ∈ runs, run.1 ≤ inner.1 ∧ inner.2 ≤ run.2 := by
  induction runs generalizing left with
  | nil =>
    rw [List.foldl_nil] at none
    rw [none] at member
    cases member
  | cons run runs ih =>
    rw [← List.takeWhile_append_dropWhile (p := fun inner => run.1 ≤ inner.1 && inner.2 ≤ run.2) (l := left),
      List.mem_append] at member
    rcases member with held | later
    · have fits := List.mem_takeWhile_imp held
      simp only [Bool.and_eq_true, decide_eq_true_eq] at fits
      exact ⟨run, List.mem_cons_self, fits⟩
    · obtain ⟨other, present, fits⟩ := ih none later
      exact ⟨other, List.mem_cons_of_mem _ present, fits⟩

/-- A table that leaves no run uncovered holds every character of the runs. -/
theorem mem_of_uncovered {r : Ranges} (paired : r.Paired) {runs : List (Nat × Nat)} (none : uncovered runs r = [])
    {c : Char} (inside : ∃ run ∈ runs, run.1 ≤ c.toNat ∧ c.toNat < run.2) : r.mem c = true := by
  obtain ⟨inner, present, first, last⟩ := inside
  obtain ⟨run, member, first', last'⟩ := exists_of_uncovered none present
  exact (mem_iff paired c).mpr ⟨run, member, Nat.le_trans first' first, Nat.lt_of_lt_of_le last last'⟩

/-- The table of the characters that are not in a table. -/
def complement (r : Ranges) : Ranges := ⟨⟨0 :: r.bounds.toList ++ [0x110000]⟩⟩

theorem mem_complement {r : Ranges} (paired : r.Paired) (paired' : r.complement.Paired) (c : Char) :
    r.complement.mem c = !r.mem c := by
  have last : ¬ 0x110000 ≤ c.toNat := by
    have valid := c.valid
    simp only [UInt32.isValidChar, Nat.isValidChar] at valid
    change ¬ 0x110000 ≤ c.val.toNat
    omega
  have count : r.complement.bounds.toList.countP (· ≤ c.toNat) = r.bounds.toList.countP (· ≤ c.toNat) + 1 := by
    simp [complement, last]
  rw [mem, mem, rank_eq_countP paired'.increasing, rank_eq_countP paired.increasing, count, ← decide_not,
    decide_eq_decide]
  omega

end Inclusion

end DocLocale.Text.Ranges
