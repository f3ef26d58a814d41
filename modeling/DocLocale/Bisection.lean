/-!
Bisection. Where the elements with a property stand in front of all others, the number of them is found
by halving the range that it lies in.
-/

set_option autoImplicit false
set_option relaxedAutoImplicit false

namespace DocLocale

variable {α β : Type}

/-- Bisection for the place from which on elements have the property no more, knowing it lies between
`lo` and `hi`. -/
def bisect (p : α → Bool) (xs : Array α) (lo hi : Nat) (room : hi ≤ xs.size) : Nat :=
  if proper : lo < hi then
    let mid := (lo + hi) / 2
    if p xs[mid] then bisect p xs (mid + 1) hi room else bisect p xs lo mid (by omega)
  else lo
termination_by hi - lo

/-- The number of elements with a property that all others stand behind. -/
def partitionPoint (p : α → Bool) (xs : Array α) : Nat := bisect p xs 0 xs.size (Nat.le_refl _)

/-- A property that no element has behind one without it splits a list in two. -/
theorem exists_split {p : α → Bool} {xs : List α} (falls : xs.Pairwise fun a b => p b = true → p a = true) :
    ∃ front back, xs = front ++ back ∧ (∀ a ∈ front, p a = true) ∧ ∀ a ∈ back, p a = false := by
  induction xs with
  | nil => exact ⟨[], [], rfl, by simp, by simp⟩
  | cons x xs ih =>
    obtain ⟨first, later⟩ := List.pairwise_cons.mp falls
    cases kind : p x with
    | true =>
      obtain ⟨front, back, rfl, all, none⟩ := ih later
      exact ⟨x :: front, back, rfl, by simpa [kind] using all, none⟩
    | false =>
      refine ⟨[], x :: xs, rfl, by simp, ?_⟩
      intro a member
      rcases List.mem_cons.mp member with rfl | behind
      · exact kind
      · have missed := mt (first a behind) (by simp [kind])
        simpa using missed

/-- One look at an element tells on which side of it the place lies. -/
private theorem getElem_append_iff {p : α → Bool} {front back : List α} (all : ∀ a ∈ front, p a = true)
    (none : ∀ a ∈ back, p a = false) {i : Nat} (inside : i < (front ++ back).toArray.size) :
    p (front ++ back).toArray[i] = true ↔ i < front.length := by
  rw [List.getElem_toArray]
  constructor
  · intro hit
    apply Nat.lt_of_not_le
    intro behind
    rw [List.getElem_append_right behind, none _ (List.getElem_mem _)] at hit
    cases hit
  · intro before
    rw [List.getElem_append_left before]
    exact all _ (List.getElem_mem _)

private theorem bisect_append {p : α → Bool} {front back : List α} (all : ∀ a ∈ front, p a = true)
    (none : ∀ a ∈ back, p a = false) {lo hi : Nat} (room : hi ≤ (front ++ back).toArray.size)
    (low : lo ≤ front.length) (high : front.length ≤ hi) :
    bisect p (front ++ back).toArray lo hi room = front.length := by
  fun_induction bisect p (front ++ back).toArray lo hi room with
  | case1 lo hi room proper mid hit ih =>
    have before := (getElem_append_iff all none _).mp hit
    exact ih before high
  | case2 lo hi room proper mid miss ih =>
    have behind := mt (getElem_append_iff all none _).mpr miss
    exact ih low (Nat.le_of_not_lt behind)
  | case3 lo hi room done => omega

theorem partitionPoint_append {p : α → Bool} {front back : List α} (all : ∀ a ∈ front, p a = true)
    (none : ∀ a ∈ back, p a = false) : partitionPoint p (front ++ back).toArray = front.length := by
  apply bisect_append all none
  · exact Nat.zero_le _
  · simp

theorem partitionPoint_map (p : β → Bool) (f : α → β) (xs : List α) :
    partitionPoint p (xs.map f).toArray = partitionPoint (fun a => p (f a)) xs.toArray := by
  have run : ∀ (lo hi : Nat) (room : hi ≤ xs.toArray.size) (room' : hi ≤ (xs.map f).toArray.size),
      bisect p (xs.map f).toArray lo hi room' = bisect (fun a => p (f a)) xs.toArray lo hi room := by
    intro lo hi room room'
    fun_induction bisect (fun a => p (f a)) xs.toArray lo hi room with
    | case1 lo hi room proper mid hit ih =>
      have hit' : p (xs.map f).toArray[mid] = true := by simpa using hit
      rw [bisect, dif_pos proper, if_pos hit']
      exact ih room'
    | case2 lo hi room proper mid miss ih =>
      have miss' : ¬ p (xs.map f).toArray[mid] = true := by simpa using miss
      rw [bisect, dif_pos proper, if_neg miss']
      exact ih _
    | case3 lo hi room done => rw [bisect, dif_neg done]
  simp only [partitionPoint, List.size_toArray, List.length_map]
  exact run _ _ _ _

end DocLocale
