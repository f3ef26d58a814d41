/-!
Byte offsets into a text. Positions in a source are counted in bytes of its UTF-8 form; a cut is
only made where a character begins.
-/

set_option autoImplicit false
set_option relaxedAutoImplicit false

namespace DocLocale.Text

/-- The number of bytes of a text in UTF-8. -/
def byteLength : List Char → Nat
  | [] => 0
  | c :: cs => c.utf8Size + byteLength cs

/-- The text from byte `n` on, if a character begins or the text ends there. -/
def dropBytes? : Nat → List Char → Option (List Char)
  | 0, cs => some cs
  | _ + 1, [] => none
  | n + 1, c :: cs => if c.utf8Size ≤ n + 1 then dropBytes? (n + 1 - c.utf8Size) cs else none

/-- The first `n` bytes of a text, if a character begins or the text ends there. -/
def takeBytes? : Nat → List Char → Option (List Char)
  | 0, _ => some []
  | _ + 1, [] => none
  | n + 1, c :: cs =>
    if c.utf8Size ≤ n + 1 then (takeBytes? (n + 1 - c.utf8Size) cs).map (c :: ·) else none

/-- The bytes from `lo` up to `hi`, if they lie in the text and both ends are character
boundaries. -/
def slice? (cs : List Char) (lo hi : Nat) : Option (List Char) :=
  if lo ≤ hi then (dropBytes? lo cs).bind (takeBytes? (hi - lo)) else none

@[simp] theorem byteLength_append (cs ds : List Char) :
    byteLength (cs ++ ds) = byteLength cs + byteLength ds := by
  induction cs with
  | nil => simp [byteLength]
  | cons c cs ih => simp [byteLength, ih, Nat.add_assoc]

theorem exists_byteLength_cons (c : Char) (cs : List Char) : ∃ n, byteLength (c :: cs) = n + 1 :=
  Nat.exists_eq_add_of_le' (Nat.le_trans c.utf8Size_pos (Nat.le_add_right _ _))

/-- A text can be cut behind the bytes of what it starts with. -/
theorem dropBytes?_append (front rest : List Char) :
    dropBytes? (byteLength front) (front ++ rest) = some rest := by
  induction front with
  | nil => simp [byteLength, dropBytes?]
  | cons c front ih =>
    obtain ⟨n, more⟩ := exists_byteLength_cons c front
    rw [more, List.cons_append, dropBytes?, ← more, byteLength, if_pos (Nat.le_add_right _ _),
      Nat.add_sub_cancel_left, ih]

theorem takeBytes?_append (front rest : List Char) :
    takeBytes? (byteLength front) (front ++ rest) = some front := by
  induction front with
  | nil => simp [byteLength, takeBytes?]
  | cons c front ih =>
    obtain ⟨n, more⟩ := exists_byteLength_cons c front
    rw [more, List.cons_append, takeBytes?, ← more, byteLength, if_pos (Nat.le_add_right _ _),
      Nat.add_sub_cancel_left, ih]
    rfl

/-- Bytes are dropped where a text can be cut behind a front of that size. -/
theorem dropBytes?_eq_some_iff {n : Nat} {cs rest : List Char} :
    dropBytes? n cs = some rest ↔ ∃ front, cs = front ++ rest ∧ byteLength front = n := by
  constructor
  · intro cut
    fun_induction dropBytes? n cs with
    | case1 cs => exact ⟨[], Option.some.inj cut, rfl⟩
    | case2 n => cases cut
    | case3 n c cs fits ih =>
      obtain ⟨front, rfl, size⟩ := ih cut
      exact ⟨c :: front, rfl, by rw [byteLength]; omega⟩
    | case4 n c cs wide => cases cut
  · rintro ⟨front, rfl, rfl⟩
    exact dropBytes?_append front rest

theorem takeBytes?_eq_some_iff {n : Nat} {cs front : List Char} :
    takeBytes? n cs = some front ↔ ∃ rest, cs = front ++ rest ∧ byteLength front = n := by
  constructor
  · intro cut
    fun_induction takeBytes? n cs generalizing front with
    | case1 cs => exact ⟨cs, by rw [← Option.some.inj cut]; rfl, by rw [← Option.some.inj cut]; rfl⟩
    | case2 n => cases cut
    | case3 n c cs fits ih =>
      obtain ⟨more, taken, rfl⟩ := Option.map_eq_some_iff.mp cut
      obtain ⟨rest, rfl, size⟩ := ih taken
      exact ⟨rest, rfl, by rw [byteLength]; omega⟩
    | case4 n c cs wide => cases cut
  · rintro ⟨rest, rfl, rfl⟩
    exact takeBytes?_append front rest

/-- A part is cut out of a text where it stands there, behind as many bytes as asked for. -/
theorem slice?_eq_some_iff {cs part : List Char} {lo hi : Nat} :
    slice? cs lo hi = some part ↔
      ∃ front rest, cs = front ++ (part ++ rest) ∧ byteLength front = lo ∧ lo + byteLength part = hi := by
  constructor
  · intro cut
    unfold slice? at cut
    split at cut
    · obtain ⟨behind, dropped, taken⟩ := Option.bind_eq_some_iff.mp cut
      obtain ⟨front, rfl, start⟩ := dropBytes?_eq_some_iff.mp dropped
      obtain ⟨rest, rfl, size⟩ := takeBytes?_eq_some_iff.mp taken
      exact ⟨front, rest, rfl, start, by omega⟩
    · cases cut
  · rintro ⟨front, rest, rfl, rfl, rfl⟩
    rw [slice?, if_pos (Nat.le_add_right _ _), dropBytes?_append, Option.bind_some, Nat.add_sub_cancel_left,
      takeBytes?_append]

end DocLocale.Text
