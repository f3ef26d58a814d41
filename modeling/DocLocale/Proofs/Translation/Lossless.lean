import DocLocale.Proofs.Translation.WrapLines
import DocLocale.Text.Bytes
import Mathlib.Data.List.TakeWhile

/-!
Wrapping loses nothing but blanks. Beside the layout by characters stands the loop by byte offsets, in which a cut
inside a character fails and every turn is counted. Main statement: the loop ends within one turn more than the
line has characters and never cuts inside one, its pieces have no blanks at their ends, and the pieces of a line hold
the characters of the line that are not blank, in order.
-/

set_option autoImplicit false
set_option relaxedAutoImplicit false

namespace DocLocale.Translation

open Text

section Bytes

/-- The byte offset of the first character that does not fit, for a text of which the characters before byte
`index` take `used` columns; a first character that does not fit is taken all the same. -/
def fitBytes (limit index used : Nat) : List Char → Nat
  | [] => index
  | c :: cs =>
    if limit < used + charWidth c then if index = 0 then c.utf8Size else index
    else fitBytes limit (index + c.utf8Size) (used + charWidth c) cs

/-- The byte offset of the last space. -/
def lastSpaceByte? : List Char → Option Nat
  | [] => none
  | c :: cs =>
    match lastSpaceByte? cs with
    | some offset => some (c.utf8Size + offset)
    | none => if c = ' ' then some 0 else none

/-- Cuts a line at byte offsets; there is no result if one of them lies inside a character. -/
def cutBytes? (limit : Nat) (cs : List Char) : Option (List Char × List Char) := do
  let offset := fitBytes limit 0 0 cs
  let head ← takeBytes? offset cs
  let rest ← dropBytes? offset cs
  match if rest.head? = some ' ' then some offset else lastSpaceByte? head with
  | some space => return (← takeBytes? space cs, ← dropBytes? (space + 1) cs)
  | none => return (head, rest)

/-- The lines of a trimmed text, cut at byte offsets, if no more than `turns` turns of the loop are needed. -/
def wrapLineBytes? (limit : Nat) : Nat → List Char → Option (List (List Char))
  | 0, _ => none
  | turns + 1, cs =>
    if limit < width cs then do
      let (head, tail) ← cutBytes? limit cs
      let later ← wrapLineBytes? limit turns (trim tail)
      return trimEnd head :: later
    else return if cs = [] then [] else [cs]

variable (limit : Nat)

private theorem fitBytes_of_pos {index : Nat} (inside : 0 < index) (used : Nat) (cs : List Char) :
    fitBytes limit index used cs = index + byteLength (cs.take (fitFrom limit used cs)) := by
  induction cs generalizing index used with
  | nil => simp [fitBytes, byteLength]
  | cons c cs ih =>
    rw [fitBytes, fitFrom]
    split
    · simp [Nat.ne_of_gt inside, byteLength]
    · rw [ih (Nat.add_pos_left inside _), List.take_succ_cons, byteLength, Nat.add_assoc]

/-- The offset of the first character that does not fit is where the characters that fit end. -/
theorem fitBytes_eq (cs : List Char) : fitBytes limit 0 0 cs = byteLength (cs.take (fit limit cs)) := by
  cases cs with
  | nil => simp [fitBytes, byteLength]
  | cons c cs =>
    rw [fitBytes, fit, fitFrom]
    split
    · simp [byteLength]
    · rw [Nat.zero_add, Nat.zero_add, fitBytes_of_pos limit c.utf8Size_pos, Nat.max_eq_right (Nat.le_add_left 1 _),
        List.take_succ_cons, byteLength]

private theorem lastSpaceByte?_of_notMem {cs : List Char} (missing : ' ' ∉ cs) : lastSpaceByte? cs = none := by
  induction cs with
  | nil => rfl
  | cons c cs ih =>
    obtain ⟨other, later⟩ := List.ne_and_not_mem_of_not_mem_cons missing
    rw [lastSpaceByte?, ih later, if_neg other.symm]

private theorem lastSpaceByte?_append (before : List Char) {after : List Char} (missing : ' ' ∉ after) :
    lastSpaceByte? (before ++ ' ' :: after) = some (byteLength before) := by
  induction before with
  | nil => rw [List.nil_append, lastSpaceByte?, lastSpaceByte?_of_notMem missing, if_pos rfl, byteLength]
  | cons c before ih => rw [List.cons_append, lastSpaceByte?, ih, byteLength]

/-- What the loop does with the halves of a line at the offset of the first character that does not fit. -/
private theorem cutBytes?_halves {head rest : List Char}
    (taken : (head ++ rest).take (fit limit (head ++ rest)) = head) :
    cutBytes? limit (head ++ rest) =
      match if rest.head? = some ' ' then some (byteLength head) else lastSpaceByte? head with
      | some space => do
        return (← takeBytes? space (head ++ rest), ← dropBytes? (space + 1) (head ++ rest))
      | none => some (head, rest) := by
  unfold cutBytes?
  rw [fitBytes_eq, taken]
  dsimp only
  rw [takeBytes?_append, dropBytes?_append]
  rfl

/-- A cut at a space gives what stands before the space and what stands behind it. -/
private theorem cutAt_space (before after : List Char) :
    (do return (← takeBytes? (byteLength before) (before ++ ' ' :: after),
        ← dropBytes? (byteLength before + 1) (before ++ ' ' :: after)) : Option (List Char × List Char)) =
      some (before, after) := by
  have behind : dropBytes? (byteLength before + 1) (before ++ ' ' :: after) = some after := by
    have cut := dropBytes?_append (before ++ [' ']) after
    rwa [byteLength_append, List.append_assoc, List.singleton_append] at cut
  rw [takeBytes?_append, behind]
  rfl

/-- No cut falls inside a character, and the halves are those of the cut by characters. -/
theorem cutBytes?_eq (cs : List Char) : cutBytes? limit cs = some (cut limit cs) := by
  rcases cut_cases limit cs with ⟨head, tail, halves, line, taken⟩ |
    ⟨before, after, rest, halves, line, taken, missing, other⟩ | ⟨head, rest, halves, line, taken, missing, other⟩
  · rw [halves, line, cutBytes?_halves limit (line ▸ taken), if_pos List.head?_cons]
    exact cutAt_space head tail
  · have split : cs = (before ++ ' ' :: after) ++ rest := by rw [line]; simp
    rw [halves, split, cutBytes?_halves limit (split ▸ taken), if_neg other, lastSpaceByte?_append before missing,
      ← split, line]
    exact cutAt_space before (after ++ rest)
  · rw [halves, line, cutBytes?_halves limit (line ▸ taken), if_neg other, lastSpaceByte?_of_notMem missing]

/-- The loop by bytes ends, and its lines are those of the layout by characters. -/
theorem wrapLineBytes?_eq {turns : Nat} {cs : List Char} (enough : cs.length < turns) :
    wrapLineBytes? limit turns cs = some (wrapLine limit cs) := by
  fun_induction wrapLine limit cs generalizing turns with
  | case1 cs wide ih =>
    obtain ⟨turns, rfl⟩ := Nat.exists_eq_add_of_le' (Nat.one_le_of_lt enough)
    have shorter : (trim (cut limit cs).2).length < turns :=
      calc (trim (cut limit cs).2).length ≤ (cut limit cs).2.length := length_trim_le _
        _ < cs.length := length_cut_lt limit (ne_nil_of_lt_width wide)
        _ ≤ turns := Nat.le_of_lt_succ enough
    rw [wrapLineBytes?, if_pos wide, cutBytes?_eq]
    dsimp only [Option.bind_eq_bind, Option.bind_some]
    rw [ih shorter]
    rfl
  | case2 narrow =>
    obtain ⟨turns, rfl⟩ := Nat.exists_eq_add_of_le' (Nat.one_le_of_lt enough)
    rw [wrapLineBytes?, if_neg narrow]
    rfl
  | case3 cs narrow nonempty =>
    obtain ⟨turns, rfl⟩ := Nat.exists_eq_add_of_le' (Nat.one_le_of_lt enough)
    rw [wrapLineBytes?, if_neg narrow, if_neg nonempty]
    rfl

end Bytes

section Ink

/-- The characters of a text that are not blank. -/
def ink (cs : List Char) : List Char := cs.filter fun c => !isBlank c

@[simp] theorem ink_append (cs ds : List Char) : ink (cs ++ ds) = ink cs ++ ink ds :=
  List.filter_append ..

@[simp] theorem ink_reverse (cs : List Char) : ink cs.reverse = (ink cs).reverse :=
  List.filter_reverse ..

theorem ink_eq_nil {cs : List Char} (blank : ∀ c ∈ cs, isBlank c = true) : ink cs = [] := by
  rw [ink, List.filter_eq_nil_iff]
  intro c member
  simp [blank c member]

@[simp] theorem ink_trimStart (cs : List Char) : ink (trimStart cs) = ink cs := by
  have blank : ∀ c ∈ cs.takeWhile isBlank, isBlank c = true := fun _ => List.mem_takeWhile_imp
  conv_rhs => rw [← List.takeWhile_append_dropWhile (p := isBlank) (l := cs), ink_append, ink_eq_nil blank]
  rfl

@[simp] theorem ink_trimEnd (cs : List Char) : ink (trimEnd cs) = ink cs := by
  rw [trimEnd, ink_reverse]
  change (ink (trimStart cs.reverse)).reverse = ink cs
  rw [ink_trimStart, ink_reverse, List.reverse_reverse]

@[simp] theorem ink_trim (cs : List Char) : ink (trim cs) = ink cs := by
  rw [trim, ink_trimEnd, ink_trimStart]

/-- A cut drops at most one space. -/
theorem ink_cut (limit : Nat) (cs : List Char) : ink (cut limit cs).1 ++ ink (cut limit cs).2 = ink cs := by
  have space : ∀ before after, ink (before ++ ' ' :: after) = ink before ++ ink after := fun before after => by
    rw [ink_append]
    rfl
  rcases cut_cases limit cs with ⟨head, tail, halves, line, -⟩ | ⟨before, after, rest, halves, line, -⟩ |
    ⟨head, rest, halves, line, -⟩
  · rw [halves, line, space]
  · rw [halves, line, space]
  · rw [halves, line, ink_append]

theorem ink_wrapLine (limit : Nat) (cs : List Char) : ink (wrapLine limit cs).flatten = ink cs := by
  fun_induction wrapLine limit cs with
  | case1 cs wide ih => rw [List.flatten_cons, ink_append, ih, ink_trimEnd, ink_trim, ink_cut]
  | case2 => rfl
  | case3 => simp

end Ink

section Ends

/-- A text with no blank at either end. -/
structure Snug (cs : List Char) : Prop where
  front : Inked cs
  back : Inked cs.reverse

theorem reverse_trimEnd (cs : List Char) : (trimEnd cs).reverse = trimStart cs.reverse := by
  rw [trimEnd, List.reverse_reverse]
  rfl

theorem inked_reverse_trimEnd {cs : List Char} (nonempty : trimEnd cs ≠ []) : Inked (trimEnd cs).reverse := by
  rw [reverse_trimEnd]
  refine (inked_trimStart cs.reverse).resolve_left ?_
  rwa [← reverse_trimEnd, List.reverse_eq_nil_iff]

theorem Inked.ne_nil {cs : List Char} (inked : Inked cs) : cs ≠ [] := by
  obtain ⟨c, rest, rfl, -⟩ := inked
  exact List.cons_ne_nil c rest

theorem snug_trim (cs : List Char) : trim cs = [] ∨ Snug (trim cs) :=
  (inked_trim cs).imp_right fun front => ⟨front, inked_reverse_trimEnd front.ne_nil⟩

/-- Every piece of a trimmed line has ink at both ends. -/
theorem snug_of_mem_wrapLine (limit : Nat) {cs : List Char} (trimmed : cs = [] ∨ Snug cs) :
    ∀ piece ∈ wrapLine limit cs, Snug piece := by
  have front := wrapLine_pieces limit (trimmed.imp_right Snug.front)
  have back : ∀ piece ∈ wrapLine limit cs, piece ≠ [] → Inked piece.reverse := by
    clear front
    fun_induction wrapLine limit cs with
    | case1 cs wide ih =>
      intro piece member nonempty
      rcases List.mem_cons.mp member with rfl | later
      · exact inked_reverse_trimEnd nonempty
      · exact ih (snug_trim _) piece later nonempty
    | case2 => simp
    | case3 cs narrow nonempty =>
      intro piece member _
      rw [List.mem_singleton.mp member]
      exact (trimmed.resolve_left nonempty).back
  exact fun piece member =>
    ⟨(front piece member).1, back piece member (front piece member).1.ne_nil⟩

end Ends

theorem toList_wrap_line (limit : Nat) (line : String) :
    (wrap limit [line]).map String.toList = wrapLine limit (trim line.toList) := by
  simp [wrap, Function.comp_def]

/-- Wrapping works line by line. The loop by bytes always ends and never cuts inside a character; no piece is empty
or has a blank at an end; and the pieces of a line hold its characters other than blanks, in order. -/
theorem wrap_lossless (limit : Nat) (lines : List String) :
    wrap limit lines = lines.flatMap (fun line => wrap limit [line]) ∧
      (∀ piece ∈ wrap limit lines, Snug piece.toList) ∧
      ∀ line : String,
        (∀ turns, line.length < turns →
          wrapLineBytes? limit turns (trim line.toList) = some ((wrap limit [line]).map String.toList)) ∧
        ink ((wrap limit [line]).flatMap String.toList) = ink line.toList := by
  refine ⟨by simp [wrap], ?_, fun line => ⟨fun turns enough => ?_, ?_⟩⟩
  · intro piece member
    obtain ⟨line, -, inside⟩ := List.mem_flatMap.mp member
    obtain ⟨chars, present, rfl⟩ := List.mem_map.mp inside
    rw [String.toList_ofList]
    exact snug_of_mem_wrapLine limit (snug_trim _) chars present
  · rw [toList_wrap_line]
    refine wrapLineBytes?_eq limit (Nat.lt_of_le_of_lt (length_trim_le _) ?_)
    rwa [String.length_toList]
  · rw [List.flatMap_def, toList_wrap_line, ink_wrapLine, ink_trim]

/-- Wide characters, a wide blank that is no space, and a word that has to be broken. -/
private def wideLine : String := "  日本\u3000語 héllo\t "

theorem wrap_lossless_wideLine :
    wrap 4 [wideLine] = ["日本", "語", "héll", "o"] ∧ Snug "語".toList ∧ wideLine.length = 14 ∧
      wrapLineBytes? 4 15 (trim wideLine.toList) = some (["日本", "語", "héll", "o"].map String.toList) ∧
      ink "日本語héllo".toList = ink wideLine.toList := by
  have laid : wrap 4 [wideLine] = ["日本", "語", "héll", "o"] := by decide +kernel
  obtain ⟨-, snug, each⟩ := wrap_lossless 4 [wideLine]
  obtain ⟨ends, kept⟩ := each wideLine
  rw [laid] at snug ends kept
  exact ⟨laid, snug "語" (by simp), rfl, ends 15 (by decide), kept⟩

end DocLocale.Translation
