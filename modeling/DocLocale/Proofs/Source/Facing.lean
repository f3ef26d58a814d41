import DocLocale.Proofs.Render.TypeReader
import DocLocale.Proofs.Source.CommentScan
import DocLocale.Source.Parse
import Mathlib.Tactic.Common

/-!
Cursors in front of a text, and the tokens that a text starts with.
-/

set_option autoImplicit false
set_option relaxedAutoImplicit false

namespace DocLocale.Source

open Text (byteLength)
open Render (isNameChar isPlainName takeWhile_front dropWhile_front)

/-- The cursor in front of a text that starts at byte `pos`, behind a token that ended at `last`. -/
def Cursor.facing (last pos : Nat) (comments : List Comment) (cs : List Char) : Cursor :=
  .ofGap last (skip pos false comments .blanks cs)

theorem Cursor.facing_blank (last pos : Nat) (comments : List Comment) (cs : List Char) :
    facing last pos comments (' ' :: cs) = facing last (pos + 1) comments cs := by
  have blank : ∀ c ∈ [' '], isSpace c = true ∧ c ≠ '/' := by
    intro c member
    rw [List.mem_singleton.mp member]
    decide
  have skipped := skip_blanks pos false comments blank cs
  rw [facing, facing]
  exact congrArg (ofGap last) skipped

@[simp] theorem Cursor.previousEnd_facing (last pos : Nat) (comments : List Comment) (cs : List Char) :
    (facing last pos comments cs).previousEnd = last := rfl

/-- A text starts with a token: `front` is read as `token` where `rest` follows. -/
structure Lexes (front : List Char) (token : Token) (rest : List Char) : Prop where
  solid : ∀ position lineBreak comments,
    skip position lineBreak comments .blanks (front ++ rest) = ⟨position, front ++ rest, lineBreak, comments⟩
  piece : tokenPiece (front ++ rest) = ⟨token, byteLength front, rest⟩

namespace Lexes

variable {front rest : List Char} {token : Token}

theorem facing (lexes : Lexes front token rest) (last pos : Nat) (comments : List Comment) :
    Cursor.facing last pos comments (front ++ rest) =
      ⟨token, pos, pos + byteLength front, front ++ rest, rest, false, last, comments⟩ := by
  rw [Cursor.facing, lexes.solid, Cursor.ofGap, lexes.piece]

theorem token_facing (lexes : Lexes front token rest) (last pos : Nat) (comments : List Comment) :
    (Cursor.facing last pos comments (front ++ rest)).token = token := by rw [lexes.facing]

theorem lo_facing (lexes : Lexes front token rest) (last pos : Nat) (comments : List Comment) :
    (Cursor.facing last pos comments (front ++ rest)).lo = pos := by rw [lexes.facing]

theorem lineBreak_facing (lexes : Lexes front token rest) (last pos : Nat) (comments : List Comment) :
    (Cursor.facing last pos comments (front ++ rest)).lineBreak = false := by rw [lexes.facing]

theorem next_facing (lexes : Lexes front token rest) (last pos : Nat) (comments : List Comment) :
    (Cursor.facing last pos comments (front ++ rest)).next =
      .facing (pos + byteLength front) (pos + byteLength front) comments rest := by
  rw [lexes.facing, Cursor.next, Cursor.facing]

end Lexes

private theorem skip_solid {c : Char} (solid : isSpace c = false) (other : c ≠ '/') (cs : List Char) (position : Nat)
    (lineBreak : Bool) (comments : List Comment) :
    skip position lineBreak comments .blanks (c :: cs) = ⟨position, c :: cs, lineBreak, comments⟩ := by
  rw [skip.eq_def]
  split <;> simp_all

/-! ## Names -/

private theorem toNat_of_isNameChar {c : Char} (name : isNameChar c = true) :
    c.toNat = 36 ∨ c.toNat = 95 ∨ (48 ≤ c.toNat ∧ c.toNat ≤ 57) ∨ (65 ≤ c.toNat ∧ c.toNat ≤ 90) ∨
      (97 ≤ c.toNat ∧ c.toNat ≤ 122) := by
  unfold isNameChar Char.isAlphanum Char.isAlpha Char.isUpper Char.isLower Char.isDigit at name
  simp only [Bool.or_eq_true, Bool.and_eq_true, decide_eq_true_eq, beq_iff_eq, ge_iff_le,
    UInt32.le_iff_toNat_le] at name
  have value : c.toNat = c.val.toNat := rfl
  rcases name with (((upper | lower) | digit) | rfl) | rfl
  · change 65 ≤ c.val.toNat ∧ c.val.toNat ≤ 90 at upper
    omega
  · change 97 ≤ c.val.toNat ∧ c.val.toNat ≤ 122 at lower
    omega
  · change 48 ≤ c.val.toNat ∧ c.val.toNat ≤ 57 at digit
    omega
  · decide
  · decide

private theorem solid_of_isNameChar {c : Char} (name : isNameChar c = true) :
    isSpace c = false ∧ c ≠ '/' ∧ c ≠ '\\' ∧ c ≠ '"' ∧ c.toNat ≠ 0x27 ∧ c ≠ '.' := by
  have range := toNat_of_isNameChar name
  have apart : ∀ d : Char, c = d → c.toNat = d.toNat := fun d same => by rw [same]
  refine ⟨?_, ?_, ?_, ?_, by omega, ?_⟩
  · simp only [isSpace, Text.isBlank, Bool.or_eq_false_iff, Bool.and_eq_false_iff, decide_eq_false_iff_not, beq_eq_false_iff_ne]
    omega
  all_goals
    intro same
    have value := apart _ same
    simp at value
    omega

/-- What may follow a name, a number or a bracket: nothing that could belong to it. -/
def Apart (cs : List Char) : Prop :=
  ∀ c ∈ cs.head?, Text.isIdentifierPart c = false ∧ c ≠ '\\' ∧ c ≠ '.'

private theorem identifier_of_isNameChar {c : Char} (name : isNameChar c = true) :
    Text.isIdentifierPart c = true ∧ (c.isDigit = false → Text.isIdentifierStart c = true) := by
  simp only [isNameChar, Char.isAlphanum, Bool.or_eq_true, beq_iff_eq] at name
  constructor
  · simp only [Text.isIdentifierPart, Char.isAlphanum, Bool.or_eq_true, beq_iff_eq]
    tauto
  · intro digit
    simp only [digit, Bool.false_eq_true, or_false] at name
    simp only [Text.isIdentifierStart, Bool.or_eq_true, beq_iff_eq]
    tauto

private theorem nameChar?_cons {first : Bool} {c : Char} (name : isNameChar c = true)
    (starts : first = true → c.isDigit = false) (cs : List Char) :
    nameChar? first (c :: cs) = some ⟨(c, false), c.utf8Size, cs⟩ := by
  obtain ⟨part, start⟩ := identifier_of_isNameChar name
  obtain ⟨-, -, escape, -⟩ := solid_of_isNameChar name
  rw [nameChar?.eq_def]
  split
  · simp_all
  · simp_all
  · simp_all

private theorem nameChar?_apart {rest : List Char} (apart : Apart rest) : nameChar? false rest = none := by
  cases rest with
  | nil => rfl
  | cons c cs =>
    obtain ⟨part, escape, -⟩ := apart c rfl
    rw [nameChar?.eq_def]
    split
    · simp_all
    · simp_all
    · rfl

private theorem nameTail_append {name rest : List Char} (plain : ∀ c ∈ name, isNameChar c = true) (apart : Apart rest)
    (fuel : Nat) (room : name.length ≤ fuel) :
    nameTail fuel (name ++ rest) = ⟨(name, false), byteLength name, rest⟩ := by
  induction name generalizing fuel with
  | nil =>
    cases fuel with
    | zero => rfl
    | succ fuel => simp [nameTail, nameChar?_apart apart, byteLength]
  | cons c name ih =>
    cases fuel with
    | zero => simp at room
    | succ fuel =>
      have first : nameChar? false _ = _ := nameChar?_cons (plain c (by simp)) (by simp) (name ++ rest)
      have later := ih (fun d member => plain d (List.mem_cons_of_mem c member)) fuel (by simpa using room)
      rw [List.cons_append, nameTail, first]
      simp [later, byteLength]

/-- A plain name is a word, unless what follows belongs to it. -/
theorem lexes_name {name : String} (plain : isPlainName name.toList = true) {rest : List Char} (apart : Apart rest) :
    Lexes name.toList (.word name) rest := by
  obtain ⟨c, tail, shape, digit, all⟩ := Render.nameChars_of_isPlainName plain
  have letter := all c (by simp [shape])
  obtain ⟨solid, slash, -, quote, tick, dot⟩ := solid_of_isNameChar letter
  have first : nameChar? true _ = _ := nameChar?_cons letter (fun _ => digit) (tail ++ rest)
  have letters : ∀ d ∈ tail, isNameChar d = true := fun d member => all d (by simp [shape, member])
  have later := nameTail_append letters apart (tail ++ rest).length (by simp)
  have unspoiled : rest.head? ≠ some '\\' := fun escape => (apart _ escape).2.1 rfl
  constructor
  · intro position lineBreak comments
    rw [shape, List.cons_append]
    exact skip_solid solid slash _ position lineBreak comments
  · have word : word? (c :: (tail ++ rest)) = some ⟨.word name, byteLength (c :: tail), rest⟩ := by
      rw [word?, first]
      simp only [later]
      simp [unspoiled, byteLength, ← shape]
    rw [shape, List.cons_append, tokenPiece]
    simp [digit, quote, tick, dot, word]

/-! ## Symbols -/

/-- Brackets and separators, which are symbols whatever follows. -/
def marks : List (Char × String) :=
  [('(', "("), (')', ")"), ('[', "["), (']', "]"), ('<', "<"), ('>', ">"), ('\x7b', "\x7b"), ('\x7d', "\x7d"), (',', ","),
    (';', ";"), (':', ":")]

theorem lexes_mark {c : Char} {s : String} (mark : (c, s) ∈ marks) (rest : List Char) : Lexes [c] (.symbol s) rest := by
  simp only [marks, List.mem_cons, Prod.mk.injEq, List.not_mem_nil, or_false] at mark
  rcases mark with ⟨rfl, rfl⟩ | ⟨rfl, rfl⟩ | ⟨rfl, rfl⟩ | ⟨rfl, rfl⟩ | ⟨rfl, rfl⟩ | ⟨rfl, rfl⟩ | ⟨rfl, rfl⟩ | ⟨rfl, rfl⟩ |
    ⟨rfl, rfl⟩ | ⟨rfl, rfl⟩ | ⟨rfl, rfl⟩
  all_goals exact ⟨skip_solid (by decide) (by decide) rest, rfl⟩

theorem apart_mark {c : Char} {s : String} (mark : (c, s) ∈ marks) (rest : List Char) : Apart (c :: rest) := by
  intro d first
  obtain rfl : c = d := by simpa using first
  simp only [marks, List.mem_cons, Prod.mk.injEq, List.not_mem_nil, or_false] at mark
  rcases mark with ⟨rfl, rfl⟩ | ⟨rfl, rfl⟩ | ⟨rfl, rfl⟩ | ⟨rfl, rfl⟩ | ⟨rfl, rfl⟩ | ⟨rfl, rfl⟩ | ⟨rfl, rfl⟩ | ⟨rfl, rfl⟩ |
    ⟨rfl, rfl⟩ | ⟨rfl, rfl⟩ | ⟨rfl, rfl⟩
  all_goals decide

theorem apart_blank (rest : List Char) : Apart (' ' :: rest) := by
  intro d first
  obtain rfl : ' ' = d := by simpa using first
  decide

theorem apart_question (rest : List Char) : Apart ('?' :: rest) := by
  intro d first
  obtain rfl : '?' = d := by simpa using first
  decide

theorem lexes_arrow (rest : List Char) : Lexes ['=', '>'] (.symbol "=>") rest :=
  ⟨skip_solid (by decide) (by decide) ('>' :: rest), rfl⟩

theorem lexes_dots (rest : List Char) : Lexes ['.', '.', '.'] (.symbol "...") rest :=
  ⟨skip_solid (by decide) (by decide) ('.' :: '.' :: rest), rfl⟩

theorem lexes_equals (rest : List Char) : Lexes ['='] (.symbol "=") (' ' :: rest) :=
  ⟨skip_solid (by decide) (by decide) (' ' :: rest), rfl⟩

theorem lexes_bar (rest : List Char) : Lexes ['|'] (.symbol "|") (' ' :: rest) :=
  ⟨skip_solid (by decide) (by decide) (' ' :: rest), rfl⟩

theorem lexes_question (rest : List Char) : Lexes ['?'] (.symbol "?") (':' :: rest) :=
  ⟨skip_solid (by decide) (by decide) (':' :: rest), rfl⟩

/-! ## Literals -/

private theorem stringTail_append {text rest : List Char}
    (plain : ∀ c ∈ text, c ≠ '"' ∧ c ≠ '\\' ∧ c ≠ '\n' ∧ c ≠ '\r') (fuel : Nat) (room : text.length < fuel) :
    stringTail '"' fuel (text ++ '"' :: rest) = some ⟨text, byteLength text + 1, rest⟩ := by
  induction text generalizing fuel with
  | nil =>
    cases fuel with
    | zero => simp at room
    | succ fuel => simp [stringTail, byteLength]
  | cons c text ih =>
    cases fuel with
    | zero => simp at room
    | succ fuel =>
      obtain ⟨quote, escape, feed, ret⟩ := plain c (by simp)
      have later := ih (fun d member => plain d (List.mem_cons_of_mem c member)) fuel (by simpa using room)
      simp [stringTail, quote, escape, feed, ret, later, byteLength]
      omega

/-- A quoted text without escapes and line breaks is one token. -/
theorem lexes_quoted {text : List Char} (plain : ∀ c ∈ text, c ≠ '"' ∧ c ≠ '\\' ∧ c ≠ '\n' ∧ c ≠ '\r')
    (rest : List Char) : Lexes ('"' :: (text ++ ['"'])) (.string (String.ofList text)) rest := by
  refine ⟨skip_solid (by decide) (by decide) (text ++ ['"'] ++ rest), ?_⟩
  have tail : stringTail '"' ((text ++ '"' :: rest).length + 1) (text ++ '"' :: rest) =
      some ⟨text, byteLength text + 1, rest⟩ := stringTail_append plain _ (by rw [List.length_append]; omega)
  have size : '"'.utf8Size = 1 := by decide
  have piece : stringPiece '"' (text ++ '"' :: rest) =
      ⟨.string (String.ofList text), byteLength text + 1 + 1, rest⟩ := by rw [stringPiece, tail]
  have bytes : byteLength ('"' :: (text ++ ['"'])) = byteLength text + 1 + 1 := by
    simp only [byteLength, Text.byteLength_append, size]
    omega
  rw [List.cons_append, tokenPiece, List.append_assoc, List.singleton_append, bytes, ← piece]
  rfl

private theorem byteLength_digits {ds : List Char} (digits : ∀ c ∈ ds, c.isDigit = true) :
    byteLength ds = ds.length := by
  induction ds with
  | nil => rfl
  | cons d ds ih =>
    have digit : d.utf8Size = 1 := by
      have named : isNameChar d = true := by simp [isNameChar, Char.isAlphanum, digits d (by simp)]
      have range := toNat_of_isNameChar named
      have value : d.toNat = d.val.toNat := rfl
      rw [Char.utf8Size_eq_one_iff, UInt32.le_iff_toNat_le]
      change d.val.toNat ≤ 127
      omega
    rw [byteLength, digit, ih fun c member => digits c (List.mem_cons_of_mem d member), List.length_cons]
    omega

/-- No letter, digit or underscore follows. -/
private theorem Apart.ne {c : Char} {cs : List Char} (apart : Apart (c :: cs)) :
    (∀ d : Char, isNameChar d = true → c ≠ d) ∧ c.isDigit = false ∧ Text.isIdentifierStart c = false := by
  obtain ⟨part, -, -⟩ := apart c rfl
  refine ⟨?_, ?_, ?_⟩
  · rintro d name rfl
    simp [(identifier_of_isNameChar name).1] at part
  · cases digit : c.isDigit with
    | false => rfl
    | true => simp [Text.isIdentifierPart, Char.isAlphanum, digit] at part
  · cases start : Text.isIdentifierStart c with
    | false => rfl
    | true =>
      simp only [Text.isIdentifierStart, Bool.or_eq_true, Bool.and_eq_true] at start
      simp only [Text.isIdentifierPart, Char.isAlphanum, Bool.or_eq_false_iff, Bool.and_eq_false_iff] at part
      simp_all

private theorem digitRun_append {ds rest : List Char} (digits : ∀ c ∈ ds, c.isDigit = true) (apart : Apart rest) :
    digitRun Char.isDigit (ds ++ rest) = (ds.length, rest) := by
  have taken : (ds ++ rest).takeWhile (fun c => c.isDigit || c = '_') = ds := by
    refine takeWhile_front (fun c member => by simp [digits c member]) fun c first => ?_
    cases rest with
    | nil => simp at first
    | cons d rest =>
      obtain rfl : d = c := by simpa using first
      obtain ⟨names, digit, -⟩ := apart.ne
      simp [digit, names '_' (by decide)]
  simp [digitRun, taken]

private theorem exponentRun_apart {rest : List Char} (apart : Apart rest) : exponentRun rest = some (0, rest) := by
  cases rest with
  | nil => rfl
  | cons c cs =>
    obtain ⟨names, -, -⟩ := apart.ne
    simp [exponentRun, names 'e' (by decide), names 'E' (by decide)]

private theorem finishNumber_apart (token : Token) (bytes : Nat) {rest : List Char} (apart : Apart rest) :
    finishNumber token bytes rest = ⟨token, bytes, rest⟩ := by
  cases rest with
  | nil => rfl
  | cons c cs =>
    obtain ⟨-, digit, start⟩ := apart.ne
    simp [finishNumber, digit, start, (apart c rfl).2.1]

private theorem decimalNumber_digits {ds rest : List Char} (digits : ∀ c ∈ ds, c.isDigit = true) (apart : Apart rest) :
    decimalNumber (ds ++ rest) = ⟨.number, ds.length, rest⟩ := by
  rw [decimalNumber, digitRun_append digits apart]
  cases rest with
  | nil => rfl
  | cons c cs =>
    have big := apart.ne.1 'n' (by decide)
    have dot := (apart c rfl).2.2
    simp [big, dot, exponentRun_apart apart, finishNumber_apart _ _ apart]

/-- The letters behind a zero that name a base. -/
private def baseLetters : List Char := ['x', 'X', 'o', 'O', 'b', 'B']

private theorem numberPiece_eq_decimal {d b : Char} (decimal : b ∉ baseLetters) (cs : List Char) :
    numberPiece (d :: b :: cs) = decimalNumber (d :: b :: cs) := by
  simp only [baseLetters, List.mem_cons, List.not_mem_nil, or_false, not_or] at decimal
  rw [numberPiece.eq_def]
  split
  · simp_all
  · rfl

private theorem numberPiece_digits {ds rest : List Char} (digits : ∀ c ∈ ds, c.isDigit = true) (nonempty : ds ≠ [])
    (apart : Apart rest) : numberPiece (ds ++ rest) = decimalNumber (ds ++ rest) := by
  match ds, rest with
  | [], _ => exact absurd rfl nonempty
  | [d], [] =>
    rw [numberPiece.eq_def]
    split <;> simp_all
  | [d], c :: cs =>
    refine numberPiece_eq_decimal ?_ cs
    intro letter
    have named : ∀ x ∈ baseLetters, isNameChar x = true := by simp [baseLetters, isNameChar]
    exact apart.ne.1 c (named c letter) rfl
  | d :: b :: ds, rest =>
    refine numberPiece_eq_decimal ?_ (ds ++ rest)
    intro letter
    have letters : ∀ x ∈ baseLetters, x.isDigit = false := by simp [baseLetters]
    have digit := digits b (by simp)
    simp [letters b letter] at digit

/-- Digits are a number, unless what follows belongs to it. -/
theorem lexes_digits {ds rest : List Char} (digits : ∀ c ∈ ds, c.isDigit = true) (nonempty : ds ≠ [])
    (apart : Apart rest) : Lexes ds .number rest := by
  have number : numberPiece (ds ++ rest) = ⟨.number, byteLength ds, rest⟩ := by
    rw [numberPiece_digits digits nonempty apart, decimalNumber_digits digits apart, byteLength_digits digits]
  obtain ⟨d, ds, rfl⟩ := List.exists_cons_of_ne_nil nonempty
  have first := digits d (by simp)
  have named : isNameChar d = true := by simp [isNameChar, Char.isAlphanum, first]
  obtain ⟨solid, slash, -⟩ := solid_of_isNameChar named
  refine ⟨skip_solid solid slash (ds ++ rest), ?_⟩
  rw [← number, List.cons_append, tokenPiece, first]
  rfl

end DocLocale.Source
