import DocLocale.Proofs.Source.CommentScan
import DocLocale.Render.Declaration

/-!
Code at different depths. Comments, statements, headers, bodies and closing lines each indent themselves; taken
together they are one list of lines that is the same at every depth below the top. Main statement: going deeper
puts spaces in front of every line, and coming to the top takes them away again and makes the code's own line
ambient.
-/

set_option autoImplicit false
set_option relaxedAutoImplicit false

namespace DocLocale

open Source (IsNewline)
open Text (joinLines linesOf)

namespace Render

/-- A text that stays on its line. -/
def Unbroken (text : String) : Prop := '\n' ∉ text.toList

instance (text : String) : Decidable (Unbroken text) := inferInstanceAs (Decidable (_ ∉ _))

/-- Declarations, enum members and blocks of these, in which every text stays on its line. -/
inductive Code.Tidy : Code → Prop
  | declaration {tokens : List String} {above : Option (List String)} (own : ∀ t ∈ tokens, Unbroken t)
      (comment : ∀ lines ∈ above, ∀ l ∈ lines, Unbroken l) : Tidy (.declaration tokens above)
  | member {tokens : List String} {above : Option (List String)} (own : ∀ t ∈ tokens, Unbroken t)
      (comment : ∀ lines ∈ above, ∀ l ∈ lines, Unbroken l) : Tidy (.member tokens above)
  | block {header : List String} {body : List Code} {opening closing : String} {above : Option (List String)}
      (own : ∀ t ∈ header, Unbroken t) (inner : ∀ code ∈ body, Tidy code) (opens : Unbroken opening)
      (closes : Unbroken closing) (comment : ∀ lines ∈ above, ∀ l ∈ lines, Unbroken l) :
      Tidy (.block header body opening closing above)

namespace Code

/-- The comment above a piece of code. -/
def above : Code → Option (List String)
  | .declaration _ above | .member _ above | .block _ _ _ _ above => above
  | .file .. | .root _ => none

/-- The tokens of a statement, or of the header of a block. -/
def tokens : Code → List String
  | .declaration tokens _ | .member tokens _ | .block tokens _ _ _ _ => tokens
  | .file .. | .root _ => []

/-- The word that makes code ambient; members of enums have none. -/
def ambientWord : Code → String
  | .declaration .. | .block .. => "declare "
  | .member .. | .file .. | .root _ => ""

end Code

/-- How many lines a comment takes. -/
def commentHeight : Option (List String) → Nat
  | some (line :: lines) => (line :: lines).length + 2
  | _ => 0

/-- The number of the line on which the statement or the header of a piece of code stands. -/
def Code.ownLine (code : Code) : Nat := commentHeight code.above

section Lines

variable {s : Style} {returns : List Char}

/-- The lines of a comment at the top. -/
private def commentLines (returns : List Char) : Option (List String) → List (List Char)
  | some (line :: lines) =>
    ("/**".toList ++ returns) :: (line :: lines).map (fun l => " * ".toList ++ l.toList ++ returns) ++
      [" */".toList ++ returns]
  | _ => []

private theorem length_commentLines (returns : List Char) (above : Option (List String)) :
    (commentLines returns above).length = commentHeight above := by
  rcases above with _ | (_ | ⟨line, lines⟩) <;> simp [commentLines, commentHeight]

private theorem unbroken_commentLines (plain : '\n' ∉ returns) {above : Option (List String)}
    (unbroken : ∀ lines ∈ above, ∀ l ∈ lines, Unbroken l) :
    ∀ line ∈ commentLines returns above, '\n' ∉ line := by
  rcases above with _ | (_ | ⟨first, rest⟩)
  · simp [commentLines]
  · simp [commentLines]
  · intro line member
    simp only [commentLines, List.mem_append, List.mem_cons, List.mem_map, List.not_mem_nil, or_false] at member
    rcases member with (rfl | ⟨l, present, rfl⟩) | rfl
    · simp [plain]
    · have inside : '\n' ∉ l.toList := unbroken _ rfl l (List.mem_cons.mpr present)
      simp [plain, inside]
    · simp [plain]

private theorem line_eq (split : s.newline.toList = returns ++ ['\n']) (depth : Int) (text : String) :
    s.line depth text = joinLines ([text.toList ++ returns].map ((s.indent depth).toList ++ ·)) := by
  apply String.toList_injective
  simp [Style.line, joinLines, split]

private theorem optionalComment_eq (split : s.newline.toList = returns ++ ['\n']) (depth : Int)
    (above : Option (List String)) :
    optionalComment s depth above =
      joinLines ((commentLines returns above).map ((s.indent depth).toList ++ ·)) := by
  rcases above with _ | (_ | ⟨first, rest⟩)
  · rfl
  · rfl
  · apply String.toList_injective
    simp [optionalComment, comment, Style.line, commentLines, joinLines, split, String.toList_join,
      List.flatMap_map]

/-- A block without a body stands on one line. -/
private theorem block_empty (split : s.newline.toList = returns ++ ['\n']) (depth : Int)
    (above : Option (List String)) (word : String) (header : List String) (opening closing : String) :
    block s depth above word header opening "" closing =
      joinLines ((commentLines returns above ++
        [word.toList ++ ((tokenText header ++ opening ++ closing).toList ++ returns)]).map
          ((s.indent depth).toList ++ ·)) := by
  rw [block, optionalComment_eq split, List.map_append, Text.joinLines_append]
  simp [line_eq split]

private theorem block_lines (split : s.newline.toList = returns ++ ['\n']) (depth : Int)
    (above : Option (List String)) (word : String) (header : List String) (opening closing : String)
    {lines : List (List Char)} (nonempty : lines ≠ []) :
    block s depth above word header opening (joinLines (lines.map ((s.indent depth).toList ++ ·))) closing =
      joinLines ((commentLines returns above ++ (word.toList ++ ((tokenText header ++ opening).toList ++ returns)) ::
        (lines ++ [closing.toList ++ returns])).map ((s.indent depth).toList ++ ·)) := by
  have body : (joinLines (lines.map ((s.indent depth).toList ++ ·))).isEmpty = false := by
    rw [Text.joinLines_isEmpty]
    simpa using nonempty
  rw [block, optionalComment_eq split, List.map_append, Text.joinLines_append, body]
  simp [line_eq split, ← Text.joinLines_append]

private theorem toList_indent (s : Style) (depth : Int) :
    (s.indent depth).toList = List.replicate (s.indentSize * depth.toNat) ' ' := by
  rw [Style.indent, String.toList_ofList]

private theorem indent_succ (s : Style) {depth : Int} (deep : 0 ≤ depth) :
    (s.indent (depth + 1)).toList = (s.indent depth).toList ++ List.replicate s.indentSize ' ' := by
  have levels : (depth + 1).toNat = depth.toNat + 1 := by omega
  rw [toList_indent, toList_indent, levels, Nat.mul_succ, List.replicate_append_replicate]

private theorem indent_add (s : Style) {depth : Int} (deep : 0 ≤ depth) (k : Nat) :
    (s.indent (depth + k)).toList = List.replicate (s.indentSize * k) ' ' ++ (s.indent depth).toList := by
  have levels : (depth + k).toNat = k + depth.toNat := by omega
  rw [toList_indent, toList_indent, levels, Nat.mul_add, List.replicate_append_replicate]

theorem unbroken_tokenText {tokens : List String} (unbroken : ∀ t ∈ tokens, Unbroken t) :
    Unbroken (tokenText tokens) := by
  intro member
  rcases Text.mem_of_mem_intercalate member with space | ⟨token, present, inside⟩
  · exact absurd space (by decide)
  · exact unbroken token (List.mem_of_mem_filter present) inside

end Lines

namespace Code

/-- The word in front of the own line at a depth. -/
private def wordAt (depth : Int) (code : Code) : String := if depth ≤ 0 then code.ambientWord else ""

/-- Code with the lines `own` and `after` behind its comment. They are the same at every depth, but for the spaces
in front of them and the word that `own` starts with at the top. -/
private structure Laid (s : Style) (returns : List Char) (code : Code) (own : List Char)
    (after : List (List Char)) : Prop where
  unbroken : ∀ line ∈ commentLines returns code.above ++ own :: after, '\n' ∉ line
  tokens : (tokenText code.tokens).toList <+: own
  text : ∀ depth : Int, 0 ≤ depth → code.render s depth =
    joinLines ((commentLines returns code.above ++ ((code.wordAt depth).toList ++ own) :: after).map
      ((s.indent depth).toList ++ ·))

variable {s : Style} {returns : List Char}

private theorem laid_statement (split : s.newline.toList = returns ++ ['\n']) (plain : '\n' ∉ returns) (code : Code)
    (own : ∀ t ∈ code.tokens, Unbroken t) (comment : ∀ lines ∈ code.above, ∀ l ∈ lines, Unbroken l)
    (ending : String) (ends : Unbroken ending)
    (text : ∀ depth, code.render s depth =
      statement s depth code.above (code.wordAt depth) code.tokens ending) :
    code.Laid s returns ((tokenText code.tokens ++ ending).toList ++ returns) [] where
  unbroken := by
    have tokens : '\n' ∉ (tokenText code.tokens).toList := unbroken_tokenText own
    have last : '\n' ∉ ending.toList := ends
    intro line member
    rcases List.mem_append.mp member with above | here
    · exact unbroken_commentLines plain comment line above
    · rw [List.mem_singleton.mp here]
      simp [tokens, last, plain]
  tokens := by
    rw [String.toList_append, List.append_assoc]
    exact List.prefix_append _ _
  text depth _ := by
    rw [text, statement, optionalComment_eq split, line_eq split, List.map_append, Text.joinLines_append]
    simp

/-- The lines of a body, which is never at the top. -/
private theorem exists_bodyLines {body : List Code}
    (inner : ∀ code ∈ body, ∃ own after, code.Laid s returns own after) :
    ∃ lines : List (List Char), (∀ line ∈ lines, '\n' ∉ line) ∧ ∀ depth : Int, 1 ≤ depth →
      renderAll s depth body = joinLines (lines.map ((s.indent depth).toList ++ ·)) := by
  induction body with
  | nil => exact ⟨[], by simp, fun depth _ => by rw [renderAll]; rfl⟩
  | cons code body ih =>
    obtain ⟨own, after, laid⟩ := inner code List.mem_cons_self
    obtain ⟨lines, unbroken, text⟩ := ih fun other member => inner other (List.mem_cons_of_mem _ member)
    refine ⟨(commentLines returns code.above ++ own :: after) ++ lines, ?_, ?_⟩
    · intro line member
      rcases List.mem_append.mp member with here | later
      · exact laid.unbroken line here
      · exact unbroken line later
    · intro depth deep
      have word : code.wordAt depth = "" := if_neg (by omega)
      rw [renderAll, laid.text depth (by omega), text depth deep, word, ← Text.joinLines_append,
        ← List.map_append]
      rfl

private theorem laid_block (split : s.newline.toList = returns ++ ['\n']) (plain : '\n' ∉ returns)
    {header : List String} {body : List Code} {opening closing : String} {above : Option (List String)}
    (own : ∀ t ∈ header, Unbroken t) (inner : ∀ code ∈ body, ∃ own after, code.Laid s returns own after)
    (opens : Unbroken opening) (closes : Unbroken closing)
    (comment : ∀ lines ∈ above, ∀ l ∈ lines, Unbroken l) :
    ∃ own after, (Code.block header body opening closing above).Laid s returns own after := by
  obtain ⟨lines, unbroken, text⟩ := exists_bodyLines inner
  have tokens : '\n' ∉ (tokenText header).toList := unbroken_tokenText own
  have opens : '\n' ∉ opening.toList := opens
  have closes : '\n' ∉ closing.toList := closes
  have beside := unbroken_commentLines plain comment
  by_cases empty : lines = []
  · refine ⟨(tokenText header ++ opening ++ closing).toList ++ returns, [], ?_, ?_, ?_⟩
    · intro line member
      rcases List.mem_append.mp member with above | here
      · exact beside line above
      · rw [List.mem_singleton.mp here]
        simp [tokens, opens, closes, plain]
    · simp only [String.toList_append, List.append_assoc]
      exact List.prefix_append _ _
    · intro depth deep
      rw [Code.render, text (depth + 1) (by omega), empty]
      exact block_empty split depth above _ header opening closing
  · refine ⟨(tokenText header ++ opening).toList ++ returns,
      lines.map (List.replicate s.indentSize ' ' ++ ·) ++ [closing.toList ++ returns], ?_, ?_, ?_⟩
    · intro line member
      simp only [List.mem_append, List.mem_cons, List.mem_map, List.not_mem_nil, or_false] at member
      rcases member with above | rfl | ⟨inside, present, rfl⟩ | rfl
      · exact beside line above
      · simp [tokens, opens, plain]
      · simp [unbroken inside present]
      · simp [closes, plain]
    · simp only [String.toList_append, List.append_assoc]
      exact List.prefix_append _ _
    · intro depth deep
      have shifted : lines.map ((s.indent (depth + 1)).toList ++ ·) =
          (lines.map (List.replicate s.indentSize ' ' ++ ·)).map ((s.indent depth).toList ++ ·) := by
        rw [indent_succ s deep, List.map_map]
        simp only [List.append_assoc, Function.comp_def]
      rw [Code.render, text (depth + 1) (by omega), shifted]
      exact block_lines split depth above _ header opening closing (by simpa using empty)

/-- Tidy code has the same lines at every depth. -/
private theorem exists_laid (split : s.newline.toList = returns ++ ['\n']) (plain : '\n' ∉ returns) {code : Code}
    (tidy : code.Tidy) : ∃ own after, code.Laid s returns own after := by
  induction tidy with
  | @declaration tokens above own comment =>
    have text : ∀ depth, (Code.declaration tokens above).render s depth =
        statement s depth above (wordAt depth (.declaration tokens above)) tokens ";" := by
      intro depth
      rw [Code.render]
      rfl
    exact ⟨_, _, laid_statement split plain (.declaration tokens above) own comment ";" (by decide) text⟩
  | @member tokens above own comment =>
    have text : ∀ depth, (Code.member tokens above).render s depth =
        statement s depth above (wordAt depth (.member tokens above)) tokens "," := by
      intro depth
      have word : wordAt depth (.member tokens above) = "" := ite_self ""
      rw [Code.render, word]
    exact ⟨_, _, laid_statement split plain (.member tokens above) own comment "," (by decide) text⟩
  | block own _ opens closes comment inner => exact laid_block split plain own inner opens closes comment

namespace Laid

variable {code : Code} {own : List Char} {after : List (List Char)}

/-- Below the top only the spaces differ. -/
private theorem deep (laid : code.Laid s returns own after) {d : Int} (below : 1 ≤ d) :
    code.render s d =
      joinLines ((commentLines returns code.above ++ own :: after).map ((s.indent d).toList ++ ·)) := by
  have word : code.wordAt d = "" := if_neg (by omega)
  rw [laid.text d (by omega), word]
  rfl

private theorem linesOf_deep (laid : code.Laid s returns own after) {d : Int} (below : 1 ≤ d) :
    linesOf (code.render s d) =
      (commentLines returns code.above ++ own :: after).map ((s.indent d).toList ++ ·) := by
  rw [laid.deep below]
  apply Text.linesOf_joinLines
  intro line member
  obtain ⟨bare, present, rfl⟩ := List.mem_map.mp member
  simp [toList_indent, laid.unbroken bare present]

private theorem top (laid : code.Laid s returns own after) :
    code.render s 0 =
      joinLines ((commentLines returns code.above ++ own :: after).modify code.ownLine
        (code.ambientWord.toList ++ ·)) := by
  have spaces : (s.indent 0).toList = [] := by simp [toList_indent]
  have word : code.wordAt 0 = code.ambientWord := if_pos (Int.le_refl 0)
  have place : (commentLines returns code.above).length = code.ownLine := length_commentLines _ _
  rw [laid.text 0 (Int.le_refl 0), word, spaces, ← place]
  simp [List.modify_eq_take_drop]

end Laid

end Code

/-- Going `k` levels deeper puts the spaces of `k` levels in front of every line. Coming to the top from the first
level takes the spaces of one level from every line and puts the ambient word in front of the code's own line, the
one behind its comment; members of enums have no such word. -/
theorem render_shifts_with_depth {code : Code} (tidy : code.Tidy) (s : Style) (newline : IsNewline s.newline) :
    (∀ (d : Int) (k : Nat), 1 ≤ d → code.render s (d + k) =
      joinLines ((linesOf (code.render s d)).map (List.replicate (s.indentSize * k) ' ' ++ ·))) ∧
    (∀ line ∈ linesOf (code.render s 1), List.replicate s.indentSize ' ' <+: line) ∧
    (∃ own, (linesOf (code.render s 1))[code.ownLine]? = some own ∧
      List.replicate s.indentSize ' ' ++ (tokenText code.tokens).toList <+: own) ∧
    code.render s 0 = joinLines (((linesOf (code.render s 1)).map (·.drop s.indentSize)).modify code.ownLine
      (code.ambientWord.toList ++ ·)) := by
  obtain ⟨returns, split, ends⟩ := Source.exists_returns newline
  have plain : '\n' ∉ returns := by
    rcases ends with rfl | rfl <;> decide
  obtain ⟨own, after, laid⟩ := Code.exists_laid split plain tidy
  have first : (s.indent 1).toList = List.replicate s.indentSize ' ' := by
    simp [toList_indent]
  have lines : linesOf (code.render s 1) =
      (commentLines returns code.above ++ own :: after).map (List.replicate s.indentSize ' ' ++ ·) := by
    rw [laid.linesOf_deep (Int.le_refl 1), first]
  refine ⟨?_, ?_, ?_, ?_⟩
  · intro d k below
    rw [laid.linesOf_deep below, laid.deep (by omega), List.map_map, indent_add s (by omega)]
    simp only [Function.comp_def, List.append_assoc]
  · intro line member
    rw [lines] at member
    obtain ⟨bare, -, rfl⟩ := List.mem_map.mp member
    exact List.prefix_append _ _
  · have place : (commentLines returns code.above).length = code.ownLine := length_commentLines _ _
    refine ⟨List.replicate s.indentSize ' ' ++ own, ?_, (List.prefix_append_right_inj _).mpr laid.tokens⟩
    rw [lines, List.getElem?_map, List.getElem?_append_right (by omega)]
    simp [place]
  · have bare : (linesOf (code.render s 1)).map (·.drop s.indentSize) =
        commentLines returns code.above ++ own :: after := by
      rw [lines, List.map_map]
      conv_rhs => rw [← List.map_id (commentLines returns code.above ++ own :: after)]
      apply List.map_congr_left
      intro line _
      simp
    rw [bare, laid.top]

/-- A namespace with a comment, an empty class, and an enum with a comment of its own. -/
private def commentedCode : Code :=
  .block ["namespace", "N"]
    [.block ["class", "C", ""] [] " \x7b" "\x7d" none,
      .block ["enum", "E"] [.member ["A", "=", "1"] none] " \x7b" "\x7d" (some ["inner"])]
    " \x7b" "\x7d" (some ["outer", ""])

private theorem tidy_commentedCode : commentedCode.Tidy := by
  refine .block (by decide) ?_ (by decide) (by decide) (by decide)
  intro code member
  rcases List.mem_cons.mp member with rfl | member
  · exact .block (by decide) (by simp) (by decide) (by decide) (by decide)
  · rw [List.mem_singleton.mp member]
    refine .block (by decide) ?_ (by decide) (by decide) (by decide)
    intro inner only
    rw [List.mem_singleton.mp only]
    exact .member (by decide) (by decide)

theorem render_shifts_with_depth_nested :
    let s : Style := ⟨2, "\r\n"⟩
    commentedCode.Tidy ∧
      commentedCode.render s 3 =
        joinLines ((linesOf (commentedCode.render s 1)).map ("    ".toList ++ ·)) ∧
      commentedCode.render s 0 = joinLines
        (((linesOf (commentedCode.render s 1)).map (·.drop 2)).modify 4 ("declare ".toList ++ ·)) ∧
      linesOf (commentedCode.render s 0) =
        ["/**\r", " * outer\r", " * \r", " */\r", "declare namespace N \x7b\r", "  class C \x7b\x7d\r", "  /**\r",
          "   * inner\r", "   */\r", "  enum E \x7b\r", "    A = 1,\r", "  \x7d\r", "\x7d\r"].map String.toList := by
  intro s
  obtain ⟨deeper, -, -, top⟩ := render_shifts_with_depth tidy_commentedCode s (.inr rfl)
  exact ⟨tidy_commentedCode, deeper 1 2 (by decide), top, by decide +kernel⟩

end Render

end DocLocale
