import DocLocale.Proofs.Doc.CommentRoundTrip
import DocLocale.Proofs.Key.Rereading
import DocLocale.Proofs.Key.SharedViews
import DocLocale.Proofs.Source.Gaps

/-!
What stands in front of a printed declaration: the end of the line before, the comment, and the indentation. Main
statement: such a gap gives the declaration behind it the flags that its comment was made from.
-/

set_option autoImplicit false
set_option relaxedAutoImplicit false

namespace DocLocale

open Source (IsNewline Clean)
open Text (IsBlankText)

namespace Render

variable {style : Style}

/-- What is printed between the line before a declaration and the declaration. -/
def gapChars (style : Style) (depth : Int) (above : Option (List String)) : List Char :=
  style.newline.toList ++ ((optionalComment style depth above).toList ++ (style.indent depth).toList)

/-- What is printed between two lines of code. -/
def breakChars (style : Style) (depth : Int) : List Char := style.newline.toList ++ (style.indent depth).toList

theorem isBlankText_newline (newline : IsNewline style.newline) : IsBlankText style.newline.toList := by
  have blanks : style.newline.toList.all Text.isBlank = true := by
    rcases newline with same | same <;> rw [same] <;> decide
  exact List.all_eq_true.mp blanks

theorem newline_ne_empty (newline : IsNewline style.newline) : style.newline ≠ "" := by
  rcases newline with same | same <;> simp [same]

theorem isBlankText_break (newline : IsNewline style.newline) (depth : Int) : IsBlankText (breakChars style depth) := by
  intro c member
  rcases List.mem_append.mp member with line | rest
  · exact isBlankText_newline newline c line
  · rw [Style.indent, String.toList_ofList] at rest
    rw [List.eq_of_mem_replicate rest]
    decide

theorem any_isLineEnd_break (newline : IsNewline style.newline) (depth : Int) :
    (breakChars style depth).any Source.isLineEnd = true := by
  have broken : style.newline.toList.any Source.isLineEnd = true := by
    rcases newline with same | same <;> rw [same] <;> decide
  rw [breakChars, List.any_append, broken, Bool.true_or]

/-- A gap without a comment. -/
theorem gapReads_none (newline : IsNewline style.newline) (depth : Int) :
    Source.GapReads (gapChars style depth none) [] :=
  Source.gapReads_blank (isBlankText_break newline depth) (any_isLineEnd_break newline depth)

/-- A gap with a comment of clean lines. -/
theorem gapReads_some (newline : IsNewline style.newline) (depth : Int) {lines : List String} (nonempty : lines ≠ [])
    (clean : ∀ line ∈ lines, Clean line.toList) :
    Source.GapReads (gapChars style depth (some lines)) (lines.filterMap fun line => Source.headTag? line.toList) := by
  obtain ⟨returns, split, plain⟩ := Source.exists_returns newline
  have inside : ∀ line ∈ lines.map String.toList, Clean line := by simpa using clean
  have uncut := Source.uncut_blockBody plain (style.indentSize * depth.toNat)
    fun line member => Source.uncut_of_starless (inside line member).starless
  have shape : gapChars style depth (some lines) = breakChars style depth ++ '/' :: '*' ::
      (Source.blockBody (style.indentSize * depth.toNat) returns (lines.map String.toList) ++
        '*' :: '/' :: breakChars style depth) := by
    rw [gapChars, optionalComment, Source.toList_comment depth nonempty split, breakChars, split]
    simp [Style.indent]
  rw [shape]
  refine Source.gapReads_comment (isBlankText_break newline depth) uncut (isBlankText_break newline depth)
    (any_isLineEnd_break newline depth) rfl fun position => ?_
  rw [Source.lineTags_blockBody plain _ inside, List.filterMap_map]
  rfl

variable {t : Tree} {languages : List String} {maxWidth : Nat}

/-- What the comments of a tree need to be read back: plain names and languages, and lines that hold every tag. -/
structure Printable (t : Tree) (languages : List String) (maxWidth : Nat) : Prop where
  spoken : languages ≠ []
  regular : t.Regular
  parts : ∀ id n, t.node? id = some n → n.flags.isSome → Doc.PlainParts t languages n (Key.ofNode t id)
  fits : ∀ id, ∀ r ∈ (Doc.expand t id languages).records, Translation.summedWidth r.tagWord ≤ maxWidth

/-- The gap in front of a printed node gives it the flags that its comment shows. -/
theorem gapReads_printed (printable : Printable t languages maxWidth) (newline : IsNewline style.newline) (depth : Int)
    (language : String) {id : NodeId} {n : Node} {f : Doc.Flags} (found : t.node? id = some n) (flagged : n.flags = some f) :
    ∃ tags, Source.GapReads
        (gapChars style depth (commentOf ⟨t, .ofLanguage {} language maxWidth, languages⟩ id).1) tags ∧
      (Doc.buildFlags n.kind tags).flags = f.reread n.kind := by
  obtain ⟨tags, rfl, named⟩ := printable.regular.flags id n f found flagged
  cases enabled : (Doc.buildFlags n.kind tags).flags.enabled with
  | true =>
    have parts := printable.parts id n found (by simp [flagged])
    obtain ⟨lines, made, nonempty, clean, given⟩ := Doc.printed_comment found flagged enabled named printable.spoken parts
      language (printable.fits id)
    refine ⟨_, by rw [made]; exact gapReads_some newline depth nonempty clean, ?_⟩
    rw [given, Doc.Flags.reread, enabled, if_pos rfl]
  | false =>
    have empty : (Doc.expand t id languages).records = [] := by
      rw [Doc.expand_records found flagged, Doc.Flags.active, enabled]
      rfl
    have bare : (commentOf ⟨t, .ofLanguage {} language maxWidth, languages⟩ id).1 = none := by
      simp [commentOf, empty]
    refine ⟨[], by rw [bare]; exact gapReads_none newline depth, ?_⟩
    rw [Doc.Flags.reread, enabled]
    rfl

end Render

end DocLocale
