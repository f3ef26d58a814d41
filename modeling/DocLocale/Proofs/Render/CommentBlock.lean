import DocLocale.Proofs.Doc.Expansion
import DocLocale.Proofs.Key.Segments
import DocLocale.Proofs.Key.Stored
import DocLocale.Proofs.Source.CommentScan
import DocLocale.Proofs.Translation.WrapLines
import DocLocale.Render.Declaration
import Mathlib.Data.List.Infix

/-!
Comments that hold translations. Translations are put into comments as they are, and only texts are taken apart
at line breaks. Main statement: as long as no translation holds a closing mark and no entry of a list breaks its
line, the comment above a node is one block, with a star before every line and closed at its end alone.
-/

set_option autoImplicit false
set_option relaxedAutoImplicit false

namespace DocLocale

open Source (IsNewline Uncut)

/-- A line that can stand in a comment: it is not broken and does not close the comment. -/
structure Enclosed (line : List Char) : Prop where
  unbroken : '\n' ∉ line
  uncut : ¬ ['*', '/'] <:+: line

instance (line : List Char) : Decidable (Enclosed line) :=
  decidable_of_iff ('\n' ∉ line ∧ ¬ ['*', '/'] <:+: line)
    ⟨fun both => ⟨both.1, both.2⟩, fun enclosed => ⟨enclosed.unbroken, enclosed.uncut⟩⟩

theorem Enclosed.of_part {line part : List Char} (enclosed : Enclosed line) (inside : part <:+: line) :
    Enclosed part :=
  ⟨fun member => enclosed.unbroken (inside.mem member), fun mark => enclosed.uncut (mark.trans inside)⟩

namespace Render

section Blocks

/-- A line without the carriage return at its end. -/
def dropReturn (line : List Char) : List Char :=
  if line.getLast? = some '\r' then line.dropLast else line

/-- The lines of a text as they stand on the page, and what follows the last line break. -/
def physicalLines (text : String) : List (List Char) := (Text.splitAt '\n' text.toList).map dropReturn

/-- A text that is one comment block: opened on its first line and closed on its last, with a star before every
line between them, and with no closing mark but the last. -/
structure IsBlock (style : Style) (depth : Int) (text : String) : Prop where
  lines : ∃ between,
    physicalLines text = (style.indent depth ++ "/**").toList :: between ++
      [(style.indent depth ++ " */").toList, []] ∧
    ∀ line ∈ between, (style.indent depth ++ " * ").toList <+: line
  closed : ∀ before after, text.toList = before ++ '*' :: '/' :: after → after = style.newline.toList

private theorem dropReturn_append {front returns : List Char} (plain : returns = [] ∨ returns = ['\r'])
    (ends : front.getLast? ≠ some '\r') : dropReturn (front ++ returns) = front := by
  rcases plain with rfl | rfl
  · rw [List.append_nil, dropReturn, if_neg ends]
  · simp [dropReturn]

/-- Dropping a carriage return never reaches into a front that does not end with one. -/
private theorem front_dropReturn {front : List Char} (ends : front.getLast? ≠ some '\r') (rest : List Char) :
    front <+: dropReturn (front ++ rest) := by
  unfold dropReturn
  split
  · rename_i returned
    by_cases none : rest = []
    · rw [none, List.append_nil] at returned
      exact absurd returned ends
    · rw [List.dropLast_append_of_ne_nil none]
      exact List.prefix_append _ _
  · exact List.prefix_append _ _

variable {style : Style} (depth : Int) {lines : List String} {returns : List Char}

/-- The text of a comment, line by line. -/
private theorem toList_comment_lines (nonempty : lines ≠ [])
    (split : style.newline.toList = returns ++ ['\n']) :
    (comment style depth lines).toList =
      (((style.indent depth ++ "/**").toList ++ returns) ::
        lines.map (fun line => (style.indent depth ++ " * ").toList ++ (line.toList ++ returns)) ++
        [(style.indent depth ++ " */").toList ++ returns]).flatMap (· ++ ['\n']) := by
  simp [comment, nonempty, Style.line, split, String.toList_join, List.flatMap_map]

theorem isBlock_comment (newline : IsNewline style.newline) (nonempty : lines ≠ [])
    (enclosed : ∀ line ∈ lines, Enclosed line.toList) : IsBlock style depth (comment style depth lines) := by
  obtain ⟨returns, split, plain⟩ := Source.exists_returns newline
  have spaces : ∀ c ∈ (style.indent depth).toList, c = ' ' := by
    intro c member
    rw [Style.indent, String.toList_ofList] at member
    exact List.eq_of_mem_replicate member
  have unbroken : '\n' ∉ (style.indent depth).toList := fun member => absurd (spaces _ member) (by decide)
  have noReturns : '\n' ∉ returns := by
    rcases plain with rfl | rfl <;> decide
  constructor
  · refine ⟨lines.map fun line =>
      dropReturn ((style.indent depth ++ " * ").toList ++ (line.toList ++ returns)), ?_, ?_⟩
    · have whole : ∀ part ∈ ((style.indent depth ++ "/**").toList ++ returns) ::
            lines.map (fun line => (style.indent depth ++ " * ").toList ++ (line.toList ++ returns)) ++
            [(style.indent depth ++ " */").toList ++ returns], '\n' ∉ part := by
        intro part member
        simp only [List.mem_append, List.mem_cons, List.mem_map, List.not_mem_nil, or_false] at member
        rcases member with (rfl | ⟨line, present, rfl⟩) | rfl
        · simp [unbroken, noReturns]
        · simp [unbroken, noReturns, (enclosed line present).unbroken]
        · simp [unbroken, noReturns]
      have pieces := Text.splitAt_lines whole []
      rw [List.append_nil, ← toList_comment_lines depth nonempty split] at pieces
      have opened : dropReturn ((style.indent depth ++ "/**").toList ++ returns) =
          (style.indent depth ++ "/**").toList := dropReturn_append plain (by simp)
      have ended : dropReturn ((style.indent depth ++ " */").toList ++ returns) =
          (style.indent depth ++ " */").toList := dropReturn_append plain (by simp)
      have nothing : (Text.splitAt '\n' []).map dropReturn = [[]] := rfl
      rw [physicalLines, pieces, List.map_append, List.map_append, List.map_cons, List.map_map, List.map_singleton,
        opened, ended, nothing]
      simp [Function.comp_def]
    · intro line member
      obtain ⟨text, -, rfl⟩ := List.mem_map.mp member
      exact front_dropReturn (by simp) _
  · intro before after found
    -- Everything in front of the last mark is the opening and the body, and these hold no mark.
    have inside : ∀ line ∈ lines.map String.toList, Uncut line := by
      intro line member
      obtain ⟨text, present, rfl⟩ := List.mem_map.mp member
      exact Source.uncut_iff.mpr (enclosed text present).uncut
    have body := Source.uncut_blockBody plain (style.indentSize * depth.toNat) inside
    have front : Uncut (List.replicate (style.indentSize * depth.toNat) ' ' ++ '/' :: '*' ::
        Source.blockBody (style.indentSize * depth.toNat) returns (lines.map String.toList)) := by
      have blanks : '*' ∉ List.replicate (style.indentSize * depth.toNat) ' ' ++ ['/'] := by
        simp [List.mem_replicate]
      have opened := Source.Uncut.append blanks (b := '*' :: _) ⟨by simp [Source.blockBody], body⟩
      simpa using opened
    have starless : '*' ∉ returns ++ ['\n'] := by
      rcases plain with rfl | rfl <;> decide
    rw [Source.toList_comment depth nonempty split] at found
    rw [split]
    exact Source.eq_of_uncut front starless (by simpa using found)

end Blocks

end Render

section Lines

/-- A translation that stays inside its comment: it holds no closing mark, and as a list no line breaks. -/
def Translation.Harmless : Translation → Prop
  | .text s => ¬ ['*', '/'] <:+: s.toList
  | .lines ls => ∀ l ∈ ls, Enclosed l.toList

/-- A text without stars and line breaks. -/
structure Contained (s : String) : Prop where
  starless : '*' ∉ s.toList
  unbroken : '\n' ∉ s.toList

instance (s : String) : Decidable (Contained s) :=
  decidable_of_iff ('*' ∉ s.toList ∧ '\n' ∉ s.toList)
    ⟨fun both => ⟨both.1, both.2⟩, fun contained => ⟨contained.starless, contained.unbroken⟩⟩

theorem Contained.append {a b : String} (left : Contained a) (right : Contained b) : Contained (a ++ b) := by
  constructor
  · simp [String.toList_append, left.starless, right.starless]
  · simp [String.toList_append, left.unbroken, right.unbroken]

theorem Contained.enclosed {s : String} (contained : Contained s) : Enclosed s.toList :=
  ⟨contained.unbroken, Source.uncut_iff.mp (Source.uncut_of_starless contained.starless)⟩

private theorem enclosed_splitAt {cs : List Char} (uncut : ¬ ['*', '/'] <:+: cs) :
    ∀ part ∈ Text.splitAt '\n' cs, Enclosed part := by
  obtain ⟨first, rest, split, front, inner, absent⟩ := Text.exists_parts '\n' cs
  intro part member
  rw [split] at member
  refine ⟨absent part member, fun mark => uncut ?_⟩
  rcases List.mem_cons.mp member with rfl | later
  · exact mark.trans front.isInfix
  · exact mark.trans (inner part later)

/-- A lead in front of a line leaves it inside the comment. -/
private theorem enclosed_lead {lead line : String} (contained : Contained lead)
    (enclosed : Enclosed line.toList) : Enclosed (lead ++ " " ++ line).toList := by
  have start : Contained (lead ++ " ") := contained.append (by decide)
  rw [String.toList_append]
  constructor
  · simp only [List.mem_append, start.unbroken, enclosed.unbroken, or_self, not_false_eq_true]
  · exact Source.uncut_iff.mp (Source.Uncut.append start.starless (Source.uncut_iff.mpr enclosed.uncut))

private theorem enclosed_withLead {lead : String} (contained : Contained lead) {lines : List String}
    (enclosed : ∀ line ∈ lines, Enclosed line.toList) :
    ∀ line ∈ Translator.withLead lead lines, Enclosed line.toList := by
  cases lines with
  | nil => simp [Translator.withLead]
  | cons first rest =>
    intro line member
    rcases List.mem_cons.mp member with rfl | later
    · split
      · exact enclosed first List.mem_cons_self
      · exact enclosed_lead contained (enclosed first List.mem_cons_self)
    · exact enclosed line (List.mem_cons_of_mem _ later)

theorem LineFormat.enclosed_apply (format : LineFormat) {lines : List String}
    (enclosed : ∀ line ∈ lines, Enclosed line.toList) :
    ∀ line ∈ format.apply lines, Enclosed line.toList := by
  cases format with
  | verbatim => exact enclosed
  | wrapped limit =>
    intro line member
    obtain ⟨source, present, inside⟩ := List.mem_flatMap.mp member
    obtain ⟨piece, wrapped, rfl⟩ := List.mem_map.mp inside
    have part := Translation.infix_of_mem_wrapLine limit _ piece wrapped
    rw [String.toList_ofList]
    exact (enclosed source present).of_part (part.trans (Translation.infix_trim _))

/-- The lines of a record stay inside the comment if its translation does. -/
theorem Translator.enclosed_recordLines {translator : Translator} {r : Doc.Record} (key : Contained r.key)
    (lead : Contained r.lead)
    (harmless : ∀ tr, translator.keys.get? r.key = some tr → tr.Harmless) :
    ∀ line ∈ translator.recordLines r, Enclosed line.toList := by
  have own : (Translation.text r.key).Harmless := key.enclosed.uncut
  have shown : (translator.translate r.key).Harmless := by
    unfold translate
    split
    · rename_i value found
      split
      · exact own
      · exact harmless value found
    · exact own
  apply LineFormat.enclosed_apply
  unfold rawLines
  split
  · rename_i s found
    rw [found] at shown
    apply enclosed_withLead lead
    intro line member
    obtain ⟨part, present, rfl⟩ := List.mem_map.mp member
    rw [String.toList_ofList]
    exact enclosed_splitAt shown part present
  · rename_i ls found
    rw [found] at shown
    split
    · exact shown
    · intro line member
      rcases List.mem_cons.mp member with rfl | entry
      · exact lead.enclosed
      · exact shown line entry

end Lines

namespace Doc

/-- Names, flags and languages without stars and line breaks. -/
structure ContainedParts (t : Tree) (languages : List String) : Prop where
  names : ∀ id, Contained (t.name id)
  flags : ∀ id n f, t.node? id = some n → n.flags = some f → ∀ name ∈ f.names, Contained name
  languages : ∀ l ∈ languages, Contained l

private theorem contained_toString (n : Nat) : Contained (toString n) := by
  constructor
  · intro member
    exact absurd (isDigit_of_mem_toString member) (by decide)
  · intro member
    exact absurd (isDigit_of_mem_toString member) (by decide)

variable {t : Tree} {languages : List String}

private theorem contained_ofNode (names : ∀ id, Contained (t.name id)) (id : NodeId) :
    Contained (Key.ofNode t id) := by
  constructor
  · intro member
    obtain ⟨i, star⟩ := Key.exists_name_of_mem_ofNode member (by decide) (by decide) (by decide)
    exact (names i).starless star
  · intro member
    obtain ⟨i, break'⟩ := Key.exists_name_of_mem_ofNode member (by decide) (by decide) (by decide)
    exact (names i).unbroken break'

/-- The records of a flag are made of contained parts. -/
private theorem contained_given {o : Occurrence} (key : Contained o.key) (name : Contained o.name)
    (names : ∀ id, Contained (t.name id)) (spoken : ∀ l ∈ languages, Contained l) {r : Record}
    (member : r ∈ o.given t languages) : Contained r.key ∧ Contained r.lead := by
  have below : ∀ {suffix : String}, Contained suffix → Contained (o.key ++ suffix) := key.append
  unfold Occurrence.given Occurrence.records at member
  cases found : Tag.ofName? o.name with
  | none =>
    simp only [found, List.mem_singleton] at member
    subst member
    exact ⟨(below (by decide)).append name, Contained.append (by decide) name⟩
  | some tag =>
    cases tag with
    | deprecated =>
      simp only [found, List.mem_singleton] at member
      subst member
      exact ⟨below (by decide), (by decide : Contained "@deprecated")⟩
    | text =>
      simp only [found, List.mem_singleton] at member
      subst member
      refine ⟨(below (by decide)).append (contained_toString _), ?_⟩
      dsimp only
      split <;> decide
    | sample =>
      simp only [found] at member
      obtain ⟨l, present, rfl⟩ := List.mem_map.mp member
      exact ⟨(below (by decide)).append (spoken l present), (by decide : Contained "@example")⟩
    | params =>
      simp only [found] at member
      cases signature : o.node.body.signature? with
      | none =>
        simp only [signature] at member
        cases member
      | some s =>
        simp only [signature] at member
        obtain ⟨p, -, rfl⟩ := List.mem_map.mp member
        exact ⟨(below (by decide)).append (names p), Contained.append (by decide) (names p)⟩
    | returns =>
      simp only [found] at member
      by_cases functionLike : o.node.kind.isFunctionLike = true
      · simp only [functionLike, if_true, List.mem_singleton] at member
        subst member
        exact ⟨below (by decide), (by decide : Contained "@returns")⟩
      · simp only [functionLike, Bool.false_eq_true, if_false] at member
        cases member

theorem contained_expand (parts : ContainedParts t languages) {id : NodeId} {r : Record}
    (member : r ∈ (expand t id languages).records) : Contained r.key ∧ Contained r.lead := by
  cases found : t.node? id with
  | none =>
    simp only [expand, found] at member
    cases member
  | some n =>
    cases flagged : n.flags with
    | none =>
      simp only [expand, found, flagged] at member
      cases member
    | some f =>
      rw [expand_records found flagged] at member
      obtain ⟨o, present, given'⟩ := List.mem_flatMap.mp member
      have among := among_of_mem_occurrences present
      have active : o.name ∈ f.names := by
        have taken := among.name
        unfold Flags.active at taken
        split at taken
        · exact taken
        · cases taken
      have key : Contained o.key := among.key ▸ contained_ofNode parts.names id
      exact contained_given key (parts.flags id n f found flagged o.name active) parts.names parts.languages
        given'

end Doc

namespace Render

/-- Translations without closing marks, and without line breaks in the entries of lists, leave the comment above
a node one block. The text above a node is empty only if its records have no lines. -/
theorem optionalComment_isBlock {t : Tree} {languages : List String} (parts : Doc.ContainedParts t languages)
    {keys : KeyMap} (harmless : ∀ key tr, keys.get? key = some tr → tr.Harmless) (language : String) (maxWidth : Nat)
    (style : Style) (newline : IsNewline style.newline) (depth : Int) (id : NodeId) :
    (optionalComment style depth (commentOf ⟨t, .ofLanguage keys language maxWidth, languages⟩ id).1 = "" ∧
      ∀ r ∈ (Doc.expand t id languages).records,
        (Translator.ofLanguage keys language maxWidth).recordLines r = []) ∨
    IsBlock style depth
      (optionalComment style depth (commentOf ⟨t, .ofLanguage keys language maxWidth, languages⟩ id).1) := by
  by_cases none : ((Doc.expand t id languages).records.flatMap
      (Translator.ofLanguage keys language maxWidth).recordLines) = []
  · left
    constructor
    · simp [commentOf, none, optionalComment]
    · exact List.flatMap_eq_nil_iff.mp none
  · right
    have made : (commentOf ⟨t, .ofLanguage keys language maxWidth, languages⟩ id).1 =
        some ((Doc.expand t id languages).records.flatMap
          (Translator.ofLanguage keys language maxWidth).recordLines) := by
      simp [commentOf, none]
    rw [made, optionalComment]
    apply isBlock_comment depth newline none
    intro line member
    obtain ⟨r, present, inside⟩ := List.mem_flatMap.mp member
    obtain ⟨key, lead⟩ := Doc.contained_expand parts present
    exact Translator.enclosed_recordLines key lead (fun tr => harmless r.key tr) line inside

/-- A variable with a text, a custom tag and examples. -/
private def taggedVariable : Tree :=
  ⟨#[⟨"x", some ⟨true, ["text", "since", "example"]⟩, .var (.basic .number) true, some 1⟩, ⟨"", none, .root [0], none⟩], 1⟩

private theorem finish_taggedVariable : Tree.finish taggedVariable.nodes 1 = .ok taggedVariable := rfl

private theorem containedParts_taggedVariable : Doc.ContainedParts taggedVariable ["ts"] := by
  refine ⟨?_, ?_, by decide⟩
  · intro id
    match id with
    | 0 | 1 => decide
    | _ + 2 => exact (by decide : Contained "")
  · intro id n f found flagged
    match id with
    | 0 =>
      cases found
      cases flagged
      decide
    | 1 =>
      cases found
      cases flagged
    | _ + 2 => cases found

/-- A key map with a text and a list. -/
private def twoEntries (text : String) (since : List String) : KeyMap :=
  ⟨[("x.text0", (Translation.text text).toJson), ("x.since", (Translation.lines since).toJson)]⟩

private theorem parse_twoEntries (text : String) (since : List String) :
    KeyMap.parse (twoEntries text since).toText = .ok (twoEntries text since) := by
  have distinct : ["x.text0", "x.since"].Nodup := by decide
  apply KeyMap.parse_toText
  refine ⟨distinct, ?_⟩
  intro e member
  simp only [twoEntries, List.mem_cons, List.not_mem_nil, or_false] at member
  rcases member with rfl | rfl
  · exact ⟨.text text, rfl⟩
  · exact ⟨.lines since, rfl⟩

private theorem harmless_twoEntries {text : String} {since : List String}
    (uncut : ¬ ['*', '/'] <:+: text.toList) (enclosed : ∀ l ∈ since, Enclosed l.toList) (key : String)
    (tr : Translation) (found : (twoEntries text since).get? key = some tr) : tr.Harmless := by
  simp only [twoEntries, KeyMap.get?, Json.field?] at found
  split at found
  · rw [Option.bind_some, Translation.ofJson?_toJson, Option.some.injEq] at found
    subst found
    exact uncut
  · split at found
    · rw [Option.bind_some, Translation.ofJson?_toJson, Option.some.injEq] at found
      subst found
      exact enclosed
    · cases found

/-- Stars, slashes and breaks that do no harm. -/
private def quietKeys : KeyMap := twoEntries "* / **\nb" ["/*", "/ *"]

theorem optionalComment_isBlock_quietKeys :
    KeyMap.parse quietKeys.toText = .ok quietKeys ∧
      Tree.finish taggedVariable.nodes 1 = .ok taggedVariable ∧
      IsBlock { newline := "\r\n" } 2 (optionalComment { newline := "\r\n" } 2
        (commentOf ⟨taggedVariable, .ofLanguage quietKeys "en_us" 3, ["ts"]⟩ 0).1) := by
  have harmless : ∀ key tr, quietKeys.get? key = some tr → tr.Harmless :=
    harmless_twoEntries (by decide +kernel) (by decide +kernel)
  have outcome := optionalComment_isBlock containedParts_taggedVariable harmless "en_us" 3
    { newline := "\r\n" } (.inr rfl) 2 0
  refine ⟨parse_twoEntries _ _, finish_taggedVariable, outcome.resolve_left ?_⟩
  rintro ⟨-, none⟩
  have shown : (Translator.ofLanguage quietKeys "en_us" 3).recordLines ⟨"x.text0", ""⟩ ≠ [] := by
    decide +kernel
  exact shown (none _ (by decide +kernel))

/-- The text above the variable at the top level. -/
private def above (keys : KeyMap) (languages : List String) : String :=
  optionalComment {} 0 (commentOf ⟨taggedVariable, .ofLanguage keys "en_us" 80, languages⟩ 0).1

/-- A translation can close the comment that it stands in, an entry of a list can leave its line, and so can the
name of a language close the comment that shows it. -/
theorem not_isBlock_hostile :
    Tree.finish taggedVariable.nodes 1 = .ok taggedVariable ∧ Doc.ContainedParts taggedVariable ["ts"] ∧
      (KeyMap.parse (twoEntries "end */ here" []).toText = .ok (twoEntries "end */ here" []) ∧
        ¬ IsBlock {} 0 (above (twoEntries "end */ here" []) ["ts"])) ∧
      (KeyMap.parse (twoEntries "" ["one\ntwo"]).toText = .ok (twoEntries "" ["one\ntwo"]) ∧
        ¬ IsBlock {} 0 (above (twoEntries "" ["one\ntwo"]) ["ts"])) ∧
      ¬ IsBlock {} 0 (above {} ["*/"]) := by
  refine ⟨finish_taggedVariable, containedParts_taggedVariable, ⟨parse_twoEntries _ _, ?_⟩,
    ⟨parse_twoEntries _ _, ?_⟩, ?_⟩
  · intro block
    have behind := block.closed "/**\n * end ".toList " here\n * @since x.since\n * @example x.example.ts\n */\n".toList
      (by decide +kernel)
    exact absurd behind (by decide)
  · intro block
    obtain ⟨between, lines, starred⟩ := block.lines
    have physical : physicalLines (above (twoEntries "" ["one\ntwo"]) ["ts"]) =
        "/**".toList :: [" * x.text0".toList, " * @since".toList, " * one".toList, "two".toList,
          " * @example x.example.ts".toList] ++ [" */".toList, []] := by decide +kernel
    have inner : [" * x.text0".toList, " * @since".toList, " * one".toList, "two".toList,
        " * @example x.example.ts".toList] = between := by
      rw [physical] at lines
      exact List.append_cancel_right (List.cons.inj lines).2
    have unstarred : ¬ " * ".toList <+: "two".toList := by decide
    refine unstarred (starred _ ?_)
    rw [← inner]
    simp
  · intro block
    have behind := block.closed "/**\n * x.text0\n * @since x.since\n * @example x.example.".toList "\n */\n".toList
      (by decide +kernel)
    exact absurd behind (by decide)

end Render

end DocLocale
