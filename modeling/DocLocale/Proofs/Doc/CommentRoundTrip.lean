import DocLocale.Proofs.Translation.RecordLines
import DocLocale.Proofs.Tree.Reflagging
import DocLocale.Render.Declaration

/-!
Comments without translations, read again. Main statement: the tags of a rendered comment give the node
flags that expand to the records the comment was made from.
-/

set_option autoImplicit false
set_option relaxedAutoImplicit false

namespace DocLocale

namespace Doc

variable {t : Tree} {id : NodeId} {n : Node} {languages : List String}

/-- The records of flags depend on names and bodies only. -/
private theorem given_withFlags (flags : NodeId → Node → Option Flags) (other : Option Flags)
    (key : String) (before rest : List String) :
    (occurrences { n with flags := other } key before rest).flatMap
        (Occurrence.given (t.withFlags flags) languages) =
      (occurrences n key before rest).flatMap (Occurrence.given t languages) := by
  induction rest generalizing before with
  | nil => rfl
  | cons name rest ih =>
    simp only [occurrences, List.flatMap_cons, ih, Occurrence.given, Occurrence.records,
      Tree.name_withFlags, Node.kind]
    rfl

theorem expand_withFlags (found : t.node? id = some n) (flags : NodeId → Node → Option Flags)
    {f : Flags} (chosen : flags id n = some f) (languages : List String) :
    (expand (t.withFlags flags) id languages).records =
      (occurrences n (Key.ofNode t id) [] f.active).flatMap (Occurrence.given t languages) := by
  have changed : (t.withFlags flags).node? id = some { n with flags := some f } := by
    rw [Tree.node?_withFlags, found, Option.map_some, chosen]
  rw [expand_records changed rfl, Tree.ofNode_withFlags, given_withFlags]

theorem expand_setFlags (found : t.node? id = some n) (f : Flags) (languages : List String) :
    (expand (t.setFlags id f) id languages).records =
      (occurrences n (Key.ofNode t id) [] f.active).flatMap (Occurrence.given t languages) :=
  expand_withFlags found _ (if_pos rfl) languages

/-- A node whose flags are enabled has a record for its text. -/
private theorem records_ne_nil (kind : Kind) (key : String) (extras : List String) :
    (occurrences n key [] (defaultFlags kind ++ extras)).flatMap (Occurrence.given t languages) ≠ [] := by
  obtain ⟨rest, texts⟩ : ∃ rest, defaultFlags kind = "text" :: rest := by
    cases kind <;> exact ⟨_, rfl⟩
  rw [texts, List.cons_append, occurrences, List.flatMap_cons]
  exact List.append_ne_nil_of_left_ne_nil (List.cons_ne_nil _ _) _

private theorem flatMap_shows {m : KeyMap} {format : LineFormat} (untranslated : m.Untranslated)
    {records : List Record} (nonempty : records ≠ []) (legible : ∀ r ∈ records, r.Legible)
    (holds : ∀ r ∈ records, format.Holds r.tagWord) :
    records.flatMap (Translator.mk m format).recordLines ≠ [] ∧
      (∀ line ∈ records.flatMap (Translator.mk m format).recordLines, Source.Clean line.toList) ∧
      (records.flatMap (Translator.mk m format).recordLines).filterMap
          (fun line => Source.headTag? line.toList) = records.filterMap Record.tag? := by
  have shows : ∀ r ∈ records, Shows (((Translator.mk m format).recordLines r).map String.toList)
      r.tag? := fun r member => recordLines_shows untranslated (legible r member) (holds r member)
  refine ⟨?_, ?_, ?_⟩
  · obtain ⟨r, rest, rfl⟩ := List.exists_cons_of_ne_nil nonempty
    have first := (shows r List.mem_cons_self).nonempty
    rw [List.flatMap_cons]
    exact List.append_ne_nil_of_left_ne_nil (by simpa using first) _
  · intro line member
    obtain ⟨r, present, here⟩ := List.mem_flatMap.mp member
    exact (shows r present).clean _ (List.mem_map_of_mem here)
  · rw [List.filterMap_flatMap, List.filterMap_eq_flatMap_toList]
    apply List.flatMap_congr
    intro r member
    rw [← (shows r member).tags, List.filterMap_map]
    rfl

private theorem isTagName_of_unknown {kind : Kind} {tags extras : List String}
    (named : ∀ tag ∈ tags, Source.IsTagName tag)
    (origin : ∀ name ∈ extras, ∃ tag ∈ tags, name = canonicalName tag) {name : String}
    (member : name ∈ defaultFlags kind ++ extras) (unknown : Tag.ofName? name = none) :
    Source.IsTagName name := by
  rcases List.mem_append.mp member with default | extra
  · have known : ∀ flag ∈ defaultFlags kind, (Tag.ofName? flag).isSome = true := by
      cases kind <;> decide
    have isKnown := known name default
    rw [unknown] at isKnown
    cases isKnown
  · obtain ⟨tag, present, rfl⟩ := origin name extra
    rw [canonicalName_eq] at unknown ⊢
    by_cases param : tag = "param"
    · rw [if_pos param] at unknown
      cases unknown
    · rw [if_neg param]
      exact named tag present

section Scanning

variable {tags : List String} {style : Render.Style} {maxWidth : Nat}

/-- The lines of a printed comment are clean, and the tags that they start with give the flags back that it was made
from, less those that give no records. -/
theorem printed_comment (found : t.node? id = some n)
    (flagged : n.flags = some (buildFlags n.kind tags).flags)
    (enabled : (buildFlags n.kind tags).flags.enabled = true)
    (named : ∀ tag ∈ tags, Source.IsTagName tag) (spoken : languages ≠ [])
    (parts : PlainParts t languages n (Key.ofNode t id)) (language : String)
    (fits : ∀ r ∈ (expand t id languages).records, Translation.summedWidth r.tagWord ≤ maxWidth) :
    ∃ lines, (Render.commentOf ⟨t, .ofLanguage {} language maxWidth, languages⟩ id).1 = some lines ∧
      lines ≠ [] ∧ (∀ line ∈ lines, Source.Clean line.toList) ∧
      (buildFlags n.kind (lines.filterMap fun line => Source.headTag? line.toList)).flags =
        ⟨true, (buildFlags n.kind tags).flags.active.filter (takes n.kind)⟩ := by
  obtain ⟨extras, names, regular, origin⟩ := enabled_flags enabled
  have active : (buildFlags n.kind tags).flags.active = defaultFlags n.kind ++ extras := by
    rw [Flags.active, if_pos enabled, names]
  have untranslated : KeyMap.Untranslated {} := by simp [KeyMap.Untranslated]
  obtain ⟨legible, shown⟩ := readable_expand found flagged parts <| by
    rw [active]
    exact fun name => isTagName_of_unknown named origin
  have nonempty : (expand t id languages).records ≠ [] := by
    rw [expand_records found flagged, active]
    exact records_ne_nil n.kind _ extras
  obtain ⟨printed, clean, heads⟩ := flatMap_shows untranslated nonempty legible
    fun r member => LineFormat.holds_ofLanguage (fits r member) language
  refine ⟨_, ?_, printed, clean, ?_⟩
  · rw [Render.commentOf]
    exact if_neg (mt List.isEmpty_iff.mp printed)
  · rw [heads, shown, active, buildFlags_shownTags n languages spoken regular]

/-- The tags of a rendered comment give the flags back that it was made from, less those that give no
records. -/
private theorem scanned_comment (found : t.node? id = some n)
    (flagged : n.flags = some (buildFlags n.kind tags).flags)
    (enabled : (buildFlags n.kind tags).flags.enabled = true)
    (named : ∀ tag ∈ tags, Source.IsTagName tag) (spoken : languages ≠ [])
    (parts : PlainParts t languages n (Key.ofNode t id))
    (newline : Source.IsNewline style.newline) (depth : Int) (language : String)
    (fits : ∀ r ∈ (expand t id languages).records, Translation.summedWidth r.tagWord ≤ maxWidth)
    (position : Nat) (lineBreak : Bool) (comments : List Source.Comment) (rest : List Char) :
    ∃ lines c d,
      (Render.commentOf ⟨t, .ofLanguage {} language maxWidth, languages⟩ id).1 = some lines ∧
      Source.skip position lineBreak comments .blanks
          ((Render.comment style depth lines).toList ++ rest) =
        Source.skip (position + Text.byteLength (Render.comment style depth lines).toList) true
          (c :: comments) .blanks rest ∧
      Source.DocComment.ofComment? c = some d ∧
      (buildFlags n.kind (d.tags.map (·.name))).flags =
        ⟨true, (buildFlags n.kind tags).flags.active.filter (takes n.kind)⟩ := by
  obtain ⟨lines, made, printed, clean, given⟩ := printed_comment found flagged enabled named spoken parts language fits
  obtain ⟨c, d, read, doc, scanned⟩ :=
    Source.skip_comment newline depth printed clean position lineBreak comments rest
  exact ⟨lines, c, d, made, read, doc, by rw [scanned, given]⟩

/-- The comment of a node, made without translations, is a doc comment again wherever it stands, and the
flags that its tags give expand to the records it was made from. -/
theorem expand_scanned_comment (found : t.node? id = some n)
    (flagged : n.flags = some (buildFlags n.kind tags).flags)
    (enabled : (buildFlags n.kind tags).flags.enabled = true)
    (named : ∀ tag ∈ tags, Source.IsTagName tag) (spoken : languages ≠ [])
    (parts : PlainParts t languages n (Key.ofNode t id))
    (newline : Source.IsNewline style.newline) (depth : Int) (language : String)
    (fits : ∀ r ∈ (expand t id languages).records, Translation.summedWidth r.tagWord ≤ maxWidth)
    (position : Nat) (lineBreak : Bool) (comments : List Source.Comment) (rest : List Char) :
    ∃ lines c d,
      (Render.commentOf ⟨t, .ofLanguage {} language maxWidth, languages⟩ id).1 = some lines ∧
      Source.skip position lineBreak comments .blanks
          ((Render.comment style depth lines).toList ++ rest) =
        Source.skip (position + Text.byteLength (Render.comment style depth lines).toList) true
          (c :: comments) .blanks rest ∧
      Source.DocComment.ofComment? c = some d ∧
      (expand (t.setFlags id (buildFlags n.kind (d.tags.map (·.name))).flags) id languages).records =
        (expand t id languages).records := by
  obtain ⟨lines, c, d, made, read, doc, flags⟩ := scanned_comment found flagged enabled named spoken
    parts newline depth language fits position lineBreak comments rest
  refine ⟨lines, c, d, made, read, doc, ?_⟩
  rw [flags, expand_setFlags found, expand_records found flagged,
    records_filter_takes [] (buildFlags n.kind tags).flags.active]
  rfl

/-- A function with a parameter, a custom tag and two texts. -/
theorem expand_scanned_comment_function :
    ∃ t n, Tree.finish #[⟨"x", some ⟨true, ["text"]⟩, .param (.basic .number) false false, none⟩,
        ⟨"f", some (buildFlags .function ["since", "text", "param", "text"]).flags,
          .function { parameters := [0] }, none⟩,
        ⟨"", none, .root [1], none⟩] 2 = .ok t ∧ t.node? 1 = some n ∧
      ∃ lines c d,
        (Render.commentOf ⟨t, .ofLanguage {} "en_us" 8, ["ts", "js"]⟩ 1).1 = some lines ∧
        Source.skip 0 false [] .blanks
            ((Render.comment { newline := "\r\n" } 1 lines).toList ++ "f".toList) =
          Source.skip (0 + Text.byteLength (Render.comment { newline := "\r\n" } 1 lines).toList) true
            [c] .blanks "f".toList ∧
        Source.DocComment.ofComment? c = some d ∧
        (expand (t.setFlags 1 (buildFlags n.kind (d.tags.map (·.name))).flags) 1 ["ts", "js"]).records =
          (expand t 1 ["ts", "js"]).records := by
  have finished : Tree.finish #[⟨"x", some ⟨true, ["text"]⟩, .param (.basic .number) false false, none⟩,
        ⟨"f", some (buildFlags .function ["since", "text", "param", "text"]).flags,
          .function { parameters := [0] }, none⟩,
        ⟨"", none, .root [1], none⟩] 2 = .ok _ := rfl
  refine ⟨_, _, finished, rfl, ?_⟩
  refine expand_scanned_comment rfl rfl rfl (by decide) (by decide) ⟨?_, ?_, ?_⟩ (.inr rfl) 1 "en_us" ?_
    0 false [] "f".toList
  · decide +kernel
  · decide
  · rintro s signature p member
    cases signature
    cases List.mem_singleton.mp member
    decide
  · decide +kernel

end Scanning

end Doc

end DocLocale
