import DocLocale.Proofs.Key.Generated
import DocLocale.Render.Declaration

/-!
Rendering reads translations of generated keys only. Main statement: two key maps that translate the
generated keys alike give the same declaration text.
-/

set_option autoImplicit false
set_option relaxedAutoImplicit false

namespace DocLocale

/-- The entries of a key map under some keys. -/
def KeyMap.restrict (m : KeyMap) (keys : List String) : KeyMap :=
  ⟨m.entries.filter fun e => keys.contains e.1⟩

theorem KeyMap.get?_restrict (m : KeyMap) {keys : List String} {key : String} (member : key ∈ keys) :
    (m.restrict keys).get? key = m.get? key := by
  have field : Json.field? key (m.entries.filter fun e => keys.contains e.1) =
      Json.field? key m.entries := by
    induction m.entries with
    | nil => rfl
    | cons e entries ih =>
      obtain ⟨k, v⟩ := e
      by_cases same : k = key
      · simp [Json.field?, same, member]
      · by_cases kept : k ∈ keys
        · simp only [List.filter_cons, List.contains_eq_mem, kept, decide_true, if_true, Json.field?,
            same, if_false]
          simpa using ih
        · simp only [List.filter_cons, List.contains_eq_mem, kept, decide_false, Bool.false_eq_true,
            if_false, Json.field?, same]
          simpa using ih
  simp only [get?, restrict, field]

theorem Translator.translate_congr {f g : Translator} {key : String}
    (same : f.keys.get? key = g.keys.get? key) : f.translate key = g.translate key := by
  simp only [translate, same]

namespace Render

/-- Two sources that differ in their key maps at most, and translate the generated keys alike. -/
structure Source.Agree (a b : Source) : Prop where
  tree : a.tree = b.tree
  languages : a.languages = b.languages
  format : a.translator.format = b.translator.format
  translate : ∀ key ∈ (a.tree.keyMap a.languages).keys.keys,
    a.translator.translate key = b.translator.translate key

namespace Source.Agree

variable {a b : Source}

theorem commentOf_eq (agree : a.Agree b) (spanning : a.tree.Spanning) (id : NodeId) :
    commentOf a id = commentOf b id := by
  have lines : ∀ r ∈ (Doc.expand a.tree id a.languages).records,
      a.translator.recordLines r = b.translator.recordLines r := by
    intro r member
    have same := agree.translate r.key (Tree.key_mem_keyMap spanning member)
    simp only [Translator.recordLines, Translator.rawLines, agree.format, same]
  have all : (Doc.expand a.tree id a.languages).records.flatMap a.translator.recordLines =
      (Doc.expand a.tree id a.languages).records.flatMap b.translator.recordLines :=
    List.flatMap_congr lines
  simp only [commentOf]
  rw [all, agree.tree, agree.languages]

theorem generateFrom_eq (agree : a.Agree b) (spanning : a.tree.Spanning) (fuel : Nat) :
    generateFrom a fuel = generateFrom b fuel := by
  induction fuel with
  | zero =>
    funext id
    simp only [generateFrom, agree.tree]
  | succ fuel ih =>
    funext id
    simp only [generateFrom, ih, agree.commentOf_eq spanning, agree.tree]

theorem renderText_eq (agree : a.Agree b) (spanning : a.tree.Spanning) (style : Style) :
    renderText a style = renderText b style := by
  simp only [renderText, generate, agree.generateFrom_eq spanning, agree.tree]

end Source.Agree

/-- What a tree is rendered to under a key map. -/
def renderWith (t : Tree) (languages : List String) (language : String) (maxWidth : Nat)
    (style : Style) (keys : KeyMap) : Generated String :=
  renderText ⟨t, .ofLanguage keys language maxWidth, languages⟩ style

/-- The generated keys are all that rendering looks up. The generated map itself, in which every key waits
for its translation, renders as the empty map does, and entries under other keys count for nothing. -/
theorem renderWith_determined_by_generated_keys {nodes : Array Node} {root : NodeId} {t : Tree}
    (finished : Tree.finish nodes root = .ok t) (languages : List String) (language : String)
    (maxWidth : Nat) (style : Style) :
    (∀ K L : KeyMap,
      (∀ key ∈ (t.keyMap languages).keys.keys,
        (Translator.ofLanguage K language maxWidth).translate key =
          (Translator.ofLanguage L language maxWidth).translate key) →
      renderWith t languages language maxWidth style K =
        renderWith t languages language maxWidth style L) ∧
    renderWith t languages language maxWidth style (t.keyMap languages).keys =
      renderWith t languages language maxWidth style {} ∧
    ∀ K : KeyMap,
      renderWith t languages language maxWidth style (K.restrict (t.keyMap languages).keys.keys) =
        renderWith t languages language maxWidth style K := by
  have spanning := (Tree.wired_of_finish finished).spanning
  have determined : ∀ K L : KeyMap,
      (∀ key ∈ (t.keyMap languages).keys.keys,
        (Translator.ofLanguage K language maxWidth).translate key =
          (Translator.ofLanguage L language maxWidth).translate key) →
      renderWith t languages language maxWidth style K =
        renderWith t languages language maxWidth style L := by
    intro K L same
    have agree : Source.Agree ⟨t, .ofLanguage K language maxWidth, languages⟩
        ⟨t, .ofLanguage L language maxWidth, languages⟩ := ⟨rfl, rfl, rfl, same⟩
    exact agree.renderText_eq spanning style
  refine ⟨determined, ?_, ?_⟩
  · apply determined
    intro key _
    have empty : KeyMap.Untranslated {} := by simp [KeyMap.Untranslated]
    exact (Tree.untranslated_keyMap.translate _ key).trans (empty.translate _ key).symm
  · intro K
    apply determined
    intro key member
    exact Translator.translate_congr (K.get?_restrict member)

/-- A variable with one generated key: a map with a stray entry renders as the empty one. -/
theorem renderWith_determined_by_generated_keys_stray :
    ∃ t, Tree.finish #[⟨"v", some ⟨true, ["text"]⟩, .var (.basic .any) true, none⟩,
        ⟨"", none, .root [0], none⟩] 1 = .ok t ∧
      renderWith t ["ts"] "en_us" 80 {} ⟨[("w.text0", .string "stray")]⟩ =
        renderWith t ["ts"] "en_us" 80 {} {} := by
  have finished : Tree.finish #[⟨"v", some ⟨true, ["text"]⟩, .var (.basic .any) true, none⟩,
      ⟨"", none, .root [0], none⟩] 1 = .ok _ := rfl
  refine ⟨_, finished, ?_⟩
  apply (renderWith_determined_by_generated_keys finished ["ts"] "en_us" 80 {}).1
  intro key member
  have only : key ∈ ["v.text0"] := member
  rw [List.mem_singleton.mp only]
  rfl

end Render

end DocLocale
