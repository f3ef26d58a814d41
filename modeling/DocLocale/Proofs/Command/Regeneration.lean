import DocLocale.Command.Run
import DocLocale.Proofs.Disk.Overwriting
import DocLocale.Proofs.Key.Merging

/-!
Runs that write a key map over an earlier one. Each run generates the keys of some tree, takes over the
translations of the file and writes the file anew. Main statement: after any number of runs the keys are those
of the last tree, a translation is still there if every run generated its key, and repeating the last run
changes nothing.
-/

set_option autoImplicit false
set_option relaxedAutoImplicit false

namespace DocLocale

theorem KeyMap.load_eq_ok_iff {d : Disk} {path : String} {m : KeyMap} :
    load d path = .ok m ↔ ∃ content, d.read path = .ok content ∧ parse content = .ok m := by
  unfold load
  cases d.read path with
  | error e => simp
  | ok content =>
    cases parsed : parse content with
    | error e => simp [parsed]
    | ok m => simp [parsed]

theorem Disk.exists?_of_read {d : Disk} {path content : String} (stored : d.read path = .ok content) :
    d.exists? path = true := by
  obtain ⟨place, located, found⟩ := read_eq_ok_iff.mp stored
  simp [exists?, find?, located, found]

namespace Command

/-- What a run starts from: a tree, and the languages of its examples. -/
abbrev Origin := Tree × List String

/-- The keys that a run generates. -/
def Origin.keyMap (origin : Origin) : KeyMap := (origin.1.keyMap origin.2).keys

/-- Writes the keys of a tree over the key map of a file. Gives the file system afterwards, and how many
translations were kept. -/
def regenerate (path : String) (d : Disk) (origin : Origin) : Except KeyMap.FileFault (Disk × Nat) := do
  let (keys, kept) ← mergedKeys d path true origin.keyMap
  let d ← keys.save d path
  return (d, kept)

/-- Regenerates a key map again and again. -/
def regenerateAll (path : String) : Disk → List Origin → Except KeyMap.FileFault Disk
  | d, [] => .ok d
  | d, origin :: origins => do
    let (d, _) ← regenerate path d origin
    regenerateAll path d origins

private theorem mergedKeys_of_load {d : Disk} {path : String} {previous : KeyMap}
    (loaded : KeyMap.load d path = .ok previous) (keys : KeyMap) :
    mergedKeys d path true keys = .ok (keys.mergeFrom previous) := by
  obtain ⟨content, stored, -⟩ := KeyMap.load_eq_ok_iff.mp loaded
  simp only [mergedKeys, Disk.exists?_of_read stored, Bool.and_self, if_true, loaded]
  rfl

private theorem exists_save_keys {d : Disk} {path : String} {previous : KeyMap}
    (loaded : KeyMap.load d path = .ok previous) (keys : KeyMap) :
    ∃ after, keys.save d path = .ok after ∧ after.read path = .ok keys.toText := by
  obtain ⟨content, stored, -⟩ := KeyMap.load_eq_ok_iff.mp loaded
  obtain ⟨after, saved, reread⟩ := Disk.exists_save stored keys.toText
  exact ⟨after, by rw [KeyMap.save, saved], reread⟩

/-- A run succeeds on every key map that can be read, and writes the merged map. -/
private theorem regenerate_of_load {d : Disk} {path : String} {previous : KeyMap}
    (loaded : KeyMap.load d path = .ok previous) (origin : Origin) :
    ∃ after, regenerate path d origin = .ok (after, (origin.keyMap.mergeFrom previous).2) ∧
      after.read path = .ok (origin.keyMap.mergeFrom previous).1.toText ∧
      KeyMap.load after path = .ok (origin.keyMap.mergeFrom previous).1 := by
  obtain ⟨after, saved, reread⟩ := exists_save_keys loaded (origin.keyMap.mergeFrom previous).1
  have kept : (origin.keyMap.mergeFrom previous).1.Stored :=
    Tree.untranslated_keyMap.stored_mergeFrom Tree.nodup_keys_keyMap previous
  refine ⟨after, ?_, reread, KeyMap.load_eq_ok_iff.mpr ⟨_, reread, KeyMap.parse_toText kept⟩⟩
  rw [regenerate, mergedKeys_of_load loaded]
  simp only [bind, Except.bind, saved]
  rfl

/-- A key that every run generates keeps its translation. -/
private theorem regenerateAll_of_load {d : Disk} {path : String} {first : KeyMap}
    (loaded : KeyMap.load d path = .ok first) (origins : List Origin) :
    ∃ after last, regenerateAll path d origins = .ok after ∧ KeyMap.load after path = .ok last ∧
      ∀ key, (∀ origin ∈ origins, key ∈ origin.keyMap.keys) → last.live? key = first.live? key := by
  induction origins generalizing d first with
  | nil => exact ⟨d, first, rfl, loaded, fun _ _ => rfl⟩
  | cons origin origins ih =>
    obtain ⟨next, ran, -, reloaded⟩ := regenerate_of_load loaded origin
    obtain ⟨after, last, rest, found, kept⟩ := ih reloaded
    refine ⟨after, last, ?_, found, ?_⟩
    · rw [regenerateAll, ran]
      exact rest
    · intro key live
      rw [kept key fun other member => live other (List.mem_cons_of_mem _ member)]
      exact Tree.untranslated_keyMap.live?_mergeFrom first (live origin List.mem_cons_self)

/-- A merging run of the command regenerates the key map that it finds, and reports what was kept. -/
private theorem regenerate_of_runKeys {d : Disk} {path : String} {previous : KeyMap}
    (loaded : KeyMap.load d path = .ok previous) {c : Common} {s : Setting}
    (prepared : prepare d c = .ok s) {output : Option String}
    (target : output.getD s.config.keysFile = path) (colored : Colored) :
    ∃ done kept front, runKeys colored d c output true = .ok done ∧
      regenerate path d (s.project.assembly.tree, s.config.supportedLanguages) = .ok (done.disk, kept) ∧
      done.output = success colored (front ++ keptRemark kept) := by
  have merged := mergedKeys_of_load loaded
    (s.project.assembly.tree.keyMap s.config.supportedLanguages).keys
  obtain ⟨after, saved, -⟩ := exists_save_keys loaded
    ((s.project.assembly.tree.keyMap s.config.supportedLanguages).keys.mergeFrom previous).1
  subst target
  have ran : ∃ done, runKeys colored d c output true = .ok done ∧ done.disk = after ∧
      ∃ front, done.output = success colored (front ++ keptRemark
        ((s.project.assembly.tree.keyMap s.config.supportedLanguages).keys.mergeFrom previous).2) := by
    rw [runKeys, prepared]
    simp only [bind, Except.bind, merged, saved]
    exact ⟨_, rfl, rfl, _, rfl⟩
  obtain ⟨done, ran, disk, front, printed⟩ := ran
  refine ⟨done, _, front, ran, ?_, printed⟩
  rw [regenerate, Origin.keyMap, merged]
  simp only [bind, Except.bind, saved, disk]
  rfl

/-- Key maps that are regenerated. Let a file hold a key map, and let keys be written over it, the last time
those of the tree `t`. Then its keys are those of `t` in their order; every translation is there still whose
key was generated each time; a key that had none before the last time has the empty text; and writing the keys
of `t` once more leaves the file as it is and counts the translations in it. Each of these steps is what a
merging run of the command does. -/
theorem regenerate_keeps_live_translations {d : Disk} {path content : String} {first : KeyMap}
    (stored : d.read path = .ok content) (accepted : KeyMap.parse content = .ok first)
    (earlier : List Origin) (t : Tree) (languages : List String) :
    (∃ before previous after kept m,
      regenerateAll path d earlier = .ok before ∧ KeyMap.load before path = .ok previous ∧
      regenerate path before (t, languages) = .ok (after, kept) ∧
      after.read path = .ok m.toText ∧ KeyMap.parse m.toText = .ok m ∧
      m.keys = (t.keyMap languages).keys.keys ∧
      (∀ key tr, first.get? key = some tr → tr.isEmpty = false →
        (∀ origin ∈ earlier ++ [(t, languages)], key ∈ (origin.1.keyMap origin.2).keys.keys) →
        m.get? key = some tr) ∧
      (∀ key ∈ m.keys, (∀ tr, previous.get? key = some tr → tr.isEmpty = true) →
        m.get? key = some (.text "")) ∧
      ∃ again, regenerate path after (t, languages) = .ok (again, m.liveCount) ∧
        again.read path = after.read path) ∧
    ∀ colored c output s, prepare d c = .ok s → output.getD s.config.keysFile = path →
      ∃ done kept front, runKeys colored d c output true = .ok done ∧
        regenerate path d (s.project.assembly.tree, s.config.supportedLanguages) = .ok (done.disk, kept) ∧
        done.output = success colored (front ++ keptRemark kept) := by
  have loaded : KeyMap.load d path = .ok first := KeyMap.load_eq_ok_iff.mpr ⟨content, stored, accepted⟩
  refine ⟨?_, fun colored c output s prepared target => regenerate_of_runKeys loaded prepared target colored⟩
  have untranslated : (t.keyMap languages).keys.Untranslated := Tree.untranslated_keyMap
  obtain ⟨before, previous, ran, found, live⟩ := regenerateAll_of_load loaded earlier
  obtain ⟨after, last, written, reloaded⟩ := regenerate_of_load found (t, languages)
  obtain ⟨again, repeated, rewritten, -⟩ := regenerate_of_load reloaded (t, languages)
  -- The second run in a row merges a map into its own keys.
  have same : (Origin.keyMap (t, languages)).mergeFrom
      ((Origin.keyMap (t, languages)).mergeFrom previous).1 =
      (Origin.keyMap (t, languages)).mergeFrom previous :=
    untranslated.mergeFrom_mergeFrom previous
  refine ⟨before, previous, after, _, ((t.keyMap languages).keys.mergeFrom previous).1, ran, found, last,
    written, ?_, untranslated.keys_mergeFrom previous, ?_, ?_, again, ?_, ?_⟩
  · exact KeyMap.parse_toText (untranslated.stored_mergeFrom Tree.nodup_keys_keyMap previous)
  · intro key tr had nonempty generated
    have kept : previous.live? key = some tr := by
      rw [live key fun origin member => generated origin (List.mem_append_left _ member)]
      exact KeyMap.live?_eq_some_iff.mpr ⟨had, nonempty⟩
    have now : key ∈ (t.keyMap languages).keys.keys :=
      generated (t, languages) (List.mem_append_right _ (List.mem_singleton_self _))
    rw [untranslated.get?_mergeFrom previous now, kept]
    rfl
  · intro key member empty
    rw [untranslated.keys_mergeFrom] at member
    rw [untranslated.get?_mergeFrom previous member, KeyMap.live?_eq_none_iff.mpr empty]
    rfl
  · rw [repeated, same, untranslated.liveCount_mergeFrom]
    rfl
  · rw [rewritten, same, written]

/-- Variables below a root. -/
private def sampleTree (names : List String) : Tree :=
  let leaves : List Node := names.map fun name =>
    ⟨name, some ⟨true, ["text"]⟩, .var (.basic .any) true, some names.length⟩
  ⟨leaves.toArray.push ⟨"", none, .root (List.range names.length), none⟩, names.length⟩

/-- A file with a translation that is used and one that is not. -/
private def sampleContent : String :=
  "\x7b\"v.text0\": [\"one\", \"two\"], \"old\": \"\\u0041\"\x7d"

theorem regenerate_keeps_live_translations_sample :
    ∃ first, Disk.read ⟨[(["keys.json"], .text sampleContent)], []⟩ "keys.json" = .ok sampleContent ∧
      KeyMap.parse sampleContent = .ok first ∧
      ∃ (before after : Disk) (kept : Nat) (m : KeyMap),
        regenerateAll "keys.json" ⟨[(["keys.json"], .text sampleContent)], []⟩ [(sampleTree ["v"], [])] =
          .ok before ∧
        regenerate "keys.json" before (sampleTree ["v", "w"], ["ts"]) = .ok (after, kept) ∧
        after.read "keys.json" = .ok m.toText ∧ m.keys = ["v.text0", "w.text0"] ∧
        m.get? "v.text0" = some (.lines ["one", "two"]) := by
  have stored : Disk.read ⟨[(["keys.json"], .text sampleContent)], []⟩ "keys.json" = .ok sampleContent := rfl
  obtain ⟨first, accepted, had⟩ : ∃ first, KeyMap.parse sampleContent = .ok first ∧
      first.get? "v.text0" = some (.lines ["one", "two"]) := by
    have passed : (KeyMap.parse sampleContent).toOption.any
        (fun m => m.get? "v.text0" = some (.lines ["one", "two"])) = true := by decide +kernel
    cases parsed : KeyMap.parse sampleContent with
    | error e =>
      rw [parsed] at passed
      cases passed
    | ok first =>
      rw [parsed] at passed
      exact ⟨first, rfl, of_decide_eq_true passed⟩
  obtain ⟨⟨before, previous, after, kept, m, ran, -, last, written, -, keys, live, -⟩, -⟩ :=
    regenerate_keeps_live_translations stored accepted [(sampleTree ["v"], [])] (sampleTree ["v", "w"]) ["ts"]
  refine ⟨first, stored, accepted, before, after, kept, m, ran, last, written, ?_, ?_⟩
  · rw [keys]
    decide +kernel
  · apply live "v.text0" _ had rfl
    decide +kernel

end Command

end DocLocale
