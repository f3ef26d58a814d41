import DocLocale.Command.Run
import DocLocale.Proofs.Disk.Overwriting

/-!
Runs that fail. Whatever a command does before its only write is reading and making directories, and a write
that fails leaves no text behind. So a run that ends with an error leaves all files as they were, and any other
run keeps the file system or is one save of a text.
-/

set_option autoImplicit false
set_option relaxedAutoImplicit false

namespace DocLocale

namespace Disk

/-- A file system in which `after` has touched no file: every place holds what it held before, or a directory where
nothing was. -/
def Spares (before after : Disk) : Prop :=
  ∀ place, after.entry? place = before.entry? place ∨
    before.entry? place = none ∧ after.entry? place = some .directory

theorem Spares.refl (d : Disk) : d.Spares d := fun _ => .inl rfl

theorem Spares.trans {before between after : Disk} (first : before.Spares between) (second : between.Spares after) :
    before.Spares after := by
  intro place
  rcases second place with kept | ⟨absent, made⟩
  · rw [kept]
    exact first place
  · right
    rcases first place with kept | ⟨-, made'⟩
    · exact ⟨kept ▸ absent, made⟩
    · cases absent.symm.trans made'

theorem spares_put_directory {d : Disk} {place : List String} (absent : d.entry? place = none) :
    d.Spares (d.put place .directory) := by
  have proper : place ≠ [] := by
    rintro rfl
    cases absent
  intro other
  rw [entry?_put proper]
  by_cases here : other = place
  · subst here
    exact .inr ⟨absent, if_pos rfl⟩
  · exact .inl (if_neg here)

theorem spares_of_makeDirectory {d after : Disk} {path : String} (made : d.makeDirectory path = .ok after) :
    d.Spares after := by
  rw [makeDirectory] at made
  split at made
  · cases made
  · split at made
    · cases made
    · rename_i absent
      split at made
      · cases made
        exact spares_put_directory absent
      · cases made
      · cases made

/-- The file system after an attempt, successful or not. -/
def reached : Except (FileError × Disk) Disk → Disk
  | .ok d => d
  | .error (_, left) => left

/-- Making directories spares all files, also when it stops half-way. -/
theorem spares_makeDirectories (d : Disk) (depth : Nat) (path : String) :
    d.Spares (reached (d.makeDirectories depth path)) := by
  induction depth generalizing path with
  | zero => exact .refl d
  | succ depth ih =>
    have again : ∀ (after : Disk) (e : FileError), d.Spares after →
        d.Spares (reached (if after.isDirectory path then .ok after else .error (e, after))) := by
      intro after e spared
      split <;> exact spared
    rw [makeDirectories]
    split
    · exact .refl d
    · simp only
      split
      · rename_i after made
        exact spares_of_makeDirectory made
      · split
        · exact .refl d
        · rename_i parent _
          have above := ih parent
          split
          · rename_i e stopped
            rw [stopped] at above
            exact above
          · rename_i between prepared
            rw [prepared] at above
            split
            · rename_i after made
              exact above.trans (spares_of_makeDirectory made)
            · exact again between _ above
      · exact again d _ (.refl d)

/-- A text that cannot be kept leaves all files as they were. -/
theorem SaveError.spares_left {d : Disk} {path content : String} {e : SaveError}
    (failed : d.save path content = .error e) : d.Spares e.left := by
  rw [save] at failed
  -- Only when the directories above the file are there is the text written.
  cases above : Path.parent? path with
  | none =>
    cases written : d.write path content with
    | ok after => simp only [above, written, reduceCtorEq] at failed
    | error fault =>
      simp only [above, written, Except.error.injEq] at failed
      subst failed
      exact .refl d
  | some parent =>
    have spared := spares_makeDirectories d (parent.length + 1) parent
    cases attempt : d.makeDirectories (parent.length + 1) parent with
    | error stopped =>
      rw [attempt] at spared
      simp only [above, attempt, Except.error.injEq] at failed
      subst failed
      exact spared
    | ok between =>
      rw [attempt] at spared
      cases written : between.write path content with
      | ok after => simp only [above, attempt, written, reduceCtorEq] at failed
      | error fault =>
        simp only [above, attempt, written, Except.error.injEq] at failed
        subst failed
        exact spared

end Disk

namespace Command

/-- What a command may do to a file system: if it fails it spares all files; otherwise it changes nothing or saves one
text. -/
inductive Careful (d : Disk) : Except Failure Done → Prop
  | failed {f : Failure} : d.Spares f.disk → Careful d (.error f)
  | printed {x : Done} : x.disk = d → Careful d (.ok x)
  | saved {x : Done} {path text : String} : d.save path text = .ok x.disk → Careful d (.ok x)

variable (colored : Colored) (d : Disk) (c : Common)

private theorem disk_of_prepare {f : Failure} (failed : prepare d c = .error f) : f.disk = d := by
  unfold prepare at failed
  split at failed
  · cases failed
    rfl
  · simp only at failed
    split at failed
    · cases failed
      rfl
    · cases failed

/-- A command that reads its settings and project first is careful if what follows is. -/
private theorem careful_prepare {rest : Setting → Except Failure Done} (careful : ∀ s, Careful d (rest s)) :
    Careful d (prepare d c >>= rest) := by
  cases prepared : prepare d c with
  | error f => exact .failed (disk_of_prepare d c prepared ▸ .refl d)
  | ok s => exact careful s

/-- Printing or saving a text is careful. -/
private theorem careful_deliver {output : Option String} {text message notes : String} {issues : List Issue} :
    Careful d (match deliver colored d output text message with
      | .error e => .error ⟨notes, e.causes, e.left⟩
      | .ok (printed, after) => .ok ⟨printed, after, notes, issues⟩) := by
  cases output with
  | none => exact .printed rfl
  | some path =>
    rw [deliver]
    cases saved : d.save path text with
    | error e => exact .failed (Disk.SaveError.spares_left saved)
    | ok after => exact .saved saved

theorem careful_runKeys (output : Option String) (merge : Bool) :
    Careful d (runKeys colored d c output merge) := by
  rw [runKeys]
  refine careful_prepare d c fun s => ?_
  simp only
  split
  · exact .failed (.refl d)
  · rename_i keys kept _
    rw [KeyMap.save]
    cases saved : d.save (output.getD s.config.keysFile) keys.toText with
    | error e => exact .failed (Disk.SaveError.spares_left saved)
    | ok after => exact .saved saved

theorem careful_runRender (keys language output : Option String) :
    Careful d (runRender colored d c keys language output) := by
  rw [runRender]
  refine careful_prepare d c fun s => ?_
  split
  · exact .failed (.refl d)
  · simp only
    split
    · exact .failed (.refl d)
    · exact careful_deliver colored d

theorem careful_runAst (output : Option String) : Careful d (runAst colored d c output) := by
  rw [runAst]
  exact careful_prepare d c fun s => careful_deliver colored d

/-- A run that ends with an error touches no file: every place holds what it held before, or a directory where
nothing was. A run that does not keeps the file system as it is, or saves one text. -/
theorem run_fatal_spares_files (r : Request) :
    (∀ causes, (run colored d r).ending = .fatal causes → d.Spares (run colored d r).disk) ∧
    ∀ code, (run colored d r).ending = .exit code →
      (run colored d r).disk = d ∨ ∃ path text, d.save path text = .ok (run colored d r).disk := by
  have concluded : ∀ {c : Common} {result : Except Failure Done}, Careful d result →
      (∀ causes, (conclude colored c result).ending = .fatal causes →
        d.Spares (conclude colored c result).disk) ∧
      ∀ code, (conclude colored c result).ending = .exit code →
        (conclude colored c result).disk = d ∨
          ∃ path text, d.save path text = .ok (conclude colored c result).disk := by
    intro c result careful
    cases careful with
    | failed spared => exact ⟨fun _ _ => spared, fun _ ended => by cases ended⟩
    | printed same => exact ⟨fun _ ended => (by cases ended), fun _ _ => .inl same⟩
    | saved saved => exact ⟨fun _ ended => (by cases ended), fun _ _ => .inr ⟨_, _, saved⟩⟩
  cases r with
  | keys c output merge => exact concluded (careful_runKeys colored d c output merge)
  | render c keys language output => exact concluded (careful_runRender colored d c keys language output)
  | ast c output => exact concluded (careful_runAst colored d c output)
  | init =>
    simp only [run, runInit]
    split
    · exact ⟨fun _ ended => (by cases ended), fun _ _ => .inl rfl⟩
    · split
      · rename_i e failed
        exact ⟨fun _ _ => Disk.SaveError.spares_left failed, fun _ ended => (by cases ended)⟩
      · rename_i after saved
        exact ⟨fun _ ended => (by cases ended), fun _ _ => .inr ⟨_, _, saved⟩⟩

/-- A declaration file and an earlier key map. -/
private def storedProject : Disk :=
  ⟨[(["i.d.ts"], .text "declare const u: A;"), (["keys.json"], .text "\x7b\x7d")], []⟩

/-- The directory `out` is made before the write to `out/keys/` fails, and the key map stays. -/
theorem run_fatal_spares_files_halfway :
    ∃ causes, (run false storedProject (.keys ⟨"i.d.ts", false, false⟩ (some "out/keys/") true)).ending =
        .fatal causes ∧
      (run false storedProject (.keys ⟨"i.d.ts", false, false⟩ (some "out/keys/") true)).disk.entry? ["out"] =
        some .directory ∧
      storedProject.Spares
        (run false storedProject (.keys ⟨"i.d.ts", false, false⟩ (some "out/keys/") true)).disk := by
  have ended : (run false storedProject (.keys ⟨"i.d.ts", false, false⟩ (some "out/keys/") true)).ending =
      .fatal ["Failed to save key map: \"out/keys/\"", "Failed to write file: \"out/keys/\"", "io:IsADirectory"] := by
    decide +kernel
  exact ⟨_, ended, by decide +kernel, (run_fatal_spares_files false storedProject _).1 _ ended⟩

end Command

end DocLocale
