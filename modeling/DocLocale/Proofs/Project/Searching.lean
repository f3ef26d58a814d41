import DocLocale.Project.Discovery
import DocLocale.Proofs.Disk.Overwriting
import DocLocale.Proofs.Path.Resolved
import Mathlib.Data.List.Nodup

/-!
The search for the files of a project. Main statements: the search ends, and what it has entered at its end are the
files that references lead to from the entry without passing one that is left out.

A file that is read has a resolved path, and at most two resolved paths lead to an entry of the file system, which
bounds the length of a search. What a search has found is described by one invariant, which entering a target and
reading a file keep.
-/

set_option autoImplicit false
set_option relaxedAutoImplicit false

namespace DocLocale.Project

open DocLocale.Path (Component Kept Resolved ofComponents)

section Reading

variable {d : Disk} {kept : List Component} {place : List String} {path text : String}

private theorem follow_name {name : String} {front : List String} (named : Path.IsName name)
    (followed : d.follow front [name.toList] = .ok place) : place = front ++ [name] := by
  have directory := Disk.directory_of_follow_cons followed
  obtain ⟨empty, dot, dots⟩ := named.toList_ne
  rw [Disk.follow, directory] at followed
  simp only [empty, dot, dots, decide_false, Bool.or_self, Bool.false_eq_true, if_false, Disk.follow,
    String.ofList_toList, Except.ok.injEq] at followed
  exact followed.symm

/-- Parts of a resolved path lead to the place with their names, if they lead anywhere. -/
private theorem place_of_follow (whole : Kept kept)
    (followed : d.follow [] ([] :: kept.reverse.tail.map (·.text.toList)) = .ok place) :
    kept.reverse = .root :: place.map .normal ∨ kept.reverse = .root :: .parent :: place.map .normal := by
  induction whole generalizing place with
  | root =>
    cases followed
    exact .inl rfl
  | above =>
    cases followed
    exact .inr rfl
  | @down kept name whole named ih =>
    obtain ⟨cs, under, -⟩ := whole.exists_under
    have parts : (.normal name :: kept).reverse.tail.map (·.text.toList) =
        kept.reverse.tail.map (·.text.toList) ++ [name.toList] := by
      rw [List.reverse_cons, under]
      simp [Component.text]
    rw [parts, ← List.cons_append, Disk.follow_append] at followed
    split at followed
    · rename_i front reached
      obtain rfl := follow_name named followed
      rw [List.reverse_cons, List.map_append]
      rcases ih reached with plain | above
      · left
        rw [plain]
        rfl
      · right
        rw [above]
        rfl
    · cases followed

/-- The two resolved paths that lead to a place. -/
private def pathsTo (place : List String) : List String :=
  [ofComponents (.root :: place.map .normal), ofComponents (.root :: .parent :: place.map .normal)]

private theorem exists_place_of_read (whole : Kept kept) (stored : d.read (ofComponents kept.reverse) = .ok text) :
    ∃ place, d.entry? place = some (.text text) ∧ ofComponents kept.reverse ∈ pathsTo place := by
  obtain ⟨place, located, found⟩ := Disk.read_eq_ok_iff.mp stored
  obtain ⟨-, -, followed⟩ := Disk.locate_eq_ok_iff.mp located
  refine ⟨place, found, ?_⟩
  obtain ⟨cs, under, written⟩ := whole.exists_under
  have parts := Path.splitAt_ofComponents fun c member => (written c member).1
  rw [under, Path.isAbsolute_ofComponents, if_pos rfl, parts] at followed
  by_cases root : cs = []
  · subst root
    cases followed
    cases found
  · rw [if_neg root] at followed
    have leads := place_of_follow whole (by rw [under]; exact followed)
    rcases leads with plain | above
    · rw [plain]
      exact List.mem_cons_self
    · rw [above]
      exact List.mem_cons_of_mem _ List.mem_cons_self

private theorem mem_pathsTo_of_read (resolved : Resolved path) (stored : d.read path = .ok text) :
    path ∈ d.entries.flatMap fun e => pathsTo e.1 := by
  obtain ⟨kept, whole, rfl⟩ := resolved
  obtain ⟨place, found, leads⟩ := exists_place_of_read whole stored
  rw [ Disk.entry?] at found
  split at found
  · cases found
  · obtain ⟨e, present, -⟩ := Option.map_eq_some_iff.mp found
    have same : e.1 = place := by simpa using List.find?_some present
    exact List.mem_flatMap.mpr ⟨e, List.mem_of_find?_eq_some present, same ▸ leads⟩

/-- The directory of a file that can be read is resolved as well: the root is no file. -/
private theorem resolved_directoryOf (resolved : Resolved path) (stored : d.read path = .ok text) :
    Resolved (directoryOf path) := by
  obtain ⟨kept, whole, rfl⟩ := resolved
  cases whole with
  | root =>
    have directory : d.read "/" = .error .isADirectory := rfl
    cases directory.symm.trans stored
  | above =>
    have directory : d.read "/.." = .error .isADirectory := rfl
    cases directory.symm.trans stored
  | @down kept name whole named =>
    refine ⟨kept, whole, ?_⟩
    rw [directoryOf, Path.parent?_ofComponents whole named]
    rfl

end Reading

/-- One file refers to another: its text names a path that leads there from its directory. -/
def Refers (d : Disk) (file target : String) : Prop :=
  ∃ text, d.read file = .ok text ∧
    ∃ path ∈ Source.referencePaths text, Path.normalize (Path.join (directoryOf file) path) = target

/-- The files that references lead to from `start`, all of them but the first not left out. -/
inductive Reached (d : Disk) (scope : Scope) (start : String) : String → Prop
  | start : Reached d scope start start
  | next {file target : String} : Reached d scope start file → Refers d file target →
      scope.ignores target = false → Reached d scope start target

/-- A file that is left out although a file that was reached refers to it. -/
structure LeftOut (d : Disk) (scope : Scope) (start target : String) : Prop where
  other : target ≠ start
  ignored : scope.ignores target = true
  referred : ∃ file, Reached d scope start file ∧ Refers d file target

section Searching

variable {d : Disk} {scope : Scope} {start file target text : String}

theorem refers_iff (stored : d.read file = .ok text) :
    Refers d file target ↔ target ∈ Search.targets file text := by
  rw [Search.targets, List.mem_map]
  constructor
  · rintro ⟨other, read, named⟩
    cases stored.symm.trans read
    exact named
  · exact fun named => ⟨text, stored, named⟩

theorem Refers.resolved (refers : Refers d file target) (begins : Resolved file) : Resolved target := by
  obtain ⟨text, stored, path, -, rfl⟩ := refers
  have directory := resolved_directoryOf begins stored
  exact Path.resolved_normalize (Path.isAbsolute_join directory.isAbsolute path)

theorem Reached.resolved (found : Reached d scope start file) (begins : Resolved start) : Resolved file := by
  induction found with
  | start => exact begins
  | next _ refers _ ih => exact refers.resolved ih

theorem Reached.eq_or_kept (found : Reached d scope start file) : file = start ∨ scope.ignores file = false := by
  cases found with
  | start => exact .inl rfl
  | next _ _ kept => exact .inr kept

namespace Search

/-- The search without a bound on the files that it reads: it ends when none is pending, or at one that cannot be
read. -/
inductive Ends (read : String → Except FileError String) (scope : Scope) :
    Search → Search × Option (String × FileError) → Prop
  | done {s : Search} : s.pending = [] → Ends read scope s (s, none)
  | failed {s : Search} {file : String} {pending : List String} {e : FileError} :
      s.pending = file :: pending → read file = .error e → Ends read scope s (s, some (file, e))
  | next {s : Search} {file : String} {pending : List String} {text : String}
      {result : Search × Option (String × FileError)} : s.pending = file :: pending → read file = .ok text →
      Ends read scope (visit scope { s with pending := pending } file text) result → Ends read scope s result

/-- A file that was entered, whether it belongs to the project or not. -/
def Met (s : Search) (target : String) : Prop := target ∈ s.seen ∨ target ∈ s.ignored

/-- What a search has found when the files of `done` were read. -/
structure Sound (d : Disk) (scope : Scope) (start : String) (done : List String) (s : Search) : Prop where
  known : s.seen.Perm (s.pending ++ done)
  distinct : s.seen.Nodup
  entered : start ∈ s.seen
  reached : ∀ file ∈ s.seen, Reached d scope start file
  distinctIgnored : s.ignored.Nodup
  leftOut : ∀ target ∈ s.ignored, LeftOut d scope start target

/-- The files of `done` were read, and all that they refer to was entered. -/
structure Explored (d : Disk) (scope : Scope) (start : String) (done : List String) (s : Search) : Prop
    extends Sound d scope start done s where
  followed : ∀ file ∈ done, ∃ text, d.read file = .ok text ∧ ∀ target ∈ targets file text, s.Met target

variable {s : Search} {done : List String}

theorem Sound.enter (sound : Sound d scope start done s) (found : Reached d scope start file)
    (refers : Refers d file target) : Sound d scope start done (enter scope s target) := by
  rw [Search.enter]
  split
  · exact sound
  · rename_i new
    simp only [List.contains_eq_mem, Bool.or_eq_true, decide_eq_true_eq, not_or] at new
    split
    · rename_i ignored
      refine { sound with distinctIgnored := List.nodup_cons.mpr ⟨new.2, sound.distinctIgnored⟩, leftOut := ?_ }
      intro other member
      rcases List.mem_cons.mp member with rfl | earlier
      · -- The entry was seen from the start, so a file that is new here is another one.
        exact ⟨fun same => new.1 (same ▸ sound.entered), ignored, file, found, refers⟩
      · exact sound.leftOut other earlier
    · rename_i kept
      refine ⟨sound.known.cons target, List.nodup_cons.mpr ⟨new.1, sound.distinct⟩,
        List.mem_cons_of_mem _ sound.entered, ?_, sound.distinctIgnored, sound.leftOut⟩
      intro other member
      rcases List.mem_cons.mp member with rfl | earlier
      · exact found.next refers (by simpa using kept)
      · exact sound.reached other earlier

theorem met_enter_iff {other : String} : (enter scope s target).Met other ↔ other = target ∨ s.Met other := by
  rw [Search.enter]
  split
  · rename_i known
    have met : s.Met target := by simpa [Met] using known
    constructor
    · exact .inr
    · rintro (rfl | earlier)
      · exact met
      · exact earlier
  · split
    · simp only [Met, List.mem_cons]
      exact or_left_comm
    · simp only [Met, List.mem_cons]
      exact or_assoc

theorem met_visit_iff {other : String} :
    (visit scope s file text).Met other ↔ other ∈ targets file text ∨ s.Met other := by
  rw [visit]
  induction targets file text generalizing s with
  | nil => simp
  | cons target targets ih =>
    rw [List.foldl_cons, ih, met_enter_iff, List.mem_cons, or_assoc, or_left_comm]

theorem Sound.visit (sound : Sound d scope start done s) (found : Reached d scope start file)
    (stored : d.read file = .ok text) : Sound d scope start done (visit scope s file text) := by
  rw [Search.visit]
  refine List.foldlRecOn _ _ sound ?_
  intro s sound target named
  exact sound.enter found ((refers_iff stored).mpr named)

/-- Reading a pending file and entering what it refers to. -/
theorem Explored.step {pending : List String} (explored : Explored d scope start done s)
    (next : s.pending = file :: pending) (stored : d.read file = .ok text) :
    Explored d scope start (file :: done) (visit scope { s with pending := pending } file text) := by
  have known : s.seen.Perm (pending ++ file :: done) := by
    have moved := explored.known
    rw [next] at moved
    exact moved.trans List.perm_middle.symm
  have found : Reached d scope start file := explored.reached file (known.mem_iff.mpr (by simp))
  have sound : Sound d scope start (file :: done) { s with pending := pending } :=
    { explored.toSound with known := known }
  refine ⟨sound.visit found stored, ?_⟩
  intro other member
  rcases List.mem_cons.mp member with rfl | earlier
  · exact ⟨text, stored, fun target named => met_visit_iff.mpr (.inl named)⟩
  · obtain ⟨text', stored', met⟩ := explored.followed other earlier
    exact ⟨text', stored', fun target named => met_visit_iff.mpr (.inr (met target named))⟩

/-- Fewer files are read than the limit admits: they are different and can all be read. -/
theorem Explored.length_lt (explored : Explored d scope start done s) (begins : Resolved start) :
    done.length < searchLimit d := by
  have distinct : done.Nodup := List.Nodup.of_append_right (explored.known.nodup_iff.mp explored.distinct)
  have among : done ⊆ d.entries.flatMap fun e => pathsTo e.1 := by
    intro file member
    obtain ⟨text, stored, -⟩ := explored.followed file member
    have found := explored.reached file (explored.known.mem_iff.mpr (List.mem_append_right _ member))
    exact mem_pathsTo_of_read (found.resolved begins) stored
  have bound := distinct.length_le_of_subset among
  have places : (d.entries.flatMap fun e => pathsTo e.1).length = 2 * d.entries.length := by
    simp [List.length_flatMap, pathsTo, Nat.mul_comm]
  rw [searchLimit]
  omega

theorem Explored.ends_run (explored : Explored d scope start done s) (begins : Resolved start) {fuel : Nat}
    (enough : searchLimit d ≤ fuel + done.length) : Ends d.read scope s (run d.read scope fuel s) := by
  induction fuel generalizing done s with
  | zero =>
    have fewer := explored.length_lt begins
    omega
  | succ fuel ih =>
    rw [run]
    split
    · rename_i none
      exact .done none
    · rename_i file pending next
      split
      · rename_i e unreadable
        exact .failed next unreadable
      · rename_i text stored
        refine .next next stored (ih (explored.step next stored) ?_)
        rw [List.length_cons]
        omega

/-- What a search from one file has found when it ends. -/
theorem Explored.of_ends {result : Search × Option (String × FileError)} (explored : Explored d scope start done s)
    (ends : Ends d.read scope s result) :
    (result.2 = none → ∃ done, Explored d scope start done result.1 ∧ result.1.pending = []) ∧
      ∀ file e, result.2 = some (file, e) → Reached d scope start file ∧ d.read file = .error e := by
  induction ends generalizing done with
  | done none => exact ⟨fun _ => ⟨done, explored, none⟩, by simp⟩
  | @failed s file pending e next unreadable =>
    refine ⟨by simp, ?_⟩
    rintro file' e' same
    cases same
    have member : file ∈ s.seen := explored.known.mem_iff.mpr (by simp [next])
    exact ⟨explored.reached file member, unreadable⟩
  | next next stored _ ih => exact ih (explored.step next stored)

theorem explored_start : Explored d scope start [] { seen := [start], pending := [start] } where
  known := .refl _
  distinct := List.nodup_singleton start
  entered := List.mem_singleton_self start
  reached file member := List.mem_singleton.mp member ▸ .start
  distinctIgnored := List.nodup_nil
  leftOut := by simp
  followed := by simp

section Finished

variable (explored : Explored d scope start done s) (finished : s.pending = [])

include explored finished

theorem Explored.mem_done_iff : file ∈ done ↔ file ∈ s.seen := by
  have known := explored.known.mem_iff (a := file)
  rw [finished, List.nil_append] at known
  exact known.symm

theorem Explored.mem_seen_iff : file ∈ s.seen ↔ Reached d scope start file := by
  refine ⟨explored.reached file, ?_⟩
  intro found
  induction found with
  | start => exact explored.entered
  | @next file target _ refers kept ih =>
    obtain ⟨text, stored, met⟩ := explored.followed file ((explored.mem_done_iff finished).mpr ih)
    rcases met target ((refers_iff stored).mp refers) with seen | ignored
    · exact seen
    · cases kept.symm.trans (explored.leftOut target ignored).ignored

theorem Explored.mem_ignored_iff : target ∈ s.ignored ↔ LeftOut d scope start target := by
  refine ⟨explored.leftOut target, ?_⟩
  rintro ⟨other, ignored, file, found, refers⟩
  have member := (explored.mem_done_iff finished).mpr ((explored.mem_seen_iff finished).mpr found)
  obtain ⟨text, stored, met⟩ := explored.followed file member
  rcases met target ((refers_iff stored).mp refers) with seen | ignored'
  · rcases (explored.reached target seen).eq_or_kept with same | kept
    · exact absurd same other
    · cases kept.symm.trans ignored
  · exact ignored'

theorem Explored.exists_text (found : Reached d scope start file) : ∃ text, d.read file = .ok text := by
  have member := (explored.mem_done_iff finished).mpr ((explored.mem_seen_iff finished).mpr found)
  obtain ⟨text, stored, -⟩ := explored.followed file member
  exact ⟨text, stored⟩

end Finished

end Search

end Searching

end DocLocale.Project
