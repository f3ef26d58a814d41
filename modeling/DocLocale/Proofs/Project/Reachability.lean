import DocLocale.Proofs.Project.Searching

/-!
Discovery as reachability. Main statement: discovery succeeds if and only if every file that is reached can be read,
and then lists the files that are reached and those left out, in order, whatever the order of references.
-/

set_option autoImplicit false
set_option relaxedAutoImplicit false

namespace DocLocale.Project

open DocLocale.Path (Resolved)

section Finding

variable {d : Disk} {scope : Scope} {start file target text : String}

/-- The files found from `start`: those reached and those left out, each in order and listed once. -/
structure Finds (d : Disk) (scope : Scope) (start : String) (found : Discovered) : Prop where
  entry : found.entry = start
  sorted : found.files.Pairwise Path.Before
  mem_files : ∀ file, file ∈ found.files ↔ Reached d scope start file
  sortedIgnored : found.ignored.Pairwise Path.Before
  mem_ignored : ∀ file, file ∈ found.ignored ↔ LeftOut d scope start file
  apart : ∀ file ∈ found.files, file ∉ found.ignored

/-- What is found at a place, up to the order in which a text names paths. -/
inductive SameEntry : Option Entry → Option Entry → Prop
  | same (e : Option Entry) : SameEntry e e
  | text {text text' : String} :
      (∀ path, path ∈ Source.referencePaths text ↔ path ∈ Source.referencePaths text') →
      SameEntry (some (.text text)) (some (.text text'))

theorem SameEntry.symm {e e' : Option Entry} (same : SameEntry e e') : SameEntry e' e := by
  cases same with
  | same => exact .same _
  | text names => exact .text fun path => (names path).symm

/-- File systems that differ at most in texts that name the same paths, in whatever order. -/
structure Reordered (d d' : Disk) : Prop where
  here : d.here = d'.here
  entries : ∀ place, SameEntry ( d.entry? place) ( d'.entry? place)

theorem Search.Explored.finds {s : Search} {done : List String} (explored : Search.Explored d scope start done s)
    (finished : s.pending = []) (begins : Resolved start) :
    Finds d scope start ⟨start, Path.sort s.seen, Path.sort s.ignored⟩ where
  entry := rfl
  sorted := Path.pairwise_sort explored.distinct fun file member => (explored.reached file member).resolved begins
  mem_files file := by rw [Path.mem_sort, explored.mem_seen_iff finished]
  sortedIgnored := by
    refine Path.pairwise_sort explored.distinctIgnored ?_
    intro target member
    obtain ⟨file, found, refers⟩ := (explored.leftOut target member).referred
    exact refers.resolved (found.resolved begins)
  mem_ignored target := by rw [Path.mem_sort, explored.mem_ignored_iff finished]
  apart file member ignored := by
    have left := explored.leftOut file (Path.mem_sort.mp ignored)
    rcases (explored.reached file (Path.mem_sort.mp member)).eq_or_kept with same | kept
    · exact left.other same
    · cases kept.symm.trans left.ignored

theorem Finds.eq {found found' : Discovered} (finds : Finds d scope start found)
    (finds' : Finds d scope start found') : found = found' := by
  obtain ⟨entry, files, ignored⟩ := found
  obtain ⟨entry', files', ignored'⟩ := found'
  have starts : entry = entry' := finds.entry.trans finds'.entry.symm
  have same : files = files' := by
    apply Path.eq_of_pairwise_before finds.sorted finds'.sorted
    exact fun file => (finds.mem_files file).trans (finds'.mem_files file).symm
  have left : ignored = ignored' := by
    apply Path.eq_of_pairwise_before finds.sortedIgnored finds'.sortedIgnored
    exact fun file => (finds.mem_ignored file).trans (finds'.mem_ignored file).symm
  rw [starts, same, left]

namespace Reordered

variable {d' : Disk}

theorem symm (same : Reordered d d') : Reordered d' d :=
  ⟨same.here.symm, fun place => (same.entries place).symm⟩

theorem follow_eq (same : Reordered d d') (place : List String) (parts : List (List Char)) :
    d.follow place parts = d'.follow place parts := by
  induction parts generalizing place with
  | nil => rfl
  | cons part parts ih =>
    have here := same.entries place
    rw [Disk.follow, Disk.follow]
    generalize d.entry? place = e, d'.entry? place = e' at here
    cases here with
    | same => simp only [ih]
    | text => rfl

theorem exists_read (same : Reordered d d') (stored : d.read file = .ok text) :
    ∃ text', d'.read file = .ok text' ∧
      ∀ path, path ∈ Source.referencePaths text ↔ path ∈ Source.referencePaths text' := by
  obtain ⟨place, located, found⟩ := Disk.read_eq_ok_iff.mp stored
  have located' : d'.locate file = .ok place := by
    rw [Disk.locate_eq_ok_iff, ← same.here, ← same.follow_eq]
    exact Disk.locate_eq_ok_iff.mp located
  have here := same.entries place
  rw [found] at here
  generalize after : d'.entry? place = e' at here
  cases here with
  | same => exact ⟨text, Disk.read_eq_ok_iff.mpr ⟨place, located', after⟩, fun _ => .rfl⟩
  | text names => exact ⟨_, Disk.read_eq_ok_iff.mpr ⟨place, located', after⟩, names⟩

theorem refers (same : Reordered d d') (refers : Refers d file target) : Refers d' file target := by
  obtain ⟨text, stored, path, named, leads⟩ := refers
  obtain ⟨text', stored', names⟩ := same.exists_read stored
  exact ⟨text', stored', path, (names path).mp named, leads⟩

theorem reached (same : Reordered d d') (found : Reached d scope start file) : Reached d' scope start file := by
  induction found with
  | start => exact .start
  | next _ refers kept ih => exact ih.next (same.refers refers) kept

theorem leftOut (same : Reordered d d') (left : LeftOut d scope start file) : LeftOut d' scope start file := by
  obtain ⟨other, ignored, source, found, refers⟩ := left
  exact ⟨other, ignored, source, same.reached found, same.refers refers⟩

theorem finds {found : Discovered} (same : Reordered d d') (finds : Finds d scope start found) :
    Finds d' scope start found where
  entry := finds.entry
  sorted := finds.sorted
  mem_files file := (finds.mem_files file).trans ⟨same.reached, same.symm.reached⟩
  sortedIgnored := finds.sortedIgnored
  mem_ignored file := (finds.mem_ignored file).trans ⟨same.leftOut, same.symm.leftOut⟩
  apart := finds.apart

end Reordered

end Finding

section Discovering

variable {d : Disk} {entry : String} {ignores : List String} {patterns : List (List Glob.Token)}

theorem readPatterns_eq_ok (valid : ignores.map Glob.parse = patterns.map .ok) :
    readPatterns ignores = .ok patterns := by
  induction ignores generalizing patterns with
  | nil =>
    obtain rfl := List.map_eq_nil_iff.mp valid.symm
    rfl
  | cons p ps ih =>
    cases patterns with
    | nil => cases valid
    | cons tokens patterns =>
      obtain ⟨first, rest⟩ := List.cons.inj valid
      rw [readPatterns, first, ih rest]
      rfl

theorem exists_absolute (named : entry ≠ "") : ∃ start, absolute d entry = .ok start ∧ Resolved start := by
  have nonempty : entry.isEmpty = false := by simpa using named
  have here : Path.isAbsolute d.herePath = true := by simp [Path.isAbsolute, Disk.herePath, String.toList_append]
  refine ⟨_, ?_, Path.resolved_normalize (Path.isAbsolute_join here entry)⟩
  rw [absolute, nonempty]
  rfl

theorem discover_eq {start : String} (valid : ignores.map Glob.parse = patterns.map .ok)
    (begins : absolute d entry = .ok start) :
    discover d entry ignores =
      match search d ⟨directoryOf start, patterns⟩ start with
      | (s, none) => .ok ⟨start, Path.sort s.seen, Path.sort s.ignored⟩
      | (_, some (file, e)) => .error (.unreadable file e) := by
  simp only [discover, readPatterns_eq_ok valid, begins, bind, Except.bind]
  rfl

theorem ends_search {scope : Scope} {start : String} (begins : Resolved start) :
    Search.Ends d.read scope { seen := [start], pending := [start] } (search d scope start) :=
  Search.explored_start.ends_run begins (Nat.le_add_right _ _)

/-- A discovery finds what it should, or names a file that was reached and cannot be read. -/
theorem discover_outcome {start : String} (valid : ignores.map Glob.parse = patterns.map .ok)
    (begins : absolute d entry = .ok start) (resolved : Resolved start) :
    (∃ found, discover d entry ignores = .ok found ∧ Finds d ⟨directoryOf start, patterns⟩ start found ∧
        ∀ file, Reached d ⟨directoryOf start, patterns⟩ start file → ∃ text, d.read file = .ok text) ∨
      ∃ file e, discover d entry ignores = .error (.unreadable file e) ∧
        Reached d ⟨directoryOf start, patterns⟩ start file ∧ d.read file = .error e := by
  have ends : Search.Ends d.read ⟨directoryOf start, patterns⟩ { seen := [start], pending := [start] }
    (search d ⟨directoryOf start, patterns⟩ start) := ends_search resolved
  have outcome := Search.explored_start.of_ends ends
  rw [discover_eq valid begins]
  generalize search d ⟨directoryOf start, patterns⟩ start = result at outcome
  obtain ⟨s, failure⟩ := result
  cases failure with
  | none =>
    obtain ⟨done, explored, finished⟩ := outcome.1 rfl
    exact .inl ⟨_, rfl, explored.finds finished resolved, fun file => explored.exists_text finished⟩
  | some failure =>
    obtain ⟨file, e⟩ := failure
    obtain ⟨found, unreadable⟩ := outcome.2 file e rfl
    exact .inr ⟨file, e, rfl, found, unreadable⟩

/-- Discovery is reachability. From an entry with a name and patterns that can be read, the search ends even when
files refer to each other in circles. It succeeds exactly if every file that is reached can be read. It then gives
the files that are reached and those left out, both in order and listed once, whatever the order in which texts
name paths. -/
theorem discover_computes_reachability (named : entry ≠ "") (valid : ignores.map Glob.parse = patterns.map .ok) :
    ∃ start scope, absolute d entry = .ok start ∧ scope = ⟨directoryOf start, patterns⟩ ∧
      Search.Ends d.read scope { seen := [start], pending := [start] } (search d scope start) ∧
      ((∃ found, discover d entry ignores = .ok found) ↔
        ∀ file, Reached d scope start file → ∃ text, d.read file = .ok text) ∧
      ∀ found, discover d entry ignores = .ok found → Finds d scope start found ∧
        ∀ d', Reordered d d' → discover d' entry ignores = .ok found := by
  obtain ⟨start, begins, resolved⟩ := exists_absolute named
  refine ⟨start, _, begins, rfl, ends_search resolved, ?_, ?_⟩
  · rcases discover_outcome valid begins resolved with
      ⟨found, ok, -, readable⟩ | ⟨file, e, failed, reached, unreadable⟩
    · exact iff_of_true ⟨found, ok⟩ readable
    · refine iff_of_false ?_ ?_
      · rintro ⟨found, ok⟩
        cases failed.symm.trans ok
      · intro readable
        obtain ⟨text, stored⟩ := readable file reached
        cases unreadable.symm.trans stored
  · intro found ok
    rcases discover_outcome valid begins resolved with ⟨found', ok', finds, readable⟩ | ⟨file, e, failed, -⟩
    · cases ok.symm.trans ok'
      refine ⟨finds, ?_⟩
      intro d' same
      have begins' : absolute d' entry = .ok start := by
        rw [← begins, absolute, absolute, Disk.herePath, Disk.herePath, same.here]
      rcases discover_outcome valid begins' resolved with
        ⟨found', ok', finds', -⟩ | ⟨file, e, -, reached, unreadable⟩
      · rw [ok', (same.finds finds).eq finds']
      · obtain ⟨text, stored⟩ := readable file (same.symm.reached reached)
        obtain ⟨text', stored', -⟩ := same.exists_read stored
        cases unreadable.symm.trans stored'
    · cases failed.symm.trans ok

/-- Two files that refer to each other; the entry names the given paths. -/
private def circle (paths : List String) : Disk where
  entries := [(["p"], .directory),
    (["p", "main.d.ts"], .text ("\n".intercalate (paths.map fun path => "///<reference path=\"" ++ path ++ "\"/>"))),
    (["p", "a.d.ts"], .text "///<reference path=\"./main.d.ts\"/>\n///<reference path=\"/p/lib/x.d.ts\"/>")]
  here := ["p"]

private def circlePatterns : List (List Glob.Token) :=
  [[.char 'l', .char 'i', .char 'b', .char '/', .anyRun], [.char 'm', .char 'a', .char 'i', .char 'n', .anyRun]]

private theorem reordered_circle :
    Reordered (circle ["../p/a.d.ts", "lib/x.d.ts"]) (circle ["lib/x.d.ts", "../p/a.d.ts"]) := by
  refine ⟨rfl, fun place => ?_⟩
  by_cases main : place = ["p", "main.d.ts"]
  · subst main
    apply SameEntry.text
    have first : Source.referencePaths ("\n".intercalate (["../p/a.d.ts", "lib/x.d.ts"].map fun path =>
        "///<reference path=\"" ++ path ++ "\"/>")) = ["../p/a.d.ts", "lib/x.d.ts"] := by decide +kernel
    have second : Source.referencePaths ("\n".intercalate (["lib/x.d.ts", "../p/a.d.ts"].map fun path =>
        "///<reference path=\"" ++ path ++ "\"/>")) = ["lib/x.d.ts", "../p/a.d.ts"] := by decide +kernel
    intro path
    rw [first, second, List.Perm.mem_iff (List.Perm.swap _ _ [])]
  · have elsewhere : Disk.entry? (circle ["../p/a.d.ts", "lib/x.d.ts"]) place =
        Disk.entry? (circle ["lib/x.d.ts", "../p/a.d.ts"]) place := by
      simp [ Disk.entry?, circle, List.find?_cons, Ne.symm main]
    rw [elsewhere]
    exact .same _

/-- The entry fits a pattern and is kept; what it names in another order gives the same files. -/
theorem discover_computes_reachability_circle :
    ∃ found, discover (circle ["../p/a.d.ts", "lib/x.d.ts"]) "main.d.ts" ["lib/*", "main*"] = .ok found ∧
      found.files = ["/p/a.d.ts", "/p/main.d.ts"] ∧ found.ignored = ["/p/lib/x.d.ts"] ∧
      discover (circle ["lib/x.d.ts", "../p/a.d.ts"]) "main.d.ts" ["lib/*", "main*"] = .ok found := by
  have valid : ["lib/*", "main*"].map Glob.parse = circlePatterns.map .ok := by decide +kernel
  have absolute' : absolute (circle ["../p/a.d.ts", "lib/x.d.ts"]) "main.d.ts" = .ok "/p/main.d.ts" := by
    decide +kernel
  have directory : directoryOf "/p/main.d.ts" = "/p" := by decide +kernel
  obtain ⟨start, scope, begins, rfl, -, -, finds⟩ :=
    discover_computes_reachability (d := circle ["../p/a.d.ts", "lib/x.d.ts"]) (by decide : "main.d.ts" ≠ "") valid
  cases absolute'.symm.trans begins
  have listed := discover_eq valid begins
  rw [directory] at listed finds
  have searched :
      let result := search (circle ["../p/a.d.ts", "lib/x.d.ts"]) ⟨"/p", circlePatterns⟩ "/p/main.d.ts"
      result.2 = none ∧ result.1.seen = ["/p/a.d.ts", "/p/main.d.ts"] ∧ result.1.ignored = ["/p/lib/x.d.ts"] := by
    decide +kernel
  generalize search (circle ["../p/a.d.ts", "lib/x.d.ts"]) ⟨"/p", circlePatterns⟩ "/p/main.d.ts" = result
    at listed searched
  obtain ⟨s, failure⟩ := result
  obtain ⟨rfl, seen, ignored⟩ := searched
  obtain ⟨found, others⟩ := finds _ listed
  refine ⟨_, listed, ?_, ?_, others _ reordered_circle⟩
  · apply Path.eq_of_pairwise_before found.sorted (by decide +kernel)
    exact fun file => by rw [Path.mem_sort, seen]
  · apply Path.eq_of_pairwise_before found.sortedIgnored (by decide +kernel)
    exact fun file => by rw [Path.mem_sort, ignored]

end Discovering

end DocLocale.Project
