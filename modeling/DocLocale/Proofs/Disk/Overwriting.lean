import DocLocale.Disk
import DocLocale.Proofs.Text.Splitting

/-!
Writing over a file. Main statement: a file that can be read can be saved under the same path, and is then
read as what was saved. The directory above it is on the way to the file, so nothing has to be made.
-/

set_option autoImplicit false
set_option relaxedAutoImplicit false

namespace DocLocale

namespace Path

/-- What dropping slashes and dots leaves of a reversed path: all of it, the root, or what stands in front of
one of its slashes. -/
private structure Dropped (text out : List Char) : Prop where
  cut : out = text ∨ out = ['/'] ∨ ∃ tail, text = tail ++ '/' :: out
  root : out.head? = some '/' → out = ['/']

private theorem Dropped.cons {c : Char} {text out : List Char} (below : Dropped text out)
    (slash : c = '/' ∨ text.head? = some '/') : Dropped (c :: text) out := by
  refine ⟨?_, below.root⟩
  rcases below.cut with same | root | ⟨tail, rest⟩
  · rcases slash with rfl | starts
    · exact .inr (.inr ⟨[], by rw [same]; rfl⟩)
    · exact .inr (.inl (below.root (same ▸ starts)))
  · exact .inr (.inl root)
  · exact .inr (.inr ⟨c :: tail, congrArg _ rest⟩)

private theorem dropped_dropDots {fuel : Nat} {text : List Char} (enough : text.length < fuel) :
    Dropped text (parent?.dropDots fuel text) := by
  fun_induction parent?.dropDots fuel text with
  | case1 text => cases enough
  | case2 fuel rest empty =>
    obtain rfl := List.isEmpty_iff.mp empty
    exact ⟨.inl rfl, fun _ => rfl⟩
  | case3 fuel rest nonempty ih => exact (ih (Nat.lt_of_succ_lt_succ enough)).cons (.inl rfl)
  | case4 fuel rest empty => exact ⟨.inr (.inl rfl), fun _ => rfl⟩
  | case5 fuel rest nonempty ih => exact (ih (Nat.lt_of_succ_lt_succ enough)).cons (.inr rfl)
  | case6 fuel text noSlash noDot =>
    refine ⟨.inl rfl, fun slash => ?_⟩
    obtain ⟨rest, starts⟩ := List.head?_eq_some_iff.mp slash
    exact (noSlash rest starts).elim

/-- A path whose last part is neither empty nor a dot. -/
structure Plain (path : String) : Prop where
  slash : ∀ front, path.toList ≠ front ++ ['/']
  dot : ∀ front, path.toList ≠ front ++ ['/', '.']

private theorem dropDots_of_plain {path : String} (plain : Plain path) (fuel : Nat) :
    parent?.dropDots (fuel + 1) path.toList.reverse = path.toList.reverse := by
  have back : ∀ text, path.toList.reverse = text → path.toList = text.reverse := by
    intro text same
    rw [← same, List.reverse_reverse]
  simp only [parent?.dropDots]
  split
  · rename_i rest starts
    exact (plain.slash rest.reverse (by simpa using back _ starts)).elim
  · rename_i rest starts
    exact (plain.dot rest.reverse (by simpa using back _ starts)).elim
  · rfl

/-- The reversed path in front of the last part, the slash between the two first. -/
private theorem exists_last (text : List Char) :
    text.dropWhile (· ≠ '/') = [] ∨
      ∃ name front, text.dropWhile (· ≠ '/') = '/' :: front ∧ text = name ++ '/' :: front := by
  cases rest : text.dropWhile (· ≠ '/') with
  | nil => exact .inl rfl
  | cons c front =>
    have slash : c = '/' := by
      have stops := List.head?_dropWhile_not (· ≠ '/') text
      rw [rest] at stops
      simpa using stops
    subst slash
    refine .inr ⟨text.takeWhile (· ≠ '/'), front, rfl, ?_⟩
    rw [← rest, List.takeWhile_append_dropWhile]

theorem dropWhile_slash {path : String} (solid : ∀ front, path.toList ≠ front ++ ['/']) :
    path.toList.reverse.dropWhile (· = '/') = path.toList.reverse := by
  cases reversed : path.toList.reverse with
  | nil => rfl
  | cons c text =>
    have other : c ≠ '/' := by
      rintro rfl
      exact solid text.reverse (by rw [← List.reverse_cons, ← reversed, List.reverse_reverse])
    simp [other]

/-- The directory of a plain path is the working directory, the root, or what stands in front of one of its
slashes. -/
theorem parent?_of_plain {path parent : String} (plain : Plain path) (found : parent? path = some parent) :
    parent = "" ∨ parent = "/" ∨
      (∃ rest, path.toList = parent.toList ++ '/' :: rest) ∧ ∀ front, parent.toList ≠ front ++ ['/'] := by
  unfold parent? at found
  split at found
  · cases found
  · cases found
  · simp only [dropWhile_slash plain.slash, Option.some.injEq] at found
    subst found
    rw [parent?.dropTrailing, dropDots_of_plain plain]
    rcases exists_last path.toList.reverse with none | ⟨name, front, rest, whole⟩
    · left
      rw [none]
      rfl
    · right
      rw [rest]
      have dropped := dropped_dropDots (Nat.lt_succ_self ('/' :: front).length)
      split
      · exact .inl rfl
      · rename_i parts _
        generalize parent?.dropDots (('/' :: front).length + 1) ('/' :: front) = out at dropped ⊢
        by_cases root : out = ['/']
        · left
          rw [root]
          rfl
        · right
          rw [String.toList_ofList]
          obtain same | root' | ⟨tail, cut⟩ := dropped.cut
          · exact absurd (dropped.root (by rw [same]; rfl)) root
          · exact absurd root' root
          · constructor
            · refine ⟨(name ++ tail).reverse, ?_⟩
              rw [cut, ← List.append_assoc] at whole
              rw [← List.reverse_reverse path.toList, whole]
              simp
            · intro front ends
              refine root (dropped.root ?_)
              rw [← List.reverse_reverse out, ends]
              simp

end Path

namespace Disk

theorem follow_append (d : Disk) (place : List String) (parts more : List (List Char)) :
    d.follow place (parts ++ more) =
      match d.follow place parts with
      | .ok place => d.follow place more
      | .error e => .error e := by
  induction parts generalizing place with
  | nil => rfl
  | cons part parts ih =>
    rw [List.cons_append, follow, follow]
    cases d.entry? place with
    | none => rfl
    | some e =>
      cases e with
      | directory =>
        simp only
        split
        · exact ih place
        · split
          · exact ih _
          · exact ih _
      | text | binary => rfl

theorem directory_of_follow_cons {d : Disk} {place last : List String} {part : List Char}
    {parts : List (List Char)} (followed : d.follow place (part :: parts) = .ok last) :
    d.entry? place = some .directory := by
  rw [follow] at followed
  split at followed
  · cases followed
  · assumption
  · cases followed

/-- On the way along a path everything in front of a slash is a directory. -/
theorem exists_directory_of_follow {d : Disk} {start place : List String} {front rest : List Char}
    (followed : d.follow start (Text.splitAt '/' (front ++ '/' :: rest)) = .ok place) :
    ∃ q, d.follow start (Text.splitAt '/' front) = .ok q ∧ d.entry? q = some .directory ∧
      d.follow q (Text.splitAt '/' rest) = .ok place := by
  rw [Text.splitAt_append, follow_append] at followed
  split at followed
  · rename_i q first
    refine ⟨q, first, ?_, followed⟩
    obtain ⟨part, parts, split⟩ := List.exists_cons_of_ne_nil (Text.splitAt_ne_nil '/' rest)
    rw [split] at followed
    exact directory_of_follow_cons followed
  · cases followed

private theorem follow_stay {d : Disk} {place : List String} {part : List Char}
    (directory : d.entry? place = some .directory) (stay : part = [] ∨ part = ['.']) :
    d.follow place [part] = .ok place := by
  rcases stay with rfl | rfl <;> simp [follow, directory]

/-- A path that leads to a file ends with a name. -/
private theorem plain_of_follow {d : Disk} {start place : List String} {path content : String}
    (followed : d.follow start (Text.splitAt '/' path.toList) = .ok place)
    (found : d.entry? place = some (.text content)) : Path.Plain path := by
  -- Behind a last part that leads nowhere else the path would end in a directory.
  have stays : ∀ (front part : List Char), part = [] ∨ part = ['.'] →
      path.toList ≠ front ++ '/' :: part := by
    intro front part stay whole
    rw [whole] at followed
    obtain ⟨q, -, directory, last⟩ := exists_directory_of_follow followed
    have single : Text.splitAt '/' part = [part] := by
      rcases stay with rfl | rfl <;> rfl
    rw [single, follow_stay directory stay] at last
    cases last
    rw [found] at directory
    cases directory
  exact ⟨fun front => stays front [] (.inl rfl), fun front => stays front ['.'] (.inr rfl)⟩

private theorem find?_overwritten (entries : List (List String × Entry)) (place other : List String)
    (e : Entry) :
    ((entries.map fun x => if x.1 = place then (place, e) else x).find? fun x => x.1 = other).map (·.2) =
      (entries.find? fun x => x.1 = other).map fun x => if other = place then e else x.2 := by
  induction entries with
  | nil => rfl
  | cons x entries ih =>
    rw [List.map_cons, List.find?_cons, List.find?_cons]
    by_cases here : x.1 = other
    · by_cases same : other = place
      · simp [here, same]
      · simp [here, same]
    · by_cases same : x.1 = place
      · have elsewhere : place ≠ other := same ▸ here
        simpa [here, same, elsewhere] using ih
      · simpa [here, same] using ih

theorem entry?_put {d : Disk} {place : List String} (proper : place ≠ []) (e : Entry)
    (other : List String) :
    Disk.entry? (d.put place e) other = if other = place then some e else d.entry? other := by
  by_cases top : other = []
  · simp [ entry?, top, proper.symm]
  · unfold put
    split
    · rename_i present
      simp only [ entry?, top, if_false, find?_overwritten]
      by_cases same : other = place
      · have some : (d.entries.find? fun x => decide (x.1 = place)).isSome := by
          rwa [List.find?_isSome, ← List.any_eq_true]
        obtain ⟨x, here⟩ := Option.isSome_iff_exists.mp some
        simp [same, here]
      · simp [same]
    · rename_i absent
      have none : (d.entries.find? fun x => decide (x.1 = place)) = none := by
        rw [List.find?_eq_none]
        exact fun x member same => absent (List.any_eq_true.mpr ⟨x, member, same⟩)
      simp only [ entry?, top, if_false, List.find?_append]
      by_cases same : other = place
      · simp [same, none]
      · simp [same, Ne.symm same]

/-- Writing over a file leaves all ways as they are. -/
theorem follow_put_text {d : Disk} {place : List String} {content : String}
    (found : d.entry? place = some (.text content)) (text : String) (start : List String)
    (parts : List (List Char)) :
    (d.put place (.text text)).follow start parts = d.follow start parts := by
  have proper : place ≠ [] := by
    rintro rfl
    cases found
  induction parts generalizing start with
  | nil => rfl
  | cons part parts ih =>
    rw [follow, follow, entry?_put proper]
    by_cases here : start = place
    · simp [here, found]
    · simp only [here, if_false, ih]

theorem locate_eq_ok_iff {d : Disk} {path : String} {place : List String} :
    d.locate path = .ok place ↔ path.isEmpty = false ∧ path.toList.contains (Char.ofNat 0) = false ∧
      d.follow (if Path.isAbsolute path then [] else d.here) (Text.splitAt '/' path.toList) = .ok place := by
  unfold locate
  cases path.isEmpty <;> cases path.toList.contains (Char.ofNat 0) <;> simp

theorem read_eq_ok_iff {d : Disk} {path content : String} :
    d.read path = .ok content ↔
      ∃ place, d.locate path = .ok place ∧ d.entry? place = some (.text content) := by
  unfold read
  cases d.locate path with
  | error e => simp
  | ok place =>
    cases entry : d.entry? place with
    | none => simp [entry]
    | some e => cases e <;> simp [entry]

/-- What stands in front of a slash of a path leads to a directory. -/
private theorem locate_front {d : Disk} {path front : String} {place : List String} {rest : List Char}
    (located : d.locate path = .ok place) (whole : path.toList = front.toList ++ '/' :: rest)
    (proper : front ≠ "") : ∃ q, d.locate front = .ok q ∧ d.entry? q = some .directory := by
  obtain ⟨-, clean, followed⟩ := locate_eq_ok_iff.mp located
  obtain ⟨c, cs, first⟩ := List.exists_cons_of_ne_nil (mt String.toList_eq_nil_iff.mp proper)
  have absolute : Path.isAbsolute path = Path.isAbsolute front := by
    rw [Path.isAbsolute, Path.isAbsolute, whole, first]
    rfl
  rw [whole, absolute] at followed
  obtain ⟨q, reached, directory, -⟩ := exists_directory_of_follow followed
  refine ⟨q, locate_eq_ok_iff.mpr ⟨by simpa using proper, ?_, reached⟩, directory⟩
  rw [whole] at clean
  simp only [List.contains_eq_mem, List.mem_append, decide_eq_false_iff_not, not_or] at clean ⊢
  exact clean.1

private theorem withoutSlash_of_plain {path : String} (plain : ∀ front, path.toList ≠ front ++ ['/']) :
    withoutSlash path = path := by
  have kept : path.toList.reverse.dropWhile (· = '/') = path.toList.reverse :=
    Path.dropWhile_slash plain
  rw [withoutSlash, kept, List.reverse_reverse, String.ofList_toList]

/-- Making a directory that is there leaves everything as it is. -/
private theorem makeDirectories_of_directory {d : Disk} {directory : String} {q : List String}
    (located : d.locate directory = .ok q) (found : d.entry? q = some .directory)
    (bare : withoutSlash directory = directory ∨ withoutSlash directory = "") (depth : Nat) :
    d.makeDirectories (depth + 1) directory = .ok d := by
  have nonempty := (locate_eq_ok_iff.mp located).1
  have way : (if (withoutSlash directory).isEmpty then directory else withoutSlash directory) =
      directory := by
    rcases bare with same | empty
    · rw [same, if_neg (by simp [nonempty])]
    · rw [empty]
      rfl
  have made : d.makeDirectory directory = .error .alreadyExists := by
    rw [makeDirectory]
    simp only [way, located, found]
  have present : d.isDirectory directory = true := by
    simp [isDirectory, find?, located, found]
  rw [makeDirectories]
  simp only [nonempty, Bool.false_eq_true, if_false, made, present, if_true]

/-- The directories above a file are there. -/
private theorem makeDirectories_parent {d : Disk} {path parent : String} {place : List String}
    (located : d.locate path = .ok place) (plain : Path.Plain path)
    (above : Path.parent? path = some parent) (depth : Nat) :
    d.makeDirectories (depth + 1) parent = .ok d := by
  rcases Path.parent?_of_plain plain above with rfl | rfl | ⟨⟨rest, whole⟩, solid⟩
  · rfl
  · have root : d.locate "/" = .ok [] := rfl
    exact makeDirectories_of_directory root rfl (.inr rfl) depth
  · by_cases empty : parent = ""
    · subst empty
      rfl
    · obtain ⟨q, reached, directory⟩ := locate_front located whole empty
      exact makeDirectories_of_directory reached directory (.inl (withoutSlash_of_plain solid)) depth

/-- A file that is read can be saved anew, and is then read as saved. -/
theorem exists_save {d : Disk} {path content : String} (stored : d.read path = .ok content)
    (text : String) : ∃ after, d.save path text = .ok after ∧ after.read path = .ok text := by
  obtain ⟨place, located, found⟩ := read_eq_ok_iff.mp stored
  obtain ⟨nonempty, clean, followed⟩ := locate_eq_ok_iff.mp located
  have plain := plain_of_follow followed found
  have proper : place ≠ [] := by
    rintro rfl
    cases found
  -- No directory is made, so the write starts from the same file system.
  have written : d.write path text = .ok (d.put place (.text text)) := by
    rw [write]
    simp only [withoutSlash_of_plain plain.slash, nonempty, Bool.false_eq_true, if_false, located, found,
      if_true]
  refine ⟨d.put place (.text text), ?_, ?_⟩
  · rw [save]
    cases above : Path.parent? path with
    | none => simp only [written]
    | some parent => simp only [makeDirectories_parent located plain above, written]
  · rw [read_eq_ok_iff]
    refine ⟨place, locate_eq_ok_iff.mpr ⟨nonempty, clean, ?_⟩, ?_⟩
    · have here : (d.put place (.text text)).here = d.here := by
        unfold put
        split <;> rfl
      rw [follow_put_text found, here, followed]
    · rw [entry?_put proper, if_pos rfl]

end Disk

end DocLocale
