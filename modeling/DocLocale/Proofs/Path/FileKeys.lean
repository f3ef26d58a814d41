import DocLocale.Key.Segment
import DocLocale.Proofs.Path.Relative
import Mathlib.Data.List.DropRight
import Mathlib.Tactic.Common

/-!
Names of files in keys. A file is told from others by its name, unless the two stand in one directory and their
names differ in dots and hyphens only. Steps up are given back by their hashes as long as no directory on the way
has a hash of its own, and what stands behind the last dot of the key is the name of the file.
-/

set_option autoImplicit false
set_option relaxedAutoImplicit false

namespace DocLocale.Path

/-- A file name with hyphens for its dots. -/
def hyphened (name : List Char) : List Char := name.map fun c => if c = '.' then '-' else c

/-- A file as it is seen from the directory `base`: an absolute path down through directories to a name, which is
neither `base` nor above it, and no directory on the way to it has a hash in its name. -/
structure SeenFrom (base file : String) (directories : List String) (name : String) : Prop where
  named : ∀ part ∈ directories ++ [name], IsName part
  path : file = ofComponents (.root :: (directories ++ [name]).map .normal)
  inside : ¬ components file <+: components base
  unmarked : ∀ front rest, (relative base file).toList = front ++ '/' :: rest → '#' ∉ front

section Marks

/-- What a character of a marked text stands for. -/
private def unmark (c : Char) : List Char := if c = '#' then ['.', '.', '/'] else [c]

private theorem flatMap_unmark {cs : List Char} (unmarked : '#' ∉ cs) : (markSteps cs).flatMap unmark = cs := by
  fun_induction markSteps cs with
  | case1 rest ih =>
    simp only [List.mem_cons, not_or] at unmarked
    rw [List.flatMap_cons, ih unmarked.2.2.2]
    rfl
  | case2 c rest other ih =>
    simp only [List.mem_cons, not_or] at unmarked
    rw [List.flatMap_cons, ih unmarked.2, unmark, if_neg (Ne.symm unmarked.1)]
    rfl
  | case3 => rfl

/-- A text without the slashes at its end. -/
private def stripped (cs : List Char) : List Char := cs.rdropWhile (· = '/')

private theorem exists_stripped (cs : List Char) : ∃ n, cs = stripped cs ++ List.replicate n '/' := by
  refine ⟨(cs.rtakeWhile (· = '/')).length, ?_⟩
  have slashes : cs.rtakeWhile (· = '/') = List.replicate (cs.rtakeWhile (· = '/')).length '/' := by
    refine List.eq_replicate_of_mem fun c member => ?_
    simpa using List.mem_rtakeWhile_imp member
  rw [← slashes]
  exact List.rdropWhile_append_rtakeWhile.symm

/-- The parts of a text between slashes that are not empty. -/
private def solidParts (cs : List Char) : List (List Char) := (Text.splitAt '/' cs).filter (· ≠ [])

private theorem solidParts_append (cs rest : List Char) :
    solidParts (cs ++ '/' :: rest) = solidParts cs ++ solidParts rest := by
  rw [solidParts, Text.splitAt_append, List.filter_append]
  rfl

private theorem solidParts_slashes (cs : List Char) (n : Nat) :
    solidParts (cs ++ List.replicate n '/') = solidParts cs := by
  induction n generalizing cs with
  | zero => rw [List.replicate_zero, List.append_nil]
  | succ n ih =>
    have none : solidParts (List.replicate n '/') = [] := ih []
    rw [List.replicate_succ, solidParts_append, none, List.append_nil]

/-- Marked texts that agree up to slashes at their ends have the same parts. -/
private theorem solidParts_eq_of_stripped {cs ds : List Char} (left : '#' ∉ cs) (right : '#' ∉ ds)
    (same : stripped (markSteps cs) = stripped (markSteps ds)) : solidParts cs = solidParts ds := by
  have slashes : ∀ n, (List.replicate n '/').flatMap unmark = List.replicate n '/' := by
    intro n
    induction n with
    | zero => rfl
    | succ n ih => rw [List.replicate_succ, List.flatMap_cons, ih]; rfl
  have read : ∀ {text : List Char}, '#' ∉ text →
      solidParts text = solidParts ((stripped (markSteps text)).flatMap unmark) := by
    intro text unmarked
    obtain ⟨n, whole⟩ := exists_stripped (markSteps text)
    have back := flatMap_unmark unmarked
    rw [whole, List.flatMap_append, slashes] at back
    calc solidParts text = solidParts ((stripped (markSteps text)).flatMap unmark ++ List.replicate n '/') := by
          rw [back]
      _ = solidParts ((stripped (markSteps text)).flatMap unmark) := solidParts_slashes _ n
  rw [read left, read right, same]

private theorem solidParts_flatMap (texts : List String) :
    solidParts (texts.flatMap (·.toList ++ ['/'])) = texts.flatMap fun text => solidParts text.toList := by
  induction texts with
  | nil => rfl
  | cons text texts ih =>
    rw [List.flatMap_cons, List.flatMap_cons, List.append_assoc, List.singleton_append, solidParts_append, ih]

end Marks

section Ways

/-- A last component that is not shared stays behind the others. -/
private theorem dropCommon_concat {as bs : List Component} {x : Component} (apart : ¬ bs ++ [x] <+: as) :
    dropCommon as (bs ++ [x]) = ((dropCommon as bs).1, (dropCommon as bs).2 ++ [x]) := by
  induction bs generalizing as with
  | nil =>
    cases as with
    | nil => simp [dropCommon]
    | cons a as =>
      have other : a ≠ x := by
        rintro rfl
        exact apart (List.cons_prefix_cons.mpr ⟨rfl, List.nil_prefix⟩)
      simp [dropCommon, other]
  | cons b bs ih =>
    cases as with
    | nil => simp [dropCommon]
    | cons a as =>
      by_cases same : a = b
      · subst same
        have later : ¬ bs ++ [x] <+: as := fun shared => apart (List.cons_prefix_cons.mpr ⟨rfl, shared⟩)
        simp [dropCommon, ih later]
      · simp [dropCommon, same]

/-- The way from `base` to a directory: its steps up and its way down. -/
private def way (base : String) (directories : List String) : List Component × List Component :=
  dropCommon (components base) (.root :: directories.map .normal)

/-- The steps of a way, as they are written in a relative path. -/
private def wayTexts (base : String) (directories : List String) : List String :=
  (way base directories).1.map (fun _ => "..") ++ (way base directories).2.map Component.text

/-- A way as it is written in front of a name. -/
private def wayText (base : String) (directories : List String) : List Char :=
  (wayTexts base directories).flatMap (·.toList ++ ['/'])

private theorem toList_intercalate_concat (texts : List String) (last : String) :
    ("/".intercalate (texts ++ [last])).toList = texts.flatMap (·.toList ++ ['/']) ++ last.toList := by
  induction texts with
  | nil => simp
  | cons text texts ih =>
    rw [List.cons_append, String.intercalate_cons_of_ne_nil (by simp), String.toList_append, String.toList_append,
      ih]
    simp

variable {base file name : String} {directories : List String}

private theorem SeenFrom.components (seen : SeenFrom base file directories name) :
    components file = .root :: directories.map .normal ++ [.normal name] := by
  rw [seen.path, components_path seen.named, List.map_append]
  rfl

/-- The path that leads to a file is the way to its directory and its name. -/
private theorem SeenFrom.relative (seen : SeenFrom base file directories name) :
    (relative base file).toList = wayText base directories ++ name.toList := by
  have apart := seen.inside
  rw [seen.components] at apart
  have split : dropCommon (Path.components base) (Path.components file) =
      ((way base directories).1, (way base directories).2 ++ [.normal name]) := by
    rw [seen.components]
    exact dropCommon_concat apart
  rw [Path.relative, split]
  simp only [List.map_append, List.map_cons, List.map_nil, ← List.append_assoc]
  exact toList_intercalate_concat _ _

/-- A way is empty or ends with a slash. -/
private theorem wayText_eq_nil_or (base : String) (directories : List String) :
    wayText base directories = [] ∨ ∃ front, wayText base directories = front ++ ['/'] := by
  rw [wayText]
  rcases List.eq_nil_or_concat (wayTexts base directories) with none | ⟨texts, last, some⟩
  · exact .inl (by rw [none]; rfl)
  · refine .inr ⟨texts.flatMap (·.toList ++ ['/']) ++ last.toList, ?_⟩
    rw [some, List.concat_eq_append, List.flatMap_append]
    simp

private theorem SeenFrom.unmarked_way (seen : SeenFrom base file directories name) :
    '#' ∉ wayText base directories := by
  rcases wayText_eq_nil_or base directories with none | ⟨front, some⟩
  · rw [none]
    exact List.not_mem_nil
  · have whole := seen.relative
    rw [some, List.append_assoc, List.singleton_append] at whole
    simpa [some] using seen.unmarked front name.toList whole

/-- The name of a component that has one. -/
private def nameOf? : Component → Option String
  | .normal part => some part
  | _ => none

/-- The parts of a way are its steps up and the names on its way down. -/
private theorem solidParts_wayText (named : ∀ part ∈ directories, IsName part) :
    solidParts (wayText base directories) =
      List.replicate (way base directories).1.length ['.', '.'] ++
        ((way base directories).2.filterMap nameOf?).map String.toList := by
  obtain ⟨common, -, whole⟩ := exists_common (components base) (.root :: directories.map .normal)
  have down : ∀ c ∈ (way base directories).2, solidParts c.text.toList = ((nameOf? c).map String.toList).toList := by
    intro c member
    have among : c ∈ Component.root :: directories.map .normal := by
      rw [whole]
      exact List.mem_append_right _ member
    rcases List.mem_cons.mp among with rfl | normal
    · decide
    · obtain ⟨part, present, rfl⟩ := List.mem_map.mp normal
      have solid := named part present
      simp [solidParts, Component.text, Text.splitAt_of_not_mem solid.solid, solid.toList_ne.1, nameOf?]
  have up : (way base directories).1.flatMap (fun _ => solidParts "..".toList) =
      List.replicate (way base directories).1.length ['.', '.'] := by
    rw [show solidParts "..".toList = [['.', '.']] from rfl, ← List.map_eq_flatMap, List.map_const']
  rw [wayText, solidParts_flatMap, wayTexts, List.flatMap_append, List.flatMap_map, List.flatMap_map,
    List.flatMap_congr down, up, ← List.filterMap_eq_flatMap_toList, List.map_filterMap]

/-- A directory is the part of `base` that its way does not leave, and the names on the way down. -/
private theorem directories_eq (base : String) (directories : List String) :
    directories = ((components base).take
        ((components base).length - (way base directories).1.length)).filterMap nameOf? ++
      (way base directories).2.filterMap nameOf? := by
  obtain ⟨common, left, right⟩ := exists_common (components base) (.root :: directories.map .normal)
  have shared : (components base).take ((components base).length - (way base directories).1.length) = common := by
    rw [left]
    refine List.take_left' ?_
    rw [List.length_append, way]
    omega
  have names : (Component.root :: directories.map .normal).filterMap nameOf? = directories := by
    simp [List.filterMap_cons, nameOf?, List.filterMap_map, Function.comp_def]
  rw [shared, ← List.filterMap_append]
  exact names.symm.trans (congrArg _ right)

private theorem directories_eq_iff {directories' : List String} (named : ∀ part ∈ directories, IsName part)
    (named' : ∀ part ∈ directories', IsName part) (unmarked : '#' ∉ wayText base directories)
    (unmarked' : '#' ∉ wayText base directories') :
    stripped (markSteps (wayText base directories)) = stripped (markSteps (wayText base directories')) ↔
      directories = directories' := by
  constructor
  · intro same
    have parts := solidParts_eq_of_stripped unmarked unmarked' same
    rw [solidParts_wayText named, solidParts_wayText named'] at parts
    -- No name is a step up, so the steps up are counted by the parts that look like one.
    have noStep : ∀ {names : List String}, (∀ part ∈ names, IsName part) →
        ['.', '.'] ∉ ((way base names).2.filterMap nameOf?).map String.toList := by
      intro names all step
      obtain ⟨part, present, dots⟩ := List.mem_map.mp step
      have among : part ∈ names := by
        rw [directories_eq base names]
        exact List.mem_append_right _ present
      exact (all part among).toList_ne.2.2 dots
    have count := congrArg (List.count ['.', '.']) parts
    rw [List.count_append, List.count_append, List.count_replicate_self, List.count_replicate_self,
      List.count_eq_zero_of_not_mem (noStep named), List.count_eq_zero_of_not_mem (noStep named'), Nat.add_zero,
      Nat.add_zero] at count
    rw [count] at parts
    have down := List.map_injective_iff.mpr (fun _ _ => String.toList_inj.mp) (List.append_cancel_left parts)
    rw [directories_eq base directories, directories_eq base directories', count, down]
  · rintro rfl
    rfl

end Ways

section Keys

private theorem splitLastSlash_of_not_mem {cs : List Char} (solid : '/' ∉ cs) : splitLastSlash cs = none := by
  induction cs with
  | nil => rfl
  | cons c cs ih =>
    simp only [List.mem_cons, not_or] at solid
    rw [splitLastSlash, ih solid.2, if_neg (Ne.symm solid.1)]

private theorem splitLastSlash_append {name : List Char} (solid : '/' ∉ name) (front : List Char) :
    splitLastSlash (front ++ '/' :: name) = some (front, name) := by
  induction front with
  | nil => rw [List.nil_append, splitLastSlash, splitLastSlash_of_not_mem solid, if_pos rfl]
  | cons c front ih => rw [List.cons_append, splitLastSlash, ih]

variable {base file name : String} {directories : List String}

private theorem not_mem_hyphened (name : List Char) : '.' ∉ hyphened name := by
  intro dot
  obtain ⟨c, -, same⟩ := List.mem_map.mp dot
  split at same
  · cases same
  · exact absurd same (by assumption)

/-- A marked way and a name, with a dot between them if there is a way. -/
private def keyChars (marked name : List Char) : List Char :=
  if marked = [] then name else marked ++ '.' :: name

private theorem keyChars_inj {marked marked' name name' : List Char} (left : '.' ∉ name) (right : '.' ∉ name') :
    keyChars marked name = keyChars marked' name' ↔ marked = marked' ∧ name = name' := by
  have dotted : ∀ way name : List Char, '.' ∈ way ++ '.' :: name := by simp
  constructor
  · intro same
    rw [keyChars, keyChars] at same
    split at same
    · split at same
      · exact ⟨by simp_all, same⟩
      · exact absurd (same ▸ dotted _ _) left
    · split at same
      · exact absurd (same ▸ dotted _ _) right
      · have parts := congrArg (Text.splitAt '.') same
        rw [Text.splitAt_append, Text.splitAt_append, Text.splitAt_of_not_mem left,
          Text.splitAt_of_not_mem right] at parts
        obtain rfl : name = name' := List.singleton_inj.mp (List.append_inj' parts rfl).2
        exact ⟨List.append_cancel_right same, rfl⟩
  · rintro ⟨rfl, rfl⟩
    rfl

/-- The key of a file is the marked way to its directory and its name with hyphens. -/
private theorem SeenFrom.fileKey (seen : SeenFrom base file directories name) :
    fileKey base file =
      String.ofList (keyChars (stripped (markSteps (wayText base directories))) (hyphened name.toList)) := by
  have solid : '/' ∉ name.toList := (seen.named name (by simp)).solid
  have split : (splitLastSlash (wayText base directories ++ name.toList)).getD
      ([], wayText base directories ++ name.toList) = ((wayText base directories).dropLast, name.toList) := by
    rcases wayText_eq_nil_or base directories with none | ⟨front, some⟩
    · rw [none, List.nil_append, splitLastSlash_of_not_mem solid]
      rfl
    · rw [some, List.append_assoc, List.singleton_append, splitLastSlash_append solid, List.dropLast_concat]
      rfl
  have marked : stripped (markSteps ((wayText base directories).dropLast ++ ['/'])) =
      stripped (markSteps (wayText base directories)) := by
    rcases wayText_eq_nil_or base directories with none | ⟨front, some⟩
    · rw [none]
      decide
    · rw [some, List.dropLast_concat]
  rw [Path.fileKey]
  simp only [seen.relative, split]
  rw [← marked, keyChars, apply_ite String.ofList]
  rfl

/-- A text without capitals is its own segment. -/
private theorem segment_of_small {text : String} (small : ∀ c ∈ text.toList, c.isUpper = false) :
    Key.segment text = text := by
  have chars : Key.segmentChars text.toList = text.toList := by
    cases list : text.toList with
    | nil => rfl
    | cons c cs =>
      rw [list] at small
      have first : ¬ (c.val ≥ 'A'.val ∧ c.val ≤ 'Z'.val) := by
        have small := small c List.mem_cons_self
        unfold Char.isUpper at small
        simpa using small
      have rest : cs.flatMap Key.hyphenate = cs.flatMap ([·]) :=
        List.flatMap_congr fun d member => by
          rw [Key.hyphenate, small d (List.mem_cons_of_mem _ member), if_neg Bool.false_ne_true]
      have kept : c.toLower = c := dif_neg first
      rw [Key.segmentChars, kept, rest, List.flatMap_singleton']
  rw [Key.segment, chars, String.ofList_toList]

private theorem mem_of_mem_markSteps {c : Char} {cs : List Char} (member : c ∈ markSteps cs) :
    c = '#' ∨ c ∈ cs := by
  fun_induction markSteps cs with
  | case1 rest ih =>
    rcases List.mem_cons.mp member with mark | later
    · exact .inl mark
    · exact (ih later).imp_right fun inside => by simp [inside]
  | case2 d rest other ih =>
    rcases List.mem_cons.mp member with here | later
    · exact .inr (here ▸ List.mem_cons_self)
    · exact (ih later).imp_right (List.mem_cons_of_mem _)
  | case3 => cases member

/-- A key has no capitals that do not stand on the way to the file. -/
private theorem SeenFrom.small_fileKey (seen : SeenFrom base file directories name)
    (small : ∀ c ∈ (Path.relative base file).toList, c.isUpper = false) :
    ∀ c ∈ (Path.fileKey base file).toList, c.isUpper = false := by
  rw [seen.relative] at small
  rw [seen.fileKey, String.toList_ofList, keyChars]
  have ofName : ∀ c ∈ hyphened name.toList, c.isUpper = false := by
    intro c member
    obtain ⟨d, inside, rfl⟩ := List.mem_map.mp member
    split
    · rfl
    · exact small d (List.mem_append_right _ inside)
  have ofWay : ∀ c ∈ stripped (markSteps (wayText base directories)), c.isUpper = false := by
    intro c member
    rcases mem_of_mem_markSteps ((List.rdropWhile_prefix _ _).subset member) with rfl | inside
    · rfl
    · exact small c (List.mem_append_left _ inside)
  split
  · exact ofName
  · intro c member
    rcases List.mem_append.mp member with onWay | behind
    · exact ofWay c onWay
    · rcases List.mem_cons.mp behind with rfl | inName
      · rfl
      · exact ofName c inName

end Keys

/-- Files that are told apart by their keys. Seen from `base`, two files have the same key exactly if they are in
one directory and their names are the same once dots are hyphens. Where no capital letters stand on the ways from
`base`, the same holds of the segments that the keys of their declarations start with. -/
theorem fileKey_eq_iff {base file file' name name' : String} {directories directories' : List String}
    (seen : SeenFrom base file directories name) (seen' : SeenFrom base file' directories' name') :
    (fileKey base file = fileKey base file' ↔
      directories = directories' ∧ hyphened name.toList = hyphened name'.toList) ∧
    ((∀ c ∈ (relative base file).toList ++ (relative base file').toList, c.isUpper = false) →
      (Key.segment (fileKey base file) = Key.segment (fileKey base file') ↔
        directories = directories' ∧ hyphened name.toList = hyphened name'.toList)) := by
  have named : ∀ part ∈ directories, IsName part := fun part member =>
    seen.named part (List.mem_append_left _ member)
  have named' : ∀ part ∈ directories', IsName part := fun part member =>
    seen'.named part (List.mem_append_left _ member)
  have keys : fileKey base file = fileKey base file' ↔
      directories = directories' ∧ hyphened name.toList = hyphened name'.toList := by
    rw [seen.fileKey, seen'.fileKey, String.ofList_inj, keyChars_inj (not_mem_hyphened _) (not_mem_hyphened _),
      directories_eq_iff named named' seen.unmarked_way seen'.unmarked_way]
  refine ⟨keys, fun small => ?_⟩
  rw [segment_of_small (seen.small_fileKey fun c member => small c (List.mem_append_left _ member)),
    segment_of_small (seen'.small_fileKey fun c member => small c (List.mem_append_right _ member))]
  exact keys

/-- From `/p/types` the files `/p/shared/a.d.ts` and `/p/shared/a-d.ts` are not told apart, `/p/types/a.d.ts` is. -/
theorem fileKey_eq_iff_shared :
    SeenFrom "/p/types" "/p/shared/a.d.ts" ["p", "shared"] "a.d.ts" ∧
    SeenFrom "/p/types" "/p/shared/a-d.ts" ["p", "shared"] "a-d.ts" ∧
    SeenFrom "/p/types" "/p/types/a.d.ts" ["p", "types"] "a.d.ts" ∧
    fileKey "/p/types" "/p/shared/a.d.ts" = fileKey "/p/types" "/p/shared/a-d.ts" ∧
    Key.segment (fileKey "/p/types" "/p/shared/a.d.ts") ≠ Key.segment (fileKey "/p/types" "/p/types/a.d.ts") := by
  have named : ∀ part ∈ ["p", "shared", "types", "a.d.ts", "a-d.ts"], IsName part := by
    intro part member
    constructor
    · revert part
      decide +kernel
    · revert part
      decide +kernel
  have unmarked : ∀ file ∈ ["/p/shared/a.d.ts", "/p/shared/a-d.ts", "/p/types/a.d.ts"], ∀ front rest,
      (relative "/p/types" file).toList = front ++ '/' :: rest → '#' ∉ front := by
    intro file member front rest whole inside
    have absent : ∀ file ∈ ["/p/shared/a.d.ts", "/p/shared/a-d.ts", "/p/types/a.d.ts"],
        '#' ∉ (relative "/p/types" file).toList := by decide +kernel
    exact absent file member (whole ▸ List.mem_append_left _ inside)
  have first : SeenFrom "/p/types" "/p/shared/a.d.ts" ["p", "shared"] "a.d.ts" :=
    ⟨fun part member => named part (by revert part; decide), by decide +kernel, by decide +kernel,
      unmarked _ (by decide)⟩
  have second : SeenFrom "/p/types" "/p/shared/a-d.ts" ["p", "shared"] "a-d.ts" :=
    ⟨fun part member => named part (by revert part; decide), by decide +kernel, by decide +kernel,
      unmarked _ (by decide)⟩
  have third : SeenFrom "/p/types" "/p/types/a.d.ts" ["p", "types"] "a.d.ts" :=
    ⟨fun part member => named part (by revert part; decide), by decide +kernel, by decide +kernel,
      unmarked _ (by decide)⟩
  refine ⟨first, second, third, (fileKey_eq_iff first second).1.mpr ⟨rfl, by decide⟩, ?_⟩
  have small : ∀ c ∈ (relative "/p/types" "/p/shared/a.d.ts").toList ++ (relative "/p/types" "/p/types/a.d.ts").toList,
      c.isUpper = false := by
    intro c member
    have none : ((relative "/p/types" "/p/shared/a.d.ts").toList ++ (relative "/p/types" "/p/types/a.d.ts").toList).any
        Char.isUpper = false := by decide +kernel
    simpa using List.any_eq_false.mp none c member
  rw [Ne, (fileKey_eq_iff first third).2 small]
  decide

/-- Files with one key: names that differ in a dot, a directory that looks like a step up, and a directory above
`base`. Files with different keys whose declarations have the same first segment: names that differ in a
capital. -/
theorem fileKey_eq_of_different_files :
    (∀ file ∈ ["/p/a.ts", "/p/a-ts", "/p/q/a", "/p/p/#q/a", "/p", "/p/q/--", "/p/A", "/p/a"],
      isAbsolute file = true ∧ normalize file = file ∧ Component.parent ∉ components file) ∧
    fileKey "/p" "/p/a.ts" = fileKey "/p" "/p/a-ts" ∧
    fileKey "/p/p" "/p/q/a" = fileKey "/p/p" "/p/p/#q/a" ∧
    fileKey "/p/q/r" "/p" = fileKey "/p/q/r" "/p/q/--" ∧
    fileKey "/p" "/p/A" ≠ fileKey "/p" "/p/a" ∧
    Key.segment (fileKey "/p" "/p/A") = Key.segment (fileKey "/p" "/p/a") := by
  decide +kernel

end DocLocale.Path
