import DocLocale.Text.Blank

/-!
Reference directives: comments that name further declaration files by path.
-/

set_option autoImplicit false
set_option relaxedAutoImplicit false

namespace DocLocale.Source

/-- The text behind the given word, if the text starts with it. -/
def after? : List Char → List Char → Option (List Char)
  | [], cs => some cs
  | _ :: _, [] => none
  | w :: ws, c :: cs => if w = c then after? ws cs else none

theorem after?_append (word cs : List Char) : after? word (word ++ cs) = some cs := by
  induction word with
  | nil => rfl
  | cons w word ih => simp [after?, ih]

theorem eq_append_of_after? {word cs rest : List Char} (found : after? word cs = some rest) :
    cs = word ++ rest := by
  fun_induction after? word cs with
  | case1 cs => simpa using found
  | case2 => simp at found
  | case3 ws c cs ih => simp [ih found]
  | case4 => simp at found

/-- The end of a directive behind its closing quote. -/
def closing? (cs : List Char) : Option (List Char) :=
  after? ['/', '>'] (cs.dropWhile Text.isBlank)

/-- The longest text on the line up to a quote that closes the directive, and what follows it. -/
def pathTail? : List Char → Option (List Char × List Char)
  | [] => none
  | c :: cs =>
    if c = '\n' then none
    else
      match pathTail? cs with
      | some (path, rest) => some (c :: path, rest)
      | none => if c = '"' then (closing? cs).map fun rest => ([], rest) else none

/-- Reads the directive that a text starts with: its path, which is not empty, and what follows it. -/
def directive? (cs : List Char) : Option (List Char × List Char) := do
  let cs ← after? "///".toList cs
  let cs ← after? "<reference".toList (cs.dropWhile Text.isBlank)
  let blanks := cs.takeWhile Text.isBlank
  if blanks = [] then none
  else
    let cs ← after? "path=\"".toList (cs.dropWhile Text.isBlank)
    match cs with
    | [] => none
    | c :: cs =>
      if c = '\n' then none
      else
        let (path, rest) ← pathTail? cs
        return (c :: path, rest)

/-- The paths of the directives in a text, each searched for behind the one before. -/
def referencesFrom : Nat → List Char → List String
  | 0, _ => []
  | fuel + 1, cs =>
    match directive? cs with
    | some (path, rest) => String.ofList path :: referencesFrom fuel rest
    | none =>
      match cs with
      | [] => []
      | _ :: cs => referencesFrom fuel cs

/-- The paths named by the reference directives of a text, as written. -/
def referencePaths (text : String) : List String :=
  referencesFrom (text.toList.length + 1) text.toList

end DocLocale.Source
