import DocLocale.Command.Run
import DocLocale.Proofs.Project.Assembling
import DocLocale.Proofs.Render.MisplacedOrder
import Mathlib.Data.Prod.Lex
import Mathlib.Data.String.Basic

/-!
The order of issues. Sorting keeps the order of issues of one rank, so two lists that agree on every rank are
sorted alike. Main statement: writing the keys of a project and rendering it report the same issues in the
same order, though they meet the misplaced tags in different orders.
-/

set_option autoImplicit false
set_option relaxedAutoImplicit false

namespace DocLocale

open scoped List

namespace Issue

/-- What issues are sorted by, in the order of its parts. -/
def rank (i : Issue) : Nat ×ₗ String ×ₗ Nat ×ₗ Nat :=
  toLex (i.sortKey.1, toLex (i.sortKey.2.1, toLex (i.sortKey.2.2.1, i.sortKey.2.2.2)))

theorem le_iff {a b : Issue} : le a b = true ↔ a.rank ≤ b.rank := by
  simp [le, rank, Prod.Lex.le_iff]

private theorem le_trans' (a b c : Issue) (first : le a b = true) (second : le b c = true) :
    le a c = true :=
  le_iff.mpr (le_trans (le_iff.mp first) (le_iff.mp second))

private theorem le_total' (a b : Issue) : (le a b || le b a) = true := by
  rw [Bool.or_eq_true, le_iff, le_iff]
  exact le_total a.rank b.rank

/-- Sorting keeps the order of issues of one rank. -/
theorem filter_sort (issues : List Issue) (k : Nat ×ₗ String ×ₗ Nat ×ₗ Nat) :
    (sort issues).filter (·.rank = k) = issues.filter (·.rank = k) := by
  have equal : (issues.filter (·.rank = k)).Pairwise fun a b => le a b = true := by
    rw [List.pairwise_filter]
    refine List.pairwise_of_forall fun a b first second => le_iff.mpr ?_
    rw [of_decide_eq_true first, of_decide_eq_true second]
  have inside : issues.filter (·.rank = k) <+ sort issues :=
    List.sublist_mergeSort le_trans' le_total' equal List.filter_sublist
  have kept := inside.filter (·.rank = k)
  rw [List.filter_filter] at kept
  simp only [Bool.and_self] at kept
  have same : (sort issues).filter (·.rank = k) ~ issues.filter (·.rank = k) :=
    (List.mergeSort_perm issues le).filter _
  exact (kept.eq_of_length same.length_eq.symm).symm

private theorem mem_iff_of_filter_eq {first second : List Issue}
    (same : ∀ k, first.filter (·.rank = k) = second.filter (·.rank = k)) (i : Issue) :
    i ∈ first ↔ i ∈ second := by
  have here := congrArg (i ∈ ·) (same i.rank)
  simpa using here

/-- Sorted lists that agree on every rank are the same. -/
private theorem eq_of_filter_eq {first second : List Issue}
    (sorted : first.Pairwise fun a b => le a b = true) (also : second.Pairwise fun a b => le a b = true)
    (same : ∀ k, first.filter (·.rank = k) = second.filter (·.rank = k)) : first = second := by
  induction first generalizing second with
  | nil =>
    symm
    refine List.eq_nil_iff_forall_not_mem.mpr fun i member => ?_
    exact List.not_mem_nil ((mem_iff_of_filter_eq same i).mpr member)
  | cons a first ih =>
    have mem_iff := mem_iff_of_filter_eq same
    cases second with
    | nil => exact absurd ((mem_iff a).mp List.mem_cons_self) List.not_mem_nil
    | cons b second =>
      obtain ⟨least, sortedTail⟩ := List.pairwise_cons.mp sorted
      obtain ⟨least', alsoTail⟩ := List.pairwise_cons.mp also
      -- Both heads are least, and each list holds the other's head.
      have rank : a.rank = b.rank := by
        apply le_antisymm
        · rcases List.mem_cons.mp ((mem_iff b).mpr List.mem_cons_self) with rfl | member
          · exact le_rfl
          · exact le_iff.mp (least b member)
        · rcases List.mem_cons.mp ((mem_iff a).mp List.mem_cons_self) with rfl | member
          · exact le_rfl
          · exact le_iff.mp (least' a member)
      have heads := same a.rank
      simp only [List.filter_cons, rank, decide_true, if_true, List.cons.injEq] at heads
      obtain ⟨rfl, -⟩ := heads
      have tails : ∀ k, first.filter (·.rank = k) = second.filter (·.rank = k) := by
        intro k
        have whole := same k
        simp only [List.filter_cons] at whole
        split at whole
        · exact (List.cons.inj whole).2
        · exact whole
      exact congrArg (a :: ·) (ih sortedTail alsoTail tails)

/-- Lists that agree on every rank are sorted alike. -/
theorem sort_eq_of_filter_eq {first second : List Issue}
    (same : ∀ k, first.filter (·.rank = k) = second.filter (·.rank = k)) : sort first = sort second := by
  apply eq_of_filter_eq (List.pairwise_mergeSort le_trans' le_total' _)
    (List.pairwise_mergeSort le_trans' le_total' _)
  intro k
  exact (filter_sort first k).trans ((same k).trans (filter_sort second k).symm)

end Issue

namespace Command

/-- The issues of a project depend on the misplaced tags under each key only. -/
theorem allIssues_eq_of_filter_eq (p : Project.Loaded) {first second : List Doc.Misplaced}
    (same : ∀ key, first.filter (·.key = key) = second.filter (·.key = key)) :
    allIssues p first = allIssues p second := by
  apply Issue.sort_eq_of_filter_eq
  intro k
  have ranked : ∀ ms : List Doc.Misplaced, (ms.map Issue.misplacedTag).filter (·.rank = k) =
      ((ms.filter (·.key = (ofLex (ofLex k).2).1)).map Issue.misplacedTag).filter (·.rank = k) := by
    intro ms
    rw [List.filter_map, List.filter_map, List.filter_filter]
    congr 1
    apply List.filter_congr
    intro m _
    by_cases rank : (Issue.misplacedTag m).rank = k
    · have key : m.key = (ofLex (ofLex k).2).1 := by rw [← rank]; rfl
      simp [rank, key]
    · simp [rank]
  rw [List.filter_append, List.filter_append, ranked first, ranked second, same]

/-- The misplaced tags of the key map and those of rendering are reported alike. -/
theorem allIssues_renderWith {read? : Project.Reader} {inputs : List Project.Input} {p : Project.Loaded}
    (assembled : Project.assembleWith read? inputs = .ok p.assembly) (languages : List String)
    (language : String) (maxWidth : Nat) (style : Render.Style) (keys : KeyMap) :
    allIssues p (Render.renderWith p.assembly.tree languages language maxWidth style keys).2 =
      allIssues p (p.assembly.tree.keyMap languages).misplaced := by
  obtain ⟨wired, wellKinded⟩ := Project.wellKinded_of_assembleWith assembled
  let src : Render.Source := ⟨p.assembly.tree, .ofLanguage keys language maxWidth, languages⟩
  obtain ⟨text, rendered⟩ : ∃ text, Render.renderText src style = (.ok text, _) :=
    Render.renderText_ok wired wellKinded style
  rw [Render.renderWith, rendered]
  exact allIssues_eq_of_filter_eq p (wellKinded.filter_misplaced wired)

theorem exists_inputs_of_prepare {d : Disk} {c : Common} {s : Setting} (prepared : prepare d c = .ok s) :
    ∃ inputs, Project.assemble inputs = .ok s.project.assembly := by
  unfold prepare at prepared
  split at prepared
  · cases prepared
  · dsimp only at prepared
    split at prepared
    · cases prepared
    · rename_i p loaded
      cases prepared
      unfold Project.load at loaded
      split at loaded
      · cases loaded
      · split at loaded
        · cases loaded
        · rename_i inputs _
          split at loaded
          · cases loaded
          · rename_i a assembled
            cases loaded
            exact ⟨inputs, assembled⟩

private theorem issues_of_runKeys {colored : Colored} {d : Disk} {c : Common} {output : Option String}
    {merge : Bool} {done : Done} (ran : runKeys colored d c output merge = .ok done) :
    ∃ s, prepare d c = .ok s ∧ done.issues = allIssues s.project
      (s.project.assembly.tree.keyMap s.config.supportedLanguages).misplaced := by
  unfold runKeys at ran
  cases prepared : prepare d c with
  | error e =>
    rw [prepared] at ran
    cases ran
  | ok s =>
    rw [prepared] at ran
    refine ⟨s, rfl, ?_⟩
    simp only [bind, Except.bind] at ran
    split at ran
    · cases ran
    · split at ran
      · cases ran
      · cases ran
        rfl

private theorem issues_of_runRender {colored : Colored} {d : Disk} {c : Common}
    {keys language output : Option String} {done : Done}
    (ran : runRender colored d c keys language output = .ok done) :
    ∃ s, prepare d c = .ok s ∧ ∃ (language : String) (keys : KeyMap), done.issues = allIssues s.project
      (Render.renderWith s.project.assembly.tree s.config.supportedLanguages language
        s.config.commentMaxWidth s.config.style keys).2 := by
  unfold runRender at ran
  cases prepared : prepare d c with
  | error e =>
    rw [prepared] at ran
    cases ran
  | ok s =>
    rw [prepared] at ran
    simp only [bind, Except.bind] at ran
    split at ran
    · cases ran
    · rename_i map remark found
      refine ⟨s, rfl, language.getD s.config.language, map, ?_⟩
      split at ran
      · cases ran
      · rename_i text misplaced rendered
        split at ran
        · cases ran
        · cases ran
          rw [Render.renderWith, rendered]

/-- Writing keys and rendering report the same issues in the same order: for every project that is assembled
from files, whatever is read in them, and so for the commands themselves. -/
theorem issues_keys_eq_render :
    (∀ (read? : Project.Reader) (inputs : List Project.Input) (p : Project.Loaded),
      Project.assembleWith read? inputs = .ok p.assembly →
      ∀ (languages : List String) (language : String) (maxWidth : Nat) (style : Render.Style)
        (keys : KeyMap),
        allIssues p (p.assembly.tree.keyMap languages).misplaced =
          allIssues p (Render.renderWith p.assembly.tree languages language maxWidth style keys).2) ∧
    ∀ (colored : Colored) (d : Disk) (c : Common) (output : Option String) (merge : Bool)
      (keys language target : Option String) (written rendered : Done),
      runKeys colored d c output merge = .ok written →
      runRender colored d c keys language target = .ok rendered → written.issues = rendered.issues := by
  constructor
  · intro read? inputs p assembled languages language maxWidth style keys
    exact (allIssues_renderWith assembled languages language maxWidth style keys).symm
  · intro colored d c output merge keys language target written rendered wrote ran
    obtain ⟨s, prepared, fromKeys⟩ := issues_of_runKeys wrote
    obtain ⟨s', prepared', language, map, fromRender⟩ := issues_of_runRender ran
    obtain rfl := Except.ok.inj (prepared.symm.trans prepared')
    obtain ⟨inputs, assembled⟩ := exists_inputs_of_prepare prepared
    rw [fromKeys, fromRender, allIssues_renderWith assembled]

/-- One comment over two names that give the same key, with tags that variables do not take. -/
private def sharedComment : String :=
  "/**\n@returns\n@params\n*/\ndeclare const U: A, u: B;"

private theorem exists_ok_of_any {ε α : Type} {e : Except ε α} {test : α → Bool}
    (passed : e.toOption.any test = true) : ∃ a, e = .ok a ∧ test a = true := by
  cases e with
  | error _ => cases passed
  | ok a => exact ⟨a, rfl, passed⟩

theorem issues_keys_eq_render_shared :
    (∃ p : Project.Loaded, Project.assemble [⟨"i", "i.d.ts", sharedComment⟩] = .ok p.assembly ∧
      (p.assembly.tree.keyMap ["ts"]).misplaced.map (·.key) = ["i.u", "i.u", "i.u", "i.u"] ∧
      allIssues p (p.assembly.tree.keyMap ["ts"]).misplaced =
        allIssues p (Render.renderWith p.assembly.tree ["ts"] "en_us" 80 {} {}).2) ∧
    ∃ written rendered : Done,
      runKeys false ⟨[(["i.d.ts"], .text sharedComment)], []⟩ ⟨"i.d.ts", false, false⟩ none false =
        .ok written ∧
      runRender false ⟨[(["i.d.ts"], .text sharedComment)], []⟩ ⟨"i.d.ts", false, false⟩ none none none =
        .ok rendered ∧
      written.issues = rendered.issues := by
  constructor
  · have passed : (Project.assemble [⟨"i", "i.d.ts", sharedComment⟩]).toOption.any
        (fun a => (a.tree.keyMap ["ts"]).misplaced.map (·.key) = ["i.u", "i.u", "i.u", "i.u"]) = true := by
      decide +kernel
    obtain ⟨a, assembled, keys⟩ := exists_ok_of_any passed
    exact ⟨⟨a, [], []⟩, assembled, of_decide_eq_true keys,
      issues_keys_eq_render.1 _ _ ⟨a, [], []⟩ assembled ["ts"] "en_us" 80 {} {}⟩
  · have wrote : (runKeys false ⟨[(["i.d.ts"], .text sharedComment)], []⟩ ⟨"i.d.ts", false, false⟩ none
        false).toOption.any (fun _ => true) = true := by decide +kernel
    have printed : (runRender false ⟨[(["i.d.ts"], .text sharedComment)], []⟩ ⟨"i.d.ts", false, false⟩ none
        none none).toOption.any (fun _ => true) = true := by decide +kernel
    obtain ⟨written, wrote, -⟩ := exists_ok_of_any wrote
    obtain ⟨rendered, printed, -⟩ := exists_ok_of_any printed
    exact ⟨written, rendered, wrote, printed, issues_keys_eq_render.2 _ _ _ _ _ _ _ _ _ _ wrote printed⟩

end Command

end DocLocale
