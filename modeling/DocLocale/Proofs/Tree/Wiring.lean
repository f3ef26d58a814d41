import DocLocale.Proofs.Tree.Spanning

/-!
The pass that links nodes to their owners, one owner at a time. Main statement: finishing accepts exactly
the spanning trees, and the parents it records are the owners.
-/

set_option autoImplicit false
set_option relaxedAutoImplicit false

namespace DocLocale.Tree

open scoped List

variable {t : Tree}

/-- The nodes met so far: the root and every linked node. -/
private def met (t : Tree) (links : List (NodeId × NodeId)) : List NodeId :=
  t.root :: links.map Prod.fst

private theorem taken_iff {links : List (NodeId × NodeId)} {c : NodeId} :
    (decide (c = t.root) || links.any fun l => l.1 == c) = true ↔ c ∈ t.met links := by
  simp [met]

/-- An owner's children are all linked if they exist, are distinct and have not been met. -/
private theorem claim_eq_ok_iff {owner : NodeId} {cs : List NodeId} {w w' : Wiring} :
    t.claim owner cs w = .ok w' ↔
      (∀ c ∈ cs, c < t.size ∧ c ∉ t.met w.links) ∧ cs.Nodup ∧
        w' = ⟨cs.reverse.map (·, owner) ++ w.links, cs.reverse ++ w.pending⟩ := by
  induction cs generalizing w with
  | nil => simp [claim, eq_comm]
  | cons c cs ih =>
    simp only [claim]
    cases found : t.node? c with
    | none =>
      have missing : ¬ c < t.size := by
        intro bound
        obtain ⟨n, present⟩ := exists_node? bound
        simp [found] at present
      simp [missing]
    | some n =>
      have bound : c < t.size := lt_size_of_node? found
      by_cases taken : c ∈ t.met w.links
      · simp only [taken_iff.mpr taken, if_true]
        constructor
        · intro impossible
          cases impossible
        · rintro ⟨free, -, -⟩
          exact absurd taken (free c List.mem_cons_self).2
      · simp only [mt taken_iff.mp taken, Bool.false_eq_true, if_false]
        rw [ih]
        constructor
        · rintro ⟨rest, nodup, rfl⟩
          refine ⟨?_, ?_, by simp⟩
          · intro d member
            rcases List.mem_cons.mp member with rfl | member
            · exact ⟨bound, taken⟩
            · have fresh := (rest d member).2
              simp only [met, List.map_cons, List.mem_cons, not_or] at fresh ⊢
              exact ⟨(rest d member).1, fresh.1, fresh.2.2⟩
          · refine List.nodup_cons.mpr ⟨?_, nodup⟩
            intro member
            have fresh := (rest c member).2
            simp [met] at fresh
        · rintro ⟨all, nodup, rfl⟩
          obtain ⟨new, nodup⟩ := List.nodup_cons.mp nodup
          refine ⟨?_, nodup, by simp⟩
          intro d member
          have fresh := all d (List.mem_cons_of_mem c member)
          have differ : d ≠ c := fun same => new (same ▸ member)
          simp only [met, List.map_cons, List.mem_cons, not_or] at fresh ⊢
          exact ⟨fresh.1, fresh.2.1, differ, fresh.2.2⟩

/-- What holds between two owners: of the nodes met, those in `done` have had their children linked, and
the links are the entries of their child lists. -/
private structure Progress (t : Tree) (done : List NodeId) (w : Wiring) : Prop where
  split : done ++ w.pending ~ t.met w.links
  nodup : (t.met w.links).Nodup
  known : ∀ id ∈ t.met w.links, id < t.size
  links : w.links ~ done.flatMap fun p => (t.children p).map (·, p)
  reached : ∀ id ∈ t.met w.links, t.Reached id

namespace Progress

private theorem start (bound : t.root < t.size) : t.Progress [] ⟨[], [t.root]⟩ where
  split := by simp [met]
  nodup := by simp [met]
  known := by simpa [met] using bound
  links := by simp
  reached := by simpa [met] using Reached.root

private theorem step {done pending : List NodeId} {links : List (NodeId × NodeId)} {id : NodeId}
    {w : Wiring} (progress : t.Progress done ⟨links, id :: pending⟩)
    (run : t.claim id (t.children id) ⟨links, pending⟩ = .ok w) : t.Progress (id :: done) w := by
  obtain ⟨free, nodup, rfl⟩ := claim_eq_ok_iff.mp run
  have more : t.met ((t.children id).reverse.map (·, id) ++ links) ~
      t.children id ++ t.met links := by
    simp only [met, List.map_append, List.map_map, Function.comp_def, List.map_id']
    exact List.perm_middle.symm.trans ((List.reverse_perm _).append_right _)
  have owner : t.Reached id := progress.reached id (progress.split.subset (by simp))
  refine ⟨?_, ?_, ?_, ?_, ?_⟩
  · calc (id :: done) ++ ((t.children id).reverse ++ pending)
      _ ~ t.children id ++ (done ++ id :: pending) := by
        rw [List.perm_iff_count]
        intro a
        simp only [List.cons_append, List.count_append, List.count_cons, List.count_reverse]
        omega
      _ ~ t.children id ++ t.met links := progress.split.append_left _
      _ ~ t.met ((t.children id).reverse.map (·, id) ++ links) := more.symm
  · refine more.nodup_iff.mpr (List.nodup_append'.mpr ⟨nodup, progress.nodup, ?_⟩)
    intro c member old
    exact (free c member).2 old
  · intro c member
    rcases List.mem_append.mp (more.subset member) with new | old
    · exact (free c new).1
    · exact progress.known c old
  · simp only [List.flatMap_cons]
    exact ((List.reverse_perm _).map _).append progress.links
  · intro c member
    rcases List.mem_append.mp (more.subset member) with new | old
    · exact .child owner new
    · exact progress.reached c old

/-- The nodes met are distinct nodes of the tree, so an owner is never taken up without need. -/
private theorem length_done_le {done : List NodeId} {w : Wiring} (progress : t.Progress done w) :
    done.length + w.pending.length ≤ t.size := by
  have bounded : (t.met w.links).length ≤ (List.range t.size).length :=
    progress.nodup.length_le_of_subset fun id member =>
      List.mem_range.mpr (progress.known id member)
  rw [← progress.split.length_eq] at bounded
  simpa using bounded

/-- A pass that runs to its end has linked the children of every node it met. -/
private theorem run {fuel : Nat} {done : List NodeId} {w w' : Wiring}
    (progress : t.Progress done w) (enough : t.size < fuel + done.length)
    (ran : t.wire fuel w = .ok w') : ∃ done, t.Progress done w' ∧ w'.pending = [] := by
  induction fuel generalizing done w with
  | zero =>
    have := progress.length_done_le
    omega
  | succ fuel ih =>
    obtain ⟨links, pending⟩ := w
    cases pending with
    | nil =>
      simp only [wire, Except.ok.injEq] at ran
      subst ran
      exact ⟨done, progress, rfl⟩
    | cons id pending =>
      simp only [wire] at ran
      split at ran
      · rename_i next claimed
        exact ih (progress.step claimed) (by simp only [List.length_cons]; omega) ran
      · cases ran

private theorem mem_links_iff {done : List NodeId} {w : Wiring} (progress : t.Progress done w)
    {c p : NodeId} : (c, p) ∈ w.links ↔ p ∈ done ∧ c ∈ t.children p := by
  rw [progress.links.mem_iff]
  simp only [List.mem_flatMap, List.mem_map, Prod.mk.injEq]
  constructor
  · rintro ⟨q, past, d, member, rfl, rfl⟩
    exact ⟨past, member⟩
  · rintro ⟨past, member⟩
    exact ⟨p, past, c, member, rfl, rfl⟩

/-- Nothing stops the pass in a spanning tree: a child met before its owner's turn would have a second
owner. -/
private theorem runs (spanning : t.Spanning) {done : List NodeId} {w : Wiring}
    (progress : t.Progress done w) (fuel : Nat) : ∃ w', t.wire fuel w = .ok w' := by
  induction fuel generalizing done w with
  | zero => exact ⟨w, rfl⟩
  | succ fuel ih =>
    obtain ⟨links, pending⟩ := w
    cases pending with
    | nil => exact ⟨_, rfl⟩
    | cons id pending =>
      have waiting : id ∉ done := by
        have nodup := progress.split.nodup_iff.mpr progress.nodup
        intro past
        exact (List.nodup_append'.mp nodup).2.2 past List.mem_cons_self
      have free : ∀ c ∈ t.children id, c < t.size ∧ c ∉ t.met links := by
        intro c member
        refine ⟨spanning.child_lt member, ?_⟩
        intro old
        rcases List.mem_cons.mp old with rfl | old
        · exact spanning.child_ne_root member rfl
        · obtain ⟨⟨d, p⟩, linked, rfl⟩ := List.mem_map.mp old
          obtain ⟨past, also⟩ := progress.mem_links_iff.mp linked
          exact waiting (spanning.owner_unique also member ▸ past)
      have claimed : t.claim id (t.children id) ⟨links, pending⟩ = .ok _ :=
        claim_eq_ok_iff.mpr ⟨free, spanning.children_nodup id, rfl⟩
      simp only [wire, claimed]
      exact ih (progress.step claimed)

end Progress

/-- The links of a pass that came to its end and met every node. -/
private structure Complete (t : Tree) (links : List (NodeId × NodeId)) : Prop where
  nodup : (t.met links).Nodup
  all : ∀ id, id ∈ t.met links ↔ id < t.size
  mem_iff : ∀ c p, (c, p) ∈ links ↔ c ∈ t.children p
  entries : links.map Prod.fst ~ t.entries
  reached : ∀ id < t.size, t.Reached id

private theorem Progress.complete {done : List NodeId} {w : Wiring} (progress : t.Progress done w)
    (finished : w.pending = []) (all : ∀ id < t.size, id ∈ t.met w.links) :
    t.Complete w.links := by
  have met_iff : ∀ id, id ∈ t.met w.links ↔ id < t.size :=
    fun id => ⟨progress.known id, all id⟩
  have done_met : done ~ t.met w.links := by
    simpa [finished] using progress.split
  have done_all : done ~ List.range t.size := by
    refine (List.perm_ext_iff_of_nodup (done_met.nodup_iff.mpr progress.nodup)
      List.nodup_range).mpr fun id => ?_
    rw [done_met.mem_iff, met_iff, List.mem_range]
  refine ⟨progress.nodup, met_iff, ?_, ?_, fun id bound => progress.reached id (all id bound)⟩
  · intro c p
    rw [progress.mem_links_iff, done_all.mem_iff, List.mem_range]
    exact ⟨And.right, fun member => ⟨lt_size_of_mem_children member, member⟩⟩
  · calc w.links.map Prod.fst
      _ ~ (done.flatMap fun p => (t.children p).map (·, p)).map Prod.fst := progress.links.map _
      _ = done.flatMap t.children := by
        simp [List.map_flatMap, Function.comp_def]
      _ ~ t.entries := done_all.flatMap_right _

namespace Complete

variable {links : List (NodeId × NodeId)}

private theorem spanning (complete : t.Complete links)
    (rooted : ∃ n, t.node? t.root = some n ∧ n.kind = .root) : t.Spanning := by
  obtain ⟨unlinked, nodup⟩ := List.nodup_cons.mp complete.nodup
  refine ⟨rooted, ?_, ?_, ?_, complete.reached⟩
  · intro c member
    exact (complete.all c).mp (List.mem_cons_of_mem _ (complete.entries.mem_iff.mpr member))
  · rwa [← complete.entries.mem_iff]
  · intro c bound proper
    rw [← complete.entries.count_eq]
    rcases List.mem_cons.mp ((complete.all c).mpr bound) with same | linked
    · exact absurd same proper
    · exact List.count_eq_one_of_mem nodup linked

private theorem ownerIn_eq_some_iff (complete : t.Complete links) {c p : NodeId} :
    ownerIn links c = some p ↔ c ∈ t.children p := by
  rw [← complete.mem_iff]
  have nodup := (List.nodup_cons.mp complete.nodup).2
  simp only [ownerIn, Option.map_eq_some_iff, Prod.exists]
  constructor
  · rintro ⟨d, q, found, rfl⟩
    have same : d = c := by simpa using List.find?_some found
    exact same ▸ List.mem_of_find?_eq_some found
  · intro member
    cases found : links.find? fun l => l.1 == c with
    | none =>
      have none := List.find?_eq_none.mp found _ member
      simp at none
    | some l =>
      have same : l.1 = c := by simpa using List.find?_some found
      have equal : l = (c, p) :=
        List.inj_on_of_nodup_map nodup (List.mem_of_find?_eq_some found) member same
      exact ⟨c, p, equal ▸ rfl, rfl⟩

end Complete

private theorem ownerIn_eq_none_iff {links : List (NodeId × NodeId)} {id : NodeId} :
    ownerIn links id = none ↔ id ∉ links.map Prod.fst := by
  simp only [ownerIn, Option.map_eq_none_iff, List.find?_eq_none, List.mem_map, not_exists, not_and]
  constructor
  · intro absent l member same
    exact absent l member (by simpa using same)
  · intro absent l member same
    exact absent l member (by simpa using same)

/-- A tree whose parents are read off complete links. -/
private def linked (t : Tree) (links : List (NodeId × NodeId)) : Tree :=
  { t with nodes := t.nodes.mapIdx fun id n => { n with parent := ownerIn links id } }

private theorem complete_of_assignParents {t' : Tree} (passed : t.assignParents = .ok t') :
    (∃ n, t.node? t.root = some n ∧ n.kind = .root) ∧
      ∃ links, t.Complete links ∧ t' = t.linked links := by
  unfold assignParents at passed
  split at passed
  · cases passed
  · rename_i n found
    split_ifs at passed with kind
    have rooted : n.kind = .root := by simpa using kind
    split at passed
    · cases passed
    · rename_i w ran
      split at passed
      · cases passed
      · rename_i attached
        have start := Progress.start (lt_size_of_node? found)
        obtain ⟨done, progress, finished⟩ := start.run (by simp) ran
        have all : ∀ id < t.size, id ∈ t.met w.links := by
          intro id bound
          have owned := List.find?_eq_none.mp attached id (List.mem_range.mpr bound)
          by_contra unmet
          obtain ⟨proper, free⟩ := not_or.mp (mt List.mem_cons.mpr unmet)
          simp [proper, ownerIn_eq_none_iff.mpr free] at owned
        exact ⟨⟨n, found, rooted⟩, w.links, progress.complete finished all,
          (Except.ok.inj passed).symm⟩

private theorem assignParents_of_spanning (spanning : t.Spanning) :
    ∃ t', t.assignParents = .ok t' := by
  obtain ⟨n, found, kind⟩ := spanning.rooted
  have start := Progress.start spanning.root_lt
  obtain ⟨w, ran⟩ := start.runs spanning (t.size + 1)
  obtain ⟨done, progress, finished⟩ := start.run (by simp) ran
  have done_met : done ~ t.met w.links := by
    simpa [finished] using progress.split
  have all : ∀ id, t.Reached id → id ∈ t.met w.links := by
    intro id reached
    induction reached with
    | root => exact List.mem_cons_self
    | child _ member ih =>
      have linked := progress.mem_links_iff.mpr ⟨done_met.mem_iff.mpr ih, member⟩
      exact List.mem_cons_of_mem _ (List.mem_map_of_mem linked)
  have attached : (List.range t.size).find?
      (fun id => id ≠ t.root && (ownerIn w.links id).isNone) = none := by
    rw [List.find?_eq_none]
    intro id member
    have bound := List.mem_range.mp member
    rcases List.mem_cons.mp (all id (spanning.connected id bound)) with same | linked
    · simp [same]
    · have owned : ownerIn w.links id ≠ none := fun none =>
        ownerIn_eq_none_iff.mp none linked
      simp [owned]
  refine ⟨t.linked w.links, ?_⟩
  simp only [assignParents, found, kind, ran, attached]
  rfl

private theorem node?_linked (links : List (NodeId × NodeId)) (id : NodeId) :
    (t.linked links).node? id =
      (t.node? id).map fun n => { n with parent := ownerIn links id } := by
  simp [node?, linked]

private theorem children_linked (links : List (NodeId × NodeId)) :
    (t.linked links).children = t.children := by
  funext id
  simp only [children, node?_linked]
  cases t.node? id <;> rfl

private theorem spanning_linked (links : List (NodeId × NodeId)) (spanning : t.Spanning) :
    (t.linked links).Spanning := by
  obtain ⟨n, found, kind⟩ := spanning.rooted
  refine spanning.transfer rfl (by simp [size, linked]) (children_linked links)
    ⟨{ n with parent := ownerIn links t.root }, ?_, kind⟩
  rw [node?_linked, show (t.linked links).root = t.root from rfl, found, Option.map_some]

private theorem parent?_linked {links : List (NodeId × NodeId)} (complete : t.Complete links)
    {c p : NodeId} : (t.linked links).parent? c = some p ↔ c ∈ t.children p := by
  rw [← complete.ownerIn_eq_some_iff]
  simp only [parent?, node?_linked]
  cases found : t.node? c with
  | none =>
    have unowned : ownerIn links c ≠ some p := by
      intro owned
      have member := (complete.mem_iff c p).mpr (complete.ownerIn_eq_some_iff.mp owned)
      have bound := (complete.all c).mp (List.mem_cons_of_mem _ (List.mem_map_of_mem member))
      obtain ⟨n, present⟩ := exists_node? bound
      simp [found] at present
    simp [unowned]
  | some n => simp

private theorem wired_linked {links : List (NodeId × NodeId)} (complete : t.Complete links)
    (rooted : ∃ n, t.node? t.root = some n ∧ n.kind = .root) : (t.linked links).Wired where
  spanning := spanning_linked links (complete.spanning rooted)
  owners c p := by rw [parent?_linked complete, children_linked]

/-- A finished tree is wired. -/
theorem wired_of_finish {nodes : Array Node} {root : NodeId} (finished : finish nodes root = .ok t) :
    t.Wired := by
  obtain ⟨rooted, links, complete, rfl⟩ := complete_of_assignParents finished
  exact wired_linked complete rooted

/-- A spanning tree is finished without error. -/
theorem exists_finish {nodes : Array Node} {root : NodeId} (spanning : Spanning ⟨nodes, root⟩) :
    ∃ t, finish nodes root = .ok t :=
  assignParents_of_spanning spanning

theorem root_of_finish {nodes : Array Node} {root : NodeId} (finished : finish nodes root = .ok t) :
    t.root = root := by
  obtain ⟨-, links, -, rfl⟩ := complete_of_assignParents finished
  rfl

/-- Finishing changes no node but for its parent. -/
theorem node?_of_finish {nodes : Array Node} {root : NodeId} (finished : finish nodes root = .ok t)
    (id : NodeId) : t.node? id = nodes[id]?.map fun n => { n with parent := t.parent? id } := by
  obtain ⟨-, links, -, rfl⟩ := complete_of_assignParents finished
  simp only [parent?, node?_linked]
  simp only [node?]
  cases nodes[id]? <;> rfl

namespace Wired

theorem parent?_root (wired : t.Wired) : t.parent? t.root = none := by
  cases owner : t.parent? t.root with
  | none => rfl
  | some p => exact absurd rfl (wired.spanning.child_ne_root ((wired.owners _ p).mp owner))

/-- A second pass finds the owners that are already there. -/
theorem assignParents_eq (wired : t.Wired) : t.assignParents = .ok t := by
  obtain ⟨u, passed⟩ := assignParents_of_spanning wired.spanning
  obtain ⟨-, links, complete, rfl⟩ := complete_of_assignParents passed
  have same : t.linked links = t := by
    have owners : ∀ id, (t.linked links).parent? id = t.parent? id := by
      intro id
      apply Option.ext
      intro p
      rw [parent?_linked complete, wired.owners]
    have nodes : t.nodes.mapIdx (fun id n => { n with parent := ownerIn links id }) = t.nodes := by
      apply Array.ext_getElem?
      intro id
      have owner := owners id
      simp only [parent?, node?_linked] at owner
      simp only [Array.getElem?_mapIdx]
      cases found : t.nodes[id]? with
      | none => rfl
      | some n =>
        simp only [node?, found, Option.map_some, Option.bind_some] at owner
        simp [owner]
    simp only [linked, nodes]
  rw [passed, same]

end Wired

theorem rewire_of_ok {wired : Tree} (passed : t.assignParents = .ok wired) :
    rewire t = .ok () wired := by
  change EStateM.run rewire t = .ok () wired
  rw [rewire, EStateM.run_bind, EStateM.run_get]
  dsimp only
  rw [passed]
  rfl

theorem rewire_of_error {e : TreeError} (failed : t.assignParents = .error e) :
    rewire t = .error e t := by
  change EStateM.run rewire t = .error e t
  rw [rewire, EStateM.run_bind, EStateM.run_get]
  dsimp only
  rw [failed]
  rfl

/-- A node as it was added, whatever its parent. -/
def unlinked (n : Node) : Node := { n with parent := none }

/-- Finishing accepts exactly the spanning trees. It records the owners and changes nothing else, a second
pass changes nothing at all, and a pass that fails leaves the tree alone. -/
theorem finish_ok_iff_spanning (nodes : Array Node) (root : NodeId) :
    ((∃ t, finish nodes root = .ok t) ↔ Spanning ⟨nodes, root⟩) ∧
      (∀ t, finish nodes root = .ok t →
        (∀ c p, t.parent? c = some p ↔ c ∈ t.children p) ∧ t.parent? t.root = none ∧
          t.root = root ∧ t.nodes.map unlinked = nodes.map unlinked ∧ rewire t = .ok () t) ∧
      ∀ (t u : Tree) (e : TreeError), rewire t = .error e u → u = t := by
  refine ⟨⟨?_, assignParents_of_spanning⟩, ?_, ?_⟩
  · rintro ⟨t, finished⟩
    obtain ⟨rooted, links, complete, -⟩ := complete_of_assignParents finished
    exact complete.spanning rooted
  · intro t finished
    have wired := wired_of_finish finished
    obtain ⟨-, links, -, rfl⟩ := complete_of_assignParents finished
    refine ⟨wired.owners, wired.parent?_root, rfl, ?_, ?_⟩
    · apply Array.ext_getElem?
      intro id
      simp only [linked, Array.getElem?_map, Array.getElem?_mapIdx, Option.map_map]
      rfl
    · exact rewire_of_ok wired.assignParents_eq
  · intro t u e failed
    cases outcome : t.assignParents with
    | ok wired =>
      rw [rewire_of_ok outcome] at failed
      cases failed
    | error cause =>
      rw [rewire_of_error outcome] at failed
      cases failed
      rfl

/-- A variable in a namespace whose parent was made up is put right; a node that owns itself is refused. -/
theorem finish_ok_iff_spanning_examples :
    (∃ t, finish #[⟨"v", none, .var (.basic .any) true, some 7⟩,
        ⟨"A", none, .namespaceDecl [0], none⟩, ⟨"", none, .root [1], none⟩] 2 = .ok t ∧
      t.parent? 0 = some 1 ∧ t.parent? t.root = none ∧ rewire t = .ok () t) ∧
    ∃ e u, rewire ⟨#[⟨"A", none, .namespaceDecl [0], none⟩, ⟨"", none, .root [], none⟩], 1⟩ =
      .error e u ∧ u = ⟨#[⟨"A", none, .namespaceDecl [0], none⟩, ⟨"", none, .root [], none⟩], 1⟩ := by
  refine ⟨?_, ⟨_, _, rfl, (finish_ok_iff_spanning #[] 0).2.2 _ _ _ rfl⟩⟩
  have finished : finish #[⟨"v", none, .var (.basic .any) true, some 7⟩,
      ⟨"A", none, .namespaceDecl [0], none⟩, ⟨"", none, .root [1], none⟩] 2 = .ok _ := rfl
  obtain ⟨owners, top, -, -, again⟩ := (finish_ok_iff_spanning _ 2).2.1 _ finished
  exact ⟨_, finished, (owners 0 1).mpr (by decide), top, again⟩

end DocLocale.Tree
