import DocLocale.Proofs.Tree.Preorder
import DocLocale.Proofs.Key.Generated
import Mathlib.Data.List.Induction

/-!
The order of a walk and of the keys it records. A walk is compared with its stack run to the end, without
any bound on the number of visits. Main statement: the run stops on every finished tree, at the pre-order of
the whole of it, and the key map holds the keys of the records along that order, each where it first comes.
-/

set_option autoImplicit false
set_option relaxedAutoImplicit false

namespace DocLocale

open scoped List

/-- A key map filled from the records has their keys, each at its first place. -/
theorem KeyMap.keys_insertRecords_empty (records : List Doc.Record) :
    (KeyMap.insertRecords {} records).keys = (records.map (·.key)).eraseDups := by
  induction records using List.reverseRecOn with
  | nil => rfl
  | append_singleton records r ih =>
    have step : KeyMap.insertRecords {} (records ++ [r]) =
        ((KeyMap.insertRecords {} records).insert r.key (.text "")).1 :=
      KeyMap.insertRecords_append {} records [r]
    rw [step, KeyMap.keys_insert, ih, List.map_append, List.eraseDups_append]
    by_cases known : r.key ∈ records.map (·.key)
    · rw [if_pos (List.mem_eraseDups.mpr known)]
      simp [List.removeAll, List.mem_map.mp known]
    · rw [if_neg (mt List.mem_eraseDups.mp known)]
      simp [List.removeAll, mt List.mem_map.mpr known, List.eraseDups_cons]

/-- A map that waits for all its translations is given by its keys. -/
theorem KeyMap.Untranslated.entries_eq {m : KeyMap} (untranslated : m.Untranslated) :
    m.entries = m.keys.map fun key => (key, .string "") := by
  rw [KeyMap.keys, List.map_map]
  conv_lhs => rw [← List.map_id m.entries]
  apply List.map_congr_left
  intro e member
  exact Prod.ext rfl (untranslated e member)

namespace Tree

variable {t : Tree}

/-- The visits of a stack whose top is at its end. The node on top is visited, and its children take its
place in reverse, so that the first of them comes next. -/
inductive Visits (t : Tree) : List NodeId → List NodeId → Prop
  | done : Visits t [] []
  | next {stack order : List NodeId} {id : NodeId} :
      Visits t (stack ++ (t.children id).reverse) order → Visits t (stack ++ [id]) (id :: order)

namespace Wired

theorem visits_iff (wired : t.Wired) {stack order : List NodeId} (known : ∀ id ∈ stack, id < t.size) :
    t.Visits stack order ↔ order = stack.reverse.flatMap t.preorder := by
  have pushed : ∀ {rest : List NodeId} {id : NodeId}, (∀ i ∈ rest ++ [id], i < t.size) →
      ∀ i ∈ rest ++ (t.children id).reverse, i < t.size := by
    intro rest id known i member
    rcases List.mem_append.mp member with waiting | child
    · exact known i (List.mem_append_left _ waiting)
    · exact wired.spanning.child_lt (List.mem_reverse.mp child)
  -- What is to come of a stack is the visit of its top and what is to come after that.
  have popped : ∀ {rest : List NodeId} {id : NodeId}, (∀ i ∈ rest ++ [id], i < t.size) →
      (rest ++ [id]).reverse.flatMap t.preorder =
        id :: (rest ++ (t.children id).reverse).reverse.flatMap t.preorder := by
    intro rest id known
    simp [wired.preorder_eq (known id (by simp)), List.flatMap_append]
  constructor
  · intro run
    induction run with
    | done => rfl
    | next _ ih => rw [popped known, ih (pushed known)]
  · intro same
    induction order generalizing stack with
    | nil =>
      rcases List.eq_nil_or_concat stack with rfl | ⟨rest, id, rfl⟩
      · exact .done
      · rw [List.concat_eq_append] at known same
        rw [popped known] at same
        cases same
    | cons first order ih =>
      rcases List.eq_nil_or_concat stack with rfl | ⟨rest, id, rfl⟩
      · cases same
      · rw [List.concat_eq_append] at known same ⊢
        rw [popped known] at same
        obtain ⟨rfl, later⟩ := List.cons.inj same
        exact .next (ih (pushed known) later)

private theorem preorder_child_sublist (wired : t.Wired) {p c : NodeId} (member : c ∈ t.children p) :
    t.preorder c <+ t.preorder p := by
  rw [wired.preorder_eq (lt_size_of_mem_children member), List.flatMap]
  exact (List.sublist_flatten_of_mem (List.mem_map_of_mem member)).trans (List.sublist_cons_self _ _)

private theorem preorder_sublist_walk (wired : t.Wired) {id : NodeId} (bound : id < t.size) :
    t.preorder id <+ t.walk := by
  rw [wired.walk_eq_preorder]
  induction wired.spanning.connected id bound with
  | root => exact List.Sublist.refl _
  | child _ member ih =>
    exact (wired.preorder_child_sublist member).trans (ih (lt_size_of_mem_children member))

/-- A walk comes by a node and its children in their order. -/
theorem children_sublist_walk (wired : t.Wired) {id : NodeId} (bound : id < t.size) :
    id :: t.children id <+ t.walk := by
  refine List.Sublist.trans ?_ (wired.preorder_sublist_walk bound)
  rw [wired.preorder_eq bound]
  refine List.Sublist.cons_cons id ?_
  have heads : ∀ cs : List NodeId, (∀ c ∈ cs, c < t.size) → cs <+ cs.flatMap t.preorder := by
    intro cs known
    induction cs with
    | nil => exact List.Sublist.refl _
    | cons c cs ih =>
      rw [List.flatMap_cons, wired.preorder_eq (known c List.mem_cons_self), List.cons_append]
      have later := ih fun d member => known d (List.mem_cons_of_mem _ member)
      exact List.Sublist.cons_cons c (later.trans (List.sublist_append_right _ _))
  exact heads _ fun c member => wired.spanning.child_lt member

end Wired

/-- On a finished tree the stack run stops, at the pre-order from the root. This order has every node once,
owners before what they own and siblings as they are declared; the key map holds the keys of the records
along it without their repetitions, and nothing translated. -/
theorem walk_keyMap_preorder {nodes : Array Node} {root : NodeId} (finished : finish nodes root = .ok t) :
    (∀ order, t.Visits [t.root] order ↔ order = t.walk) ∧
      (t.walk = t.preorder t.root ∧
        ∀ id n, t.node? id = some n → t.preorder id = id :: n.body.children.flatMap t.preorder) ∧
      (∀ id n, t.node? id = some n →
        id :: n.body.children <+ t.walk ∧
          (∀ s interfaces, n.body = .classDecl s interfaces ∨ n.body = .interface s →
            s.properties ++ s.methods ++ s.typeParameters <+ t.walk) ∧
          ∀ s, n.body.signature? = some s → s.parameters ++ s.typeParameters <+ t.walk) ∧
      t.walk ~ List.range t.size ∧
      ∀ languages, (t.keyMap languages).keys.entries =
        (t.walk.flatMap fun id => (Doc.expand t id languages).records.map (·.key)).eraseDups.map
          fun key => (key, .string "") := by
  have wired := wired_of_finish finished
  have owned : ∀ {id : NodeId} {n : Node}, t.node? id = some n → t.children id = n.body.children := by
    intro id n found
    rw [children, found]
  refine ⟨fun order => ?_, ⟨wired.walk_eq_preorder, fun id n found => ?_⟩, fun id n found => ?_,
    walk_perm_range wired.spanning, fun languages => ?_⟩
  · rw [wired.visits_iff (by simpa using wired.spanning.root_lt), wired.walk_eq_preorder]
    simp
  · rw [← owned found]
    exact wired.preorder_eq (lt_size_of_node? found)
  · have along := wired.children_sublist_walk (lt_size_of_node? found)
    rw [owned found] at along
    have below := (List.sublist_cons_self id n.body.children).trans along
    refine ⟨along, fun s interfaces shape => ?_, fun s signature => ?_⟩
    · rcases shape with same | same <;> simpa only [same, Body.children] using below
    · have same : n.body.children = s.parameters ++ s.typeParameters := by
        cases body : n.body <;> simp_all [Body.signature?, Body.children]
      exact same ▸ below
  · rw [untranslated_keyMap.entries_eq, keys_keyMap, KeyMap.keys_insertRecords_empty, List.map_flatMap]

/-- A class whose members and generic stand before and behind it in the store, and an interface of the same
name: the key of the interface is there already. -/
theorem walk_keyMap_preorder_class :
    let flags : Option Doc.Flags := some ⟨true, ["text"]⟩
    let nodes : Array Node :=
      #[⟨"C", flags, .classDecl { properties := [5], methods := [3], typeParameters := [1] } [], none⟩,
        ⟨"T", none, .typeParameter none, none⟩, ⟨"", none, .root [0, 4], none⟩,
        ⟨"m", flags, .method { parameters := [6] } [], none⟩, ⟨"C", flags, .interface {}, none⟩,
        ⟨"p", flags, .property (.basic .any) false [], none⟩,
        ⟨"a", none, .param (.basic .any) false false, none⟩]
    ∃ t, finish nodes 2 = .ok t ∧ t.Visits [2] [2, 0, 5, 3, 6, 1, 4] ∧
      (t.keyMap []).keys.entries =
        [("c.text0", .string ""), ("c.p.text0", .string ""), ("c.m.text0", .string "")] := by
  intro flags nodes
  have finished : finish nodes 2 = .ok _ := rfl
  obtain ⟨run, -, -, -, entries⟩ := walk_keyMap_preorder finished
  refine ⟨_, finished, (run _).mpr (by decide), (entries []).trans ?_⟩
  change List.map _ _ = ["c.text0", "c.p.text0", "c.m.text0"].map fun key => (key, Json.string "")
  exact congrArg _ (by decide +kernel)

end Tree

end DocLocale
