import DocLocale.Key.Segment

/-!
Doc records: how the flags of a declaration expand into translatable comment entries. A flag gives
one record, one per parameter, or one per language; a flag that does not fit the node's kind is
misplaced and gives none.
-/

set_option autoImplicit false
set_option relaxedAutoImplicit false

namespace DocLocale.Doc

/-- A translatable comment entry: its key and the text in front of the translation. -/
structure Record where
  key : String
  lead : String
  deriving DecidableEq, Repr

/-- A tag on a node whose kind does not take it. -/
structure Misplaced where
  tag : String
  node : String
  kind : Kind
  key : String
  deriving DecidableEq, Repr

/-- The wording for a misplaced tag. -/
def Misplaced.message (m : Misplaced) : String :=
  "'" ++ m.node ++ "' is a " ++ m.kind.label ++ ", which does not take a '" ++ m.tag ++ "' tag"

/-- Records in flag order, and the tags that could not be expanded. -/
structure Expansion where
  records : List Record := []
  misplaced : List Misplaced := []
  deriving DecidableEq, Repr

/-- A flag in its place: the node it belongs to, the key of that node, the flag's name, how often the
name occurs before it and how often in all. -/
structure Occurrence where
  node : Node
  key : String
  name : String
  earlier : Nat
  count : Nat

/-- The records of one flag. -/
def Occurrence.records (t : Tree) (languages : List String) (o : Occurrence) :
    Except Misplaced (List Record) :=
  let wrong : Misplaced := ⟨o.name, o.node.name, o.node.kind, o.key⟩
  match Tag.ofName? o.name with
  | some .deprecated => .ok [⟨o.key ++ ".deprecated", "@deprecated"⟩]
  | some .text =>
    .ok [⟨o.key ++ ".text" ++ toString o.earlier, if 1 < o.count then "@text" else ""⟩]
  | some .sample => .ok (languages.map fun l => ⟨o.key ++ ".example." ++ l, "@example"⟩)
  | some .params =>
    match o.node.body.signature? with
    | none => .error wrong
    | some s => .ok (s.parameters.map fun p =>
        ⟨o.key ++ ".param." ++ t.name p, "@param " ++ t.name p⟩)
  | some .returns =>
    if o.node.kind.isFunctionLike then .ok [⟨o.key ++ ".returns", "@returns"⟩] else .error wrong
  | none => .ok [⟨o.key ++ "." ++ o.name, "@" ++ o.name⟩]

/-- The occurrences of the flags `rest` behind the flags `before`. -/
def occurrences (node : Node) (key : String) (before : List String) :
    List String → List Occurrence
  | [] => []
  | name :: rest =>
    ⟨node, key, name, before.count name, (before ++ name :: rest).count name⟩ ::
      occurrences node key (before ++ [name]) rest

/-- Joins the records and misplaced tags of several flags. -/
def collect : List (Except Misplaced (List Record)) → Expansion
  | [] => {}
  | .ok rs :: rest => let e := collect rest; { e with records := rs ++ e.records }
  | .error m :: rest => let e := collect rest; { e with misplaced := m :: e.misplaced }

/-- Expands the active flags of a node. -/
def expand (t : Tree) (id : NodeId) (languages : List String) : Expansion :=
  match t.node? id with
  | none => {}
  | some node =>
    match node.flags with
    | none => {}
    | some flags =>
      collect ((occurrences node (Key.ofNode t id) [] flags.active).map
        (Occurrence.records t languages))

end DocLocale.Doc
