import DocLocale.Proofs.Render.CodeRows

/-!
The texts that declarations are printed with, in the form in which the grammar reads them.
-/

set_option autoImplicit false
set_option relaxedAutoImplicit false

namespace DocLocale

open Source.Grammar

namespace Render

/-! ### Tokens -/

private theorem toList_intercalate_blank (first : String) (rest : List String) :
    (" ".intercalate (first :: rest)).toList = first.toList ++ rest.flatMap fun s => ' ' :: s.toList := by
  induction rest generalizing first with
  | nil => simp
  | cons second rest ih =>
    rw [String.intercalate_cons_cons, String.toList_append, String.toList_append, ih, List.flatMap_cons]
    simp

/-- Tokens stand behind the first one with a blank in front of each; empty ones are left out. -/
theorem toList_tokenText {first : String} (nonempty : first ≠ "") (rest : List String) :
    (tokenText (first :: rest)).toList = first.toList ++ rest.flatMap fun s => if s = "" then [] else ' ' :: s.toList := by
  have kept : (fun t : String => !t.isEmpty) first = true := by simpa using nonempty
  rw [tokenText, List.filter_cons_of_pos (p := fun t : String => !t.isEmpty) kept, toList_intercalate_blank]
  congr 1
  induction rest with
  | nil => rfl
  | cons s rest ih =>
    by_cases empty : s = ""
    · simp [empty, ih]
    · have kept : (fun t : String => !t.isEmpty) s = true := by simpa using empty
      rw [List.filter_cons_of_pos (p := fun t : String => !t.isEmpty) kept, List.flatMap_cons, List.flatMap_cons, ih, if_neg empty]

/-! ### Generics and parameters -/

variable {t : Tree}

/-- The text of a generic parameter. -/
def genericOf (t : Tree) (id : NodeId) : GenericText :=
  match t.node? id with
  | some ⟨name, _, .typeParameter (some c), _⟩ => ⟨name, some (typeText c).toList⟩
  | some n => ⟨n.name, none⟩
  | none => ⟨"", none⟩

theorem toList_typeParameterText (t : Tree) (ids : List NodeId) :
    (typeParameterText t ids).toList = genericsText (ids.map (genericOf t)) := by
  have each : ∀ id, (match t.node? id with
      | some ⟨name, _, .typeParameter (some c), _⟩ => name ++ " extends " ++ typeText c
      | some n => n.name
      | none => "").toList = (genericOf t id).chars := by
    intro id
    unfold genericOf
    split <;> simp [GenericText.chars]
  by_cases empty : ids = []
  · subst empty
    rfl
  · have some : ids.isEmpty = false := by simpa using empty
    have angles : "<".toList = ['<'] ∧ ">".toList = ['>'] ∧ ", ".toList = [',', ' '] := ⟨rfl, rfl, rfl⟩
    rw [typeParameterText, some, if_neg Bool.false_ne_true, genericsText, if_neg (by simpa using empty),
      String.toList_append, String.toList_append, String.toList_intercalate, List.map_map, List.map_map, angles.1,
      angles.2.1, angles.2.2, List.append_assoc, List.singleton_append]
    congr 3
    exact List.map_congr_left fun id _ => each id

/-- The text of a parameter. -/
def parameterOf (t : Tree) (id : NodeId) : ParameterText :=
  match t.node? id with
  | some ⟨name, _, .param type isOptional isRest, _⟩ => ⟨isRest, name, isOptional, (typeText type).toList⟩
  | some n => ⟨false, n.name, false, "any".toList⟩
  | none => ⟨false, "", false, []⟩

theorem toList_parameterText {ids : List NodeId} (known : ∀ id ∈ ids, (t.node? id).isSome) :
    (parameterText t ids).toList ++ [')'] = parametersText (ids.map (parameterOf t)) := by
  have each : ∀ id ∈ ids, (match t.node? id with
      | some ⟨name, _, .param type isOptional isRest, _⟩ =>
        (if isRest then "..." else "") ++ name ++ (if isOptional then "?" else "") ++ ": " ++ typeText type
      | some n => n.name ++ ": any"
      | none => "").toList = (parameterOf t id).chars := by
    intro id member
    unfold parameterOf
    split
    · rename_i name _ type isOptional isRest _ _
      cases isRest <;> cases isOptional <;> simp [ParameterText.chars, ParameterText.bare, typedChars]
    · simp [ParameterText.chars, ParameterText.bare, typedChars]
    · have present := known id member
      rename_i absent
      rw [absent] at present
      cases present
  rw [parametersText, parameterText, String.toList_intercalate, List.map_map, List.map_map]
  congr 2
  exact List.map_congr_left each

/-- The text of a signature. -/
def signatureOf (t : Tree) (s : Signature) : SignatureText :=
  ⟨s.typeParameters.map (genericOf t), s.parameters.map (parameterOf t), (optionalTypeText s.returns).toList⟩

/-! ### Declarations -/

theorem toList_declareWord (depth : Int) (text : String) :
    (declareWord depth ++ text).toList = itemChars (decide (depth ≤ 0)) text.toList := by
  have word : "declare ".toList = Source.Grammar.ambientWord ++ [' '] := rfl
  by_cases top : depth ≤ 0
  · simp [declareWord, itemChars, top, word]
  · simp [declareWord, itemChars, top]

theorem core_declaration (style : Style) (depth : Int) (tokens : List String) (above : Option (List String)) :
    (Code.declaration tokens above).core style depth =
      itemChars (decide (depth ≤ 0)) (tokenText tokens ++ ";").toList := by
  rw [Code.core, String.append_assoc, toList_declareWord]

theorem blockText_declareWord (depth : Int) (head : String) (rows close : List Char) :
    blockText (declareWord depth ++ head).toList rows close =
      itemChars (decide (depth ≤ 0)) (blockText head.toList rows close) := by
  rw [toList_declareWord]
  by_cases top : depth ≤ 0
  · simp [itemChars, blockText, top]
  · simp [itemChars, blockText, top]

/-- The keyword of a variable. -/
def varKeyword (isConst : Bool) : Keyword := if isConst then .const else .let

theorem toList_var (name : String) (isConst : Bool) {type : String} (typed : type ≠ "") :
    (tokenText [(if isConst then "const " else "let ") ++ name ++ ":", type] ++ ";").toList =
      (varKeyword isConst).text.toList ++ (' ' :: typedChars name false type.toList ++ [';']) := by
  rw [String.toList_append, toList_tokenText (by cases isConst <;> simp)]
  cases isConst <;> simp [typed, typedChars, varKeyword, Keyword.text]

theorem toList_signature {s : Signature} (known : ∀ id ∈ s.parameters, (t.node? id).isSome) (name : String)
    (returned : optionalTypeText s.returns ≠ "") (before : String) :
    (tokenText [before ++ signatureHead t name s, optionalTypeText s.returns]).toList =
      before.toList ++ (name.toList ++ (signatureOf t s).chars) := by
  rw [toList_tokenText (by simp [signatureHead])]
  have parameters := toList_parameterText known
  have colon : "):".toList = [')', ':'] := rfl
  simp only [signatureHead, genericName, signatureOf, SignatureText.chars, ← parameters, String.toList_append,
    toList_typeParameterText, colon]
  simp [returned]

theorem toList_function {s : Signature} (known : ∀ id ∈ s.parameters, (t.node? id).isSome) (name : String)
    (returned : optionalTypeText s.returns ≠ "") :
    (tokenText ["function " ++ signatureHead t name s, optionalTypeText s.returns] ++ ";").toList =
      Keyword.function.text.toList ++ (' ' :: name.toList ++ ((signatureOf t s).chars ++ [';'])) := by
  rw [String.toList_append, toList_signature known name returned]
  simp [Keyword.text]

/-- A name with its generic parameters as a token. -/
theorem flatMap_genericName {name : String} (named : name ≠ "") (ids : List NodeId) :
    (if genericName t name ids = "" then [] else ' ' :: (genericName t name ids).toList) =
      ' ' :: (name.toList ++ genericsText (ids.map (genericOf t))) := by
  have some : genericName t name ids ≠ "" := by simp [genericName, named]
  rw [if_neg some, genericName, String.toList_append, toList_typeParameterText]

theorem toList_alias {name : String} (named : name ≠ "") (ids : List NodeId) {type : String} (typed : type ≠ "") :
    (tokenText ["type", genericName t name ids, "=", type] ++ ";").toList =
      aliasChars name (ids.map (genericOf t)) type.toList := by
  rw [String.toList_append, toList_tokenText (by simp)]
  simp only [List.flatMap_cons, List.flatMap_nil, flatMap_genericName named]
  simp [aliasChars, Keyword.text, typed]

/-- A heritage clause as a token. -/
theorem flatMap_heritage (word : String) (refs : List Reference) (spelled : word ≠ "") :
    (if heritage word refs = "" then [] else ' ' :: (heritage word refs).toList) =
      heritageChars word (refs.map fun r => (typeText r.toType).toList) := by
  cases refs with
  | nil => rfl
  | cons r rs =>
    have some : heritage word (r :: rs) ≠ "" := by simp [heritage, spelled]
    have comma : ", ".toList = [',', ' '] := rfl
    rw [if_neg some, heritageChars, if_neg (by simp), heritage]
    simp [String.toList_intercalate, comma, Function.comp_def]

theorem toList_interfaceHead {name : String} (named : name ≠ "") (ids : List NodeId) (bases : List Reference) :
    (tokenText ["interface", genericName t name ids, heritage "extends" bases] ++ " \x7b").toList =
      interfaceHead name (ids.map (genericOf t)) (bases.map fun r => (typeText r.toType).toList) := by
  rw [String.toList_append, toList_tokenText (by simp)]
  simp only [List.flatMap_cons, List.flatMap_nil, flatMap_genericName named, flatMap_heritage "extends" bases (by simp)]
  simp [interfaceHead, Keyword.text]

theorem toList_classHead {name : String} (named : name ≠ "") (ids : List NodeId) (bases interfaces : List Reference) :
    (tokenText ["class", genericName t name ids, heritage "extends" bases, heritage "implements" interfaces] ++
        " \x7b").toList =
      classHead name (ids.map (genericOf t)) (bases.map fun r => (typeText r.toType).toList)
        (interfaces.map fun r => (typeText r.toType).toList) := by
  rw [String.toList_append, toList_tokenText (by simp)]
  simp only [List.flatMap_cons, List.flatMap_nil, flatMap_genericName named, flatMap_heritage "extends" bases (by simp),
    flatMap_heritage "implements" interfaces (by simp)]
  simp [classHead, Keyword.text]

theorem toList_enumHead {name : String} (named : name ≠ "") :
    (tokenText ["enum", name] ++ " \x7b").toList = enumHead name := by
  rw [String.toList_append, toList_tokenText (by simp)]
  simp [enumHead, Keyword.text, named]

theorem toList_namespaceHead {name : String} (named : name ≠ "") :
    (tokenText ["namespace", name] ++ " \x7b").toList = namespaceHead name := by
  rw [String.toList_append, toList_tokenText (by simp)]
  simp [namespaceHead, Keyword.text, named]

theorem toList_enumMember {m : EnumMember} (named : m.name ≠ "") (valued : m.value ≠ "") :
    (tokenText [m.name, "=", m.value] ++ ",").toList = enumMemberChars m := by
  rw [String.toList_append, toList_tokenText named]
  simp [enumMemberChars, valued]

/-! ### Members -/

/-- The text of a member behind its modifiers. -/
def memberForm (t : Tree) (n : Node) : MemberForm :=
  match n.body with
  | .property type isOptional _ => .property n.name isOptional (typeText type).toList
  | .method s _ => .method n.name (signatureOf t s)
  | .constructor s => .constructor (s.parameters.map (parameterOf t))
  | _ => .constructor []

/-- The modifiers of a member. -/
def modifiersOf (n : Node) : List Modifier :=
  match n.body with
  | .property _ _ modifiers | .method _ modifiers => modifiers
  | _ => []

/-- A member of a class or interface as text. -/
def memberOf (t : Tree) (n : Node) : MemberText :=
  ⟨(modifiersOf n).contains .static, (modifiersOf n).contains .readonly, memberForm t n⟩

theorem chars_memberOf (t : Tree) (n : Node) :
    (memberOf t n).chars = (modifierText (modifiersOf n)).toList ++ (memberForm t n).chars := by
  simp only [memberOf, MemberText.chars, MemberText.ownChars, modifierText]
  by_cases static : (modifiersOf n).contains .static = true <;>
    by_cases readonly : (modifiersOf n).contains .readonly = true <;> simp only [static, readonly] <;> simp

theorem chars_property (n : Node) {type : TypeExpr} {isOptional : Bool} {modifiers : List Modifier}
    (body : n.body = .property type isOptional modifiers) (typed : typeText type ≠ "") :
    (tokenText [modifierText modifiers ++ n.name ++ (if isOptional then "?" else "") ++ ":", typeText type] ++ ";").toList =
      (memberOf t n).chars := by
  have colon : ":".toList = [':'] := rfl
  rw [chars_memberOf, String.toList_append, toList_tokenText (by simp)]
  cases isOptional <;> simp [memberForm, modifiersOf, body, MemberForm.chars, typedChars, typed, colon]

theorem chars_method (n : Node) {s : Signature} {modifiers : List Modifier} (body : n.body = .method s modifiers)
    (known : ∀ id ∈ s.parameters, (t.node? id).isSome) (returned : optionalTypeText s.returns ≠ "") :
    (tokenText [modifierText modifiers ++ signatureHead t n.name s, optionalTypeText s.returns] ++ ";").toList =
      (memberOf t n).chars := by
  rw [chars_memberOf, String.toList_append, toList_signature known n.name returned]
  simp [memberForm, modifiersOf, body, MemberForm.chars]

theorem chars_constructor (n : Node) {s : Signature} (body : n.body = .constructor s)
    (known : ∀ id ∈ s.parameters, (t.node? id).isSome) :
    (tokenText ["constructor(" ++ parameterText t s.parameters ++ ")"] ++ ";").toList = (memberOf t n).chars := by
  have parameters := toList_parameterText known
  have opening : "constructor(".toList = constructorWord ++ ['('] := rfl
  rw [chars_memberOf, String.toList_append, toList_tokenText (by simp)]
  simp [memberForm, modifiersOf, body, MemberForm.chars, ← parameters, opening, modifierText]

end Render

end DocLocale
