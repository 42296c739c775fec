import TnslReader.Proofs.TreeWalk
import TnslReader.Proofs.ValueGrammar
import TnslReader.Token.Literal

/-!
Contract: which children a node of a kind may have.

`Node.Conforms` says it for one node, of all kinds. The shape of a kind speaks of the kinds of the
children and, in a few places, of their tokens or of how many there are; what stands further below is
the matter of the children's own shapes.

Owns: the schema of trees, and that values and types conform to it.
-/

set_option autoImplicit false

namespace TnslReader

namespace NodeKind

def isValue : NodeKind → Bool
  | .binary | .precedingOperator | .followingOperator | .call | .index | .cast | .composite
  | .identifier | .literal | .typeName => true
  | _ => false

def isSection : NodeKind → Bool
  | .block | .directives => true
  | _ => false

def isSimple : NodeKind → Bool
  | .definition | .valueStatement => true
  | _ => false

def isStatement : NodeKind → Bool
  | .definition | .valueStatement | .returnStatement | .breakStatement | .continueStatement
  | .structStatement | .enumStatement | .gotoStatement | .labelStatement | .allocStatement
  | .sallocStatement | .reallocStatement | .deleteStatement | .asmStatement => true
  | _ => false

def isItem (kind : NodeKind) : Bool :=
  kind.isSection || kind == .directive || kind.isStatement

def isHeaderChild : NodeKind → Bool
  | .keyword | .identifier | .parameterList | .typeList | .statementList | .valueStatement => true
  | _ => false

def isMark : NodeKind → Bool
  | .pointer | .array => true
  | _ => false

/-- Whether a node of the kind stands within a header or an item. The other kinds make up the
structure of a file. -/
def isPart : NodeKind → Bool
  | .root | .block | .directives | .header => false
  | _ => true

/-- Whether nodes of the kinds are parameters: names, some with a type before them, and the first
with one unless `typed` says that a type came before. -/
def areParameters : Bool → List NodeKind → Bool
  | _, [] => true
  | _, .type :: .identifier :: later => areParameters true later
  | true, .identifier :: later => areParameters true later
  | _, _ => false

variable {kind : NodeKind}

theorem isPart_of_isValue (isValue : kind.isValue = true) : kind.isPart = true := by
  cases kind <;> first | rfl | cases isValue

theorem isPart_of_isSimple (isSimple : kind.isSimple = true) : kind.isPart = true := by
  cases kind <;> first | rfl | cases isSimple

theorem isPart_of_isStatement (isStatement : kind.isStatement = true) : kind.isPart = true := by
  cases kind <;> first | rfl | cases isStatement

theorem isPart_of_isMark (isMark : kind.isMark = true) : kind.isPart = true := by
  cases kind <;> first | rfl | cases isMark

theorem isPart_of_isHeaderChild (isHeaderChild : kind.isHeaderChild = true) :
    kind.isPart = true := by
  cases kind <;> first | rfl | cases isHeaderChild

theorem isPart_of_directive (isDirective : (kind == .directive) = true) : kind.isPart = true := by
  rw [eq_of_beq isDirective]
  rfl

theorem isPart_of_areParameters {typed : Bool} {kinds : List NodeKind}
    (parameters : areParameters typed kinds = true) : ∀ kind ∈ kinds, kind.isPart = true := by
  fun_induction areParameters typed kinds with
  | case1 => simp
  | case2 _ later inductionHypothesis => simpa [isPart] using inductionHypothesis parameters
  | case3 later inductionHypothesis => simpa [isPart] using inductionHypothesis parameters
  | case4 => cases parameters

end NodeKind

namespace Node

def AllOf (test : NodeKind → Bool) (nodes : List Node) : Prop :=
  ∀ node ∈ nodes, test node.kind = true

/-- Whether an item of a definition is a name, or a name to which a value is assigned. -/
def Defines (item : Node) : Prop :=
  item.kind = .identifier ∨
    (item.kind = .binary ∧ item.token.isOperator .assign = true ∧
      ∃ name value, item.children = [name, value] ∧ name.kind = .identifier)

/-- Whether the node has the children that a node of its kind has. -/
def Conforms (node : Node) : Prop :=
  match node.kind with
  | .root => AllOf (·.isItem) node.children
  | .block => ∃ header items, node.children = header :: items ∧ header.kind = .header ∧
      AllOf (·.isItem) items
  | .directives => ∃ directives sections, node.children = directives ++ sections ∧
      AllOf (· == .directive) directives ∧ AllOf (·.isSection) sections
  | .header => AllOf (·.isHeaderChild) node.children
  | .directive => AllOf (· == .argument) node.children
  | .keyword => node.children = [] ∨ ∃ operand, node.children = [operand] ∧
      (operand.kind = .identifier ∨ operand.kind = .operatorName)
  | .definition => ∃ type names, node.children = [type, names] ∧ type.kind = .type ∧
      names.kind = .valueList ∧ names.children ≠ [] ∧ ∀ item ∈ names.children, item.Defines
  | .valueStatement => ∃ value, node.children = [value] ∧ value.kind.isValue = true
  | .returnStatement => AllOf (·.isValue) node.children ∧ node.children.length ≤ 1
  | .breakStatement | .continueStatement => node.children.length ≤ 1 ∧
      ∀ count ∈ node.children, count.kind = .literal ∧
        count.token.text.toList.all Literal.isDigit = true
  | .structStatement => ∃ modifiers name supers members,
      node.children = modifiers ++ name :: supers ++ [members] ∧
      AllOf (· == .keyword) modifiers ∧ modifiers.length ≤ 1 ∧ name.kind = .identifier ∧
      AllOf (· == .valueList) supers ∧ supers.length ≤ 1 ∧ members.kind = .parameterList
  | .enumStatement => ∃ name base values, node.children = name :: base ++ [values] ∧
      name.kind = .identifier ∧ AllOf (· == .type) base ∧ base.length ≤ 1 ∧
      values.kind = .valueList
  | .gotoStatement | .labelStatement => ∃ name, node.children = [name] ∧ name.kind = .identifier
  | .allocStatement | .sallocStatement | .reallocStatement | .deleteStatement =>
      ∃ values, node.children = [values] ∧ values.kind = .valueList ∧ values.children ≠ []
  | .asmStatement => AllOf (· == .literal) node.children ∧ node.children ≠ []
  | .binary => ∃ left right, node.children = [left, right] ∧ left.kind.isValue = true ∧
      if node.token.isOperator .isWord then right.kind = .type else right.kind.isValue = true
  | .precedingOperator | .followingOperator =>
      ∃ operand, node.children = [operand] ∧ operand.kind.isValue = true
  | .call => ∃ callee arguments, node.children = [callee, arguments] ∧
      callee.kind.isValue = true ∧ arguments.kind = .valueList
  | .index => ∃ target position, node.children = [target, position] ∧
      target.kind.isValue = true ∧ position.kind.isValue = true
  | .cast => ∃ value types, node.children = [value, types] ∧ value.kind.isValue = true ∧
      types.kind = .typeList
  | .composite | .valueList => AllOf (·.isValue) node.children
  | .type => ∃ qualifiers marks path name references,
      node.children = qualifiers ++ marks ++ path ++ name :: references ∧
      AllOf (· == .qualifier) qualifiers ∧ AllOf (·.isMark) marks ∧
      AllOf (· == .pathSegment) path ∧ name.kind = .typeName ∧
      AllOf (· == .backReference) references ∧ references.length ≤ 1
  | .array => AllOf (·.isValue) node.children ∧ node.children.length ≤ 1
  | .typeName => AllOf (· == .typeList) node.children ∧
      node.children.length ≤ if node.token.isVoid then 2 else 1
  | .parameterList => NodeKind.areParameters false (node.children.map (·.kind)) = true
  | .typeList => AllOf (· == .type) node.children
  | .statementList => AllOf (·.isSimple) node.children
  | .argument | .operatorName | .identifier | .literal | .qualifier | .pointer | .pathSegment
  | .backReference => node.children = []

/-- What stands within a header or an item has only such nodes below it. -/
theorem Conforms.allOf_isPart {node : Node} (conforms : node.Conforms)
    (part : node.kind.isPart = true) : AllOf (·.isPart) node.children := by
  cases kind : node.kind <;> rw [kind] at part <;> simp only [Conforms, kind] at conforms
  case root | block | directives | header => cases part
  case parameterList =>
    exact fun child member =>
      NodeKind.isPart_of_areParameters conforms _ (List.mem_map_of_mem member)
  all_goals
    intro child member
    grind [AllOf, NodeKind.isPart, NodeKind.isPart_of_isValue, NodeKind.isPart_of_isSimple,
      NodeKind.isPart_of_isMark]

/-- A header is the first child of a block. -/
theorem Conforms.head?_of_header {node child : Node} (conforms : node.Conforms)
    (member : child ∈ node.children) (isHeader : child.kind = .header) :
    node.kind = .block ∧ node.children.head? = some child := by
  cases part : node.kind.isPart with
  | true =>
      have childPart := conforms.allOf_isPart part child member
      rw [isHeader] at childPart
      cases childPart
  | false =>
      cases kind : node.kind <;> rw [kind] at part <;> simp only [Conforms, kind] at conforms
      case root | block | directives | header =>
        grind [AllOf, NodeKind.isItem, NodeKind.isSection, NodeKind.isStatement,
          NodeKind.isHeaderChild]
      all_goals cases part

/-- Whether the node is of a kind for which the test holds, and conforms with all nodes below it. -/
def Shaped (test : NodeKind → Bool) (node : Node) : Prop :=
  test node.kind = true ∧ node.Everywhere Conforms

variable {test : NodeKind → Bool} {node : Node}

theorem Shaped.kind_eq {kind : NodeKind} (shaped : node.Shaped (· == kind)) : node.kind = kind := by
  simpa using shaped.1

theorem Shaped.mono {weaker : NodeKind → Bool} (shaped : node.Shaped test)
    (implies : ∀ kind, test kind = true → weaker kind = true) : node.Shaped weaker :=
  ⟨implies _ shaped.1, shaped.2⟩

/-- What stands within a header or an item has only such nodes anywhere below it. -/
theorem Shaped.everywhere_isPart (shaped : node.Shaped test)
    (implies : ∀ {kind : NodeKind}, test kind = true → kind.isPart = true) :
    node.Everywhere fun inner => inner.kind.isPart = true :=
  Everywhere.of_top (fun _ conforms part => conforms.allOf_isPart part) node shaped.2
    (implies shaped.1)

theorem allOf_of_shaped {nodes : List Node} (shaped : ∀ node ∈ nodes, node.Shaped test) :
    AllOf test nodes :=
  fun node member => (shaped node member).1

theorem shaped_mk {kind : NodeKind} {token : Token} {children : List Node}
    (isKind : test kind = true) (conforms : Conforms ⟨kind, token, children⟩)
    (below : ∀ child ∈ children, child.Everywhere Conforms) : Shaped test ⟨kind, token, children⟩ :=
  ⟨isKind, everywhere_mk.mpr ⟨conforms, below⟩⟩

/-- A leaf conforms if its kind may go without children. -/
theorem shaped_leaf {kind : NodeKind} {token : Token} (isKind : test kind = true)
    (conforms : Conforms (leaf kind token)) : Shaped test (leaf kind token) :=
  ⟨isKind, everywhere_leaf.mpr conforms⟩

theorem shaped_tagged {kind : NodeKind} {anchor : Token} {children : List Node}
    (isKind : test kind = true) (conforms : Conforms (tagged kind anchor children))
    (below : ∀ child ∈ children, child.Everywhere Conforms) :
    Shaped test (tagged kind anchor children) :=
  ⟨isKind, everywhere_tagged.mpr ⟨conforms, below⟩⟩

end Node

open Node (Shaped shaped_mk shaped_leaf shaped_tagged allOf_of_shaped Conforms AllOf)

/-! ### Values and types -/

theorem DottedText.shaped {text : List Token} {path : List Node} {name : Token}
    (dotted : DottedText text path name) : ∀ node ∈ path, node.Shaped (· == .pathSegment) := by
  induction dotted with
  | word => simp
  | dot _ _ _ inductionHypothesis =>
      exact List.forall_mem_cons.mpr ⟨shaped_leaf rfl rfl, inductionHypothesis⟩

theorem NameText.shaped {text : List Token} {path : List Node} {name : Token}
    (named : NameText text path name) : ∀ node ∈ path, node.Shaped (· == .pathSegment) := by
  cases named with
  | builtin => simp
  | dotted words => exact words.shaped

theorem ReferenceText.shaped {inParameter : Bool} {text : List Token} {nodes : List Node}
    (referred : ReferenceText inParameter text nodes) :
    (∀ node ∈ nodes, node.Shaped (· == .backReference)) ∧ nodes.length ≤ 1 := by
  cases referred with
  | none => simp
  | mark => exact ⟨List.forall_mem_singleton.mpr (shaped_leaf rfl rfl), Nat.le_refl 1⟩

/-- A literal, a name and a built-in type are values on their own. -/
theorem shaped_of_leafKind? {token : Token} {kind : NodeKind}
    (isLeaf : token.leafKind? = some kind) : (Node.leaf kind token).Shaped (·.isValue) := by
  unfold Token.leafKind? at isLeaf
  split at isLeaf <;> cases isLeaf
  · exact shaped_leaf rfl rfl
  · exact shaped_leaf rfl rfl
  · exact shaped_leaf rfl ⟨by simp [Node.leaf, AllOf], by simp [Node.leaf]⟩

theorem shaped_valueList {opener : Token} {nodes : List Node}
    (values : ∀ node ∈ nodes, node.Shaped (·.isValue)) :
    (Node.tagged .valueList opener nodes).Shaped (· == .valueList) :=
  shaped_tagged rfl (allOf_of_shaped values) fun node member => (values node member).2

theorem shaped_typeList {opener : Token} {nodes : List Node}
    (types : ∀ node ∈ nodes, node.Shaped (· == .type)) :
    (Node.tagged .typeList opener nodes).Shaped (· == .typeList) :=
  shaped_tagged rfl (allOf_of_shaped types) fun node member => (types node member).2

mutual

theorem ValueText.shaped {depth chain order : Nat} {text : List Token} {node : Node} :
    ValueText depth chain order text node → node.Shaped (·.isValue)
  | .unary _ operand => operand.shaped
  | .composite _ _ values _ =>
      shaped_tagged rfl (allOf_of_shaped values.shaped) fun node member =>
        (values.shaped node member).2
  | .chain _ _ _ operands => operands.shaped

theorem ChainText.shaped {depth chain order count : Nat} {text : List Token} {node : Node} :
    ChainText depth chain order count text node → node.Shaped (·.isValue)
  | .first operand _ => operand.shaped
  | .value before _ takesValue operand _ => by
      refine shaped_mk rfl ⟨_, _, rfl, before.shaped.1, ?_⟩ ?_
      · rw [if_neg (by simp [takesValue])]
        exact operand.shaped.1
      · exact List.forall_mem_cons.mpr
          ⟨before.shaped.2, List.forall_mem_singleton.mpr operand.shaped.2⟩
  | .type before _ takesType operand => by
      refine shaped_mk rfl ⟨_, _, rfl, before.shaped.1, ?_⟩ ?_
      · rw [if_pos takesType]
        exact operand.shaped.kind_eq
      · exact List.forall_mem_cons.mpr
          ⟨before.shaped.2, List.forall_mem_singleton.mpr operand.shaped.2⟩

theorem UnaryText.shaped {depth chain : Nat} {text : List Token} {node : Node} :
    UnaryText depth chain text node → node.Shaped (·.isValue)
  | .preceded _ _ _ operand =>
      shaped_mk rfl ⟨_, rfl, operand.shaped.1⟩ (List.forall_mem_singleton.mpr operand.shaped.2)
  | .followed primary after => after.shaped primary.shaped

theorem PrimaryText.shaped {depth chain : Nat} {text : List Token} {node : Node} :
    PrimaryText depth chain text node → node.Shaped (·.isValue)
  | .leaf isLeaf => shaped_of_leafKind? isLeaf
  | .grouped _ value _ => value.shaped

theorem FollowedText.shaped {depth chain : Nat} {base node : Node} {text : List Token}
    (operand : base.Shaped (·.isValue)) :
    FollowedText depth chain base text node → node.Shaped (·.isValue)
  | .done => operand
  | @FollowedText.operator _ _ _ base _ token _ _ _ after => by
      have applied : (⟨.followingOperator, token, [base]⟩ : Node).Shaped (·.isValue) :=
        shaped_mk rfl ⟨_, rfl, operand.1⟩ (List.forall_mem_singleton.mpr operand.2)
      exact after.shaped applied
  | @FollowedText.call _ _ _ base _ opener _ _ _ nodes _ _ values _ after => by
      have list : (Node.tagged .valueList opener nodes).Shaped _ := shaped_valueList values.shaped
      have applied : (Node.tagged .call opener [base, .tagged .valueList opener nodes]).Shaped
          (·.isValue) :=
        shaped_tagged rfl ⟨_, _, rfl, operand.1, list.kind_eq⟩
          (List.forall_mem_cons.mpr ⟨operand.2, List.forall_mem_singleton.mpr list.2⟩)
      exact after.shaped applied
  | @FollowedText.index _ _ _ _ base position _ opener _ _ _ _ _ value _ after => by
      have applied : (Node.tagged .index opener [base, position]).Shaped (·.isValue) :=
        shaped_tagged rfl ⟨_, _, rfl, operand.1, value.shaped.1⟩
          (List.forall_mem_cons.mpr ⟨operand.2, List.forall_mem_singleton.mpr value.shaped.2⟩)
      exact after.shaped applied
  | @FollowedText.cast _ _ _ base _ opener _ _ _ nodes _ _ types _ after => by
      have list : (Node.tagged .typeList opener nodes).Shaped _ := shaped_typeList types.shaped
      have applied : (Node.tagged .cast opener [base, .tagged .typeList opener nodes]).Shaped
          (·.isValue) :=
        shaped_tagged rfl ⟨_, _, rfl, operand.1, list.kind_eq⟩
          (List.forall_mem_cons.mpr ⟨operand.2, List.forall_mem_singleton.mpr list.2⟩)
      exact after.shaped applied

theorem ValuesText.shaped {depth chain : Nat} {text : List Token} {nodes : List Node} :
    ValuesText depth chain text nodes → ∀ node ∈ nodes, node.Shaped (·.isValue)
  | .none => by simp
  | .last value => List.forall_mem_singleton.mpr value.shaped
  | .more value _ later => List.forall_mem_cons.mpr ⟨value.shaped, later.shaped⟩

theorem TypeText.shaped {inParameter : Bool} {depth chain : Nat} {text : List Token}
    {node : Node} : TypeText inParameter depth chain text node → node.Shaped (· == .type)
  | @TypeText.type _ _ _ _ _ name qualifiers _ _ _ _ markNodes path argumentNodes _ _ _ marked named
      applied referred _ => by
      obtain ⟨references, atMostOne⟩ := referred.shaped
      have isName : (⟨.typeName, name, argumentNodes⟩ : Node).Shaped (· == .typeName) :=
        applied.shaped
      have isQualifier : ∀ node ∈ qualifiers.map (Node.leaf .qualifier),
          node.Shaped (· == .qualifier) := by
        rw [List.forall_mem_map]
        exact fun _ _ => shaped_leaf rfl rfl
      refine shaped_tagged rfl ⟨_, markNodes, path, _, _, rfl, allOf_of_shaped isQualifier,
        allOf_of_shaped marked.shaped, allOf_of_shaped named.shaped, isName.kind_eq,
        allOf_of_shaped references, atMostOne⟩ ?_
      simp only [List.mem_append, List.mem_cons]
      intro child held
      rcases held with ((member | member) | member) | rfl | member
      · exact (isQualifier child member).2
      · exact (marked.shaped child member).2
      · exact (named.shaped child member).2
      · exact isName.2
      · exact (references child member).2

theorem MarksText.shaped {depth chain : Nat} {text : List Token} {nodes : List Node} :
    MarksText depth chain text nodes → ∀ node ∈ nodes, node.Shaped (·.isMark)
  | .done => by simp
  | .pointer _ later => List.forall_mem_cons.mpr ⟨shaped_leaf rfl rfl, later.shaped⟩
  | .unsized _ _ later => by
      refine List.forall_mem_cons.mpr ⟨shaped_tagged rfl ⟨?_, ?_⟩ ?_, later.shaped⟩
      · simp [Node.tagged, AllOf]
      · simp [Node.tagged]
      · simp
  | .sized _ value _ later => by
      refine List.forall_mem_cons.mpr ⟨shaped_tagged rfl ⟨?_, Nat.le_refl 1⟩ ?_, later.shaped⟩
      · exact List.forall_mem_singleton.mpr value.shaped.1
      · exact List.forall_mem_singleton.mpr value.shaped.2

/-- The name of a type has a list of arguments or none, and `void` may have a second list. -/
theorem ArgumentsText.shaped {depth chain : Nat} {name : Token} {text : List Token}
    {nodes : List Node} : ArgumentsText depth chain name text nodes →
      (⟨.typeName, name, nodes⟩ : Node).Shaped (· == .typeName)
  | .none => by
      refine shaped_mk rfl ⟨?_, ?_⟩ (by simp)
      · simp [AllOf]
      · simp
  | @ArgumentsText.arguments _ _ _ opener _ _ nodes _ types _ => by
      have list : (Node.tagged .typeList opener nodes).Shaped _ := shaped_typeList types.shaped
      refine shaped_mk rfl ⟨List.forall_mem_singleton.mpr list.1, ?_⟩
        (List.forall_mem_singleton.mpr list.2)
      simp only [List.length_singleton]
      split <;> omega
  | @ArgumentsText.results _ _ _ opener _ second _ _ _ nodes results isVoid _ types _ _
      resultTypes _ => by
      have list : (Node.tagged .typeList opener nodes).Shaped _ := shaped_typeList types.shaped
      have resultList : (Node.tagged .typeList second results).Shaped _ :=
        shaped_typeList resultTypes.shaped
      refine shaped_mk rfl ⟨?_, ?_⟩ ?_
      · exact List.forall_mem_cons.mpr ⟨list.1, List.forall_mem_singleton.mpr resultList.1⟩
      · rw [if_pos isVoid]
        exact Nat.le_refl 2
      · exact List.forall_mem_cons.mpr ⟨list.2, List.forall_mem_singleton.mpr resultList.2⟩

theorem TypesText.shaped {depth chain : Nat} {text : List Token} {nodes : List Node} :
    TypesText depth chain text nodes → ∀ node ∈ nodes, node.Shaped (· == .type)
  | .none => by simp
  | .last type => List.forall_mem_singleton.mpr type.shaped
  | .more type _ later => List.forall_mem_cons.mpr ⟨type.shaped, later.shaped⟩

end

end TnslReader
