import TnslReader.Proofs.SectionSoundness
import TnslReader.Proofs.TreeShape

/-!
Contract: statements, sections and whole files conform to the schema of trees.

The main result is `readTree_conforms`: whatever tree is read, under whatever limits, each of its
nodes has the children that a node of its kind has, and only its root is one.
-/

set_option autoImplicit false

namespace TnslReader

open Node (Shaped shaped_mk shaped_leaf shaped_tagged allOf_of_shaped Conforms AllOf)

/-! ### Statements -/

/-- An item that a definition takes as a name has the shape of one. -/
theorem Node.Shaped.defines {item : Node} (shaped : item.Shaped (·.isValue))
    (isName : item.isDefinedName = true) : item.Defines := by
  unfold isDefinedName at isName
  split at isName
  next isIdentifier => exact .inl isIdentifier
  next isBinary =>
    have conforms := shaped.2.here
    simp only [Conforms, isBinary] at conforms
    obtain ⟨left, right, children, -, -⟩ := conforms
    simp only [children, List.head?_cons, Option.any_some, Bool.and_eq_true,
      beq_iff_eq] at isName
    exact .inr ⟨isBinary, isName.1, left, right, children, isName.2⟩
  next => cases isName

theorem SimpleText.shaped {depth chain : Nat} {text : List Token} {node : Node}
    (simple : SimpleText depth chain text node) : node.Shaped (·.isSimple) := by
  cases simple with
  | @definition anchor name _ _ type names typed listed defined _ namesBegin _ =>
      have list : (Node.tagged .valueList name names).Shaped _ := shaped_valueList listed.shaped
      have nonempty : names ≠ [] := by
        intro equal
        subst equal
        cases listed
        cases namesBegin
      refine shaped_tagged rfl ⟨type, _, rfl, typed.shaped.kind_eq, list.kind_eq, nonempty, ?_⟩ ?_
      · exact fun item member => (listed.shaped item member).defines (defined item member)
      · exact List.forall_mem_cons.mpr ⟨typed.shaped.2, List.forall_mem_singleton.mpr list.2⟩
  | value valued _ =>
      exact shaped_tagged rfl ⟨_, rfl, valued.shaped.1⟩
        (List.forall_mem_singleton.mpr valued.shaped.2)

theorem ParameterText.shaped {depth chain : Nat} {typed : Bool} {text : List Token}
    {nodes : List Node} (parameter : ParameterText depth chain typed text nodes) :
    (∀ later, NodeKind.areParameters true later = true →
      NodeKind.areParameters typed (nodes.map (·.kind) ++ later) = true) ∧
      ∀ node ∈ nodes, node.Everywhere Conforms := by
  cases parameter with
  | name isTyped _ =>
      subst isTyped
      exact ⟨fun later areLater => areLater, List.forall_mem_singleton.mpr
        (Node.everywhere_leaf.mpr rfl)⟩
  | typed isType _ =>
      refine ⟨fun later areLater => ?_, ?_⟩
      · rw [List.map_cons, isType.shaped.kind_eq]
        exact areLater
      · exact List.forall_mem_cons.mpr ⟨isType.shaped.2,
          List.forall_mem_singleton.mpr (Node.everywhere_leaf.mpr rfl)⟩

theorem ParametersText.shaped {depth chain : Nat} {typed : Bool} {text : List Token}
    {nodes : List Node} (listed : ParametersText depth chain typed text nodes) :
    NodeKind.areParameters typed (nodes.map (·.kind)) = true ∧
      ∀ node ∈ nodes, node.Everywhere Conforms := by
  induction listed with
  | last parameter =>
      obtain ⟨areParameters, conform⟩ := parameter.shaped
      refine ⟨?_, conform⟩
      rw [← List.append_nil (List.map _ _)]
      exact areParameters [] rfl
  | more parameter _ _ inductionHypothesis =>
      obtain ⟨areParameters, conform⟩ := parameter.shaped
      obtain ⟨areLater, laterConform⟩ := inductionHypothesis
      refine ⟨?_, List.forall_mem_append.mpr ⟨conform, laterConform⟩⟩
      rw [List.map_append]
      exact areParameters _ areLater

theorem ParameterListText.shaped {depth chain : Nat} {text : List Token} {opener : Token}
    {nodes : List Node} (listed : ParameterListText depth chain text nodes) :
    (Node.tagged .parameterList opener nodes).Shaped (· == .parameterList) := by
  cases listed with
  | none => exact shaped_tagged rfl rfl (by simp)
  | some listed => exact shaped_tagged rfl listed.shaped.1 listed.shaped.2

theorem StatementsText.shaped {depth chain : Nat} {text : List Token} {nodes : List Node}
    (listed : StatementsText depth chain text nodes) : ∀ node ∈ nodes, node.Shaped (·.isSimple) := by
  induction listed with
  | none => simp
  | last simple => exact List.forall_mem_singleton.mpr simple.shaped
  | missing _ _ inductionHypothesis => exact inductionHypothesis
  | more simple _ _ inductionHypothesis =>
      exact List.forall_mem_cons.mpr ⟨simple.shaped, inductionHypothesis⟩

theorem SuperTypesText.shaped {depth chain : Nat} {text : List Token} {nodes : List Node}
    (supers : SuperTypesText depth chain text nodes) :
    (∀ node ∈ nodes, node.Shaped (· == .valueList)) ∧ nodes.length ≤ 1 := by
  cases supers with
  | none => simp
  | listed _ values _ =>
      exact ⟨List.forall_mem_singleton.mpr (shaped_valueList values.shaped), Nat.le_refl 1⟩

theorem BaseTypeText.shaped {depth chain : Nat} {text : List Token} {nodes : List Node}
    (based : BaseTypeText depth chain text nodes) :
    (∀ node ∈ nodes, node.Shaped (· == .type)) ∧ nodes.length ≤ 1 := by
  cases based with
  | none => simp
  | type _ typed _ => exact ⟨List.forall_mem_singleton.mpr typed.shaped, Nat.le_refl 1⟩

/-- A name that is a child of a statement. -/
theorem shaped_name {name : Token} : (Node.leaf .identifier name).Shaped (· == .identifier) :=
  shaped_leaf rfl rfl

theorem KeywordText.shaped {depth chain : Nat} {text : List Token} {node : Node}
    (worded : KeywordText depth chain text node) : node.Shaped (·.isStatement) := by
  cases worded with
  | @struct keyword name opener _ modifiers _ _ superNodes members modified _ _ supers _ listed _ =>
      obtain ⟨areSupers, superBound⟩ := supers.shaped
      have list : (Node.tagged .parameterList opener members).Shaped _ := listed.shaped
      have areModifiers : ∀ node ∈ modifiers.map (Node.leaf .keyword), node.Shaped (· == .keyword) :=
        List.forall_mem_map.mpr fun _ _ => shaped_leaf rfl (.inl rfl)
      have modifierBound : (modifiers.map (Node.leaf .keyword)).length ≤ 1 := by
        rcases modified with rfl | ⟨raw, -, rfl⟩ <;> simp
      refine shaped_mk rfl ⟨_, .leaf .identifier name, superNodes, _, rfl,
        allOf_of_shaped areModifiers, modifierBound, rfl, allOf_of_shaped areSupers, superBound,
        list.kind_eq⟩ ?_
      simp only [List.mem_append, List.mem_cons]
      intro child held
      rcases held with (member | rfl | member) | rfl | none
      · exact (areModifiers child member).2
      · exact shaped_name.2
      · exact (areSupers child member).2
      · exact list.2
      · cases none
  | @enum keyword name opener _ _ _ baseNodes values _ _ based _ listed _ =>
      obtain ⟨areBase, baseBound⟩ := based.shaped
      have list : (Node.tagged .valueList opener values).Shaped _ := shaped_valueList listed.shaped
      refine shaped_mk rfl ⟨.leaf .identifier name, baseNodes, _, rfl, rfl, allOf_of_shaped areBase,
        baseBound, list.kind_eq⟩ ?_
      simp only [List.mem_append, List.mem_cons]
      intro child held
      rcases held with (rfl | member) | rfl | none
      · exact shaped_name.2
      · exact (areBase child member).2
      · exact list.2
      · cases none
  | @naming keyword name word kind _ names _ =>
      have below : ∀ child ∈ [Node.leaf .identifier name], child.Everywhere Conforms :=
        List.forall_mem_singleton.mpr shaped_name.2
      cases word <;> cases names <;> exact shaped_mk rfl ⟨_, rfl, rfl⟩ below
  | @looping keyword word kind _ loops =>
      cases word <;> cases loops <;>
        exact shaped_leaf rfl ⟨Nat.zero_le 1, List.forall_mem_nil _⟩
  | @loopingTimes keyword count word kind _ loops _ isCount =>
      have below : ∀ child ∈ [Node.leaf .literal count], child.Everywhere Conforms :=
        List.forall_mem_singleton.mpr (Node.everywhere_leaf.mpr rfl)
      cases word <;> cases loops <;>
        exact shaped_mk rfl ⟨Nat.le_refl 1, List.forall_mem_singleton.mpr ⟨rfl, isCount⟩⟩ below
  | returning _ => exact shaped_leaf rfl ⟨List.forall_mem_nil _, Nat.zero_le 1⟩
  | returningValue _ valued =>
      exact shaped_mk rfl ⟨List.forall_mem_singleton.mpr valued.shaped.1, Nat.le_refl 1⟩
        (List.forall_mem_singleton.mpr valued.shaped.2)
  | @memory keyword anchor word kind _ node nodes _ isMemory listed _ =>
      have list : (Node.tagged .valueList anchor (node :: nodes)).Shaped _ :=
        shaped_valueList listed.shaped
      have below := List.forall_mem_singleton.mpr list.2
      cases word <;> cases isMemory <;>
        exact shaped_mk rfl ⟨_, rfl, rfl, List.cons_ne_nil node nodes⟩ below
  | @asm keyword texts _ _ nonempty =>
      have areTexts : ∀ node ∈ texts.map (Node.leaf .literal), node.Shaped (· == .literal) :=
        List.forall_mem_map.mpr fun _ _ => shaped_leaf rfl rfl
      exact shaped_mk rfl ⟨allOf_of_shaped areTexts, by simpa using nonempty⟩ fun child member =>
        (areTexts child member).2

theorem StatementText.shaped {depth chain : Nat} {text : List Token} {node : Node}
    (stated : StatementText depth chain text node) : node.Shaped (·.isStatement) := by
  cases stated with
  | keyword worded => exact worded.shaped
  | simple simple =>
      exact simple.shaped.mono fun kind isSimple => by
        cases kind <;> simp_all [NodeKind.isSimple, NodeKind.isStatement]

/-! ### Sections and files -/

theorem HeaderListText.shaped {depth chain : Nat} {control : Bool} {bracket : Bracket}
    {text : List Token} {opener : Token} {node : Node}
    (listed : HeaderListText depth chain control bracket text opener node) :
    node.Shaped (·.isHeaderChild) := by
  cases listed with
  | statements listed =>
      exact shaped_tagged rfl (allOf_of_shaped listed.shaped) fun node member =>
        (listed.shaped node member).2
  | parameters listed =>
      exact listed.shaped.mono fun kind isList => by
        rw [eq_of_beq isList]
        rfl
  | types listed =>
      exact (shaped_typeList listed.shaped).mono fun kind isList => by
        rw [eq_of_beq isList]
        rfl

theorem HeaderWordText.shaped {state next : HeaderState} {text rest : List Token} {node : Node}
    (worded : HeaderWordText state text rest node next) : node.Shaped (·.isHeaderChild) := by
  cases worded with
  | modifier | elseIf | control => exact shaped_leaf rfl (.inl rfl)
  | operator =>
      exact shaped_mk rfl (.inr ⟨_, rfl, .inr rfl⟩)
        (List.forall_mem_singleton.mpr (Node.everywhere_leaf.mpr rfl))
  | name =>
      exact shaped_mk rfl (.inr ⟨_, rfl, .inl rfl⟩)
        (List.forall_mem_singleton.mpr (Node.everywhere_leaf.mpr rfl))

theorem HeaderText.shaped {depth chain : Nat} {state : HeaderState} {text : List Token}
    {nodes : List Node} (headed : HeaderText depth chain state text nodes) :
    ∀ node ∈ nodes, node.Shaped (·.isHeaderChild) := by
  induction headed with
  | done => simp
  | list _ _ _ listed _ _ inductionHypothesis =>
      exact List.forall_mem_cons.mpr ⟨listed.shaped, inductionHypothesis⟩
  | name _ _ _ _ inductionHypothesis =>
      exact List.forall_mem_cons.mpr ⟨shaped_leaf rfl rfl, inductionHypothesis⟩
  | word worded _ inductionHypothesis =>
      exact List.forall_mem_cons.mpr ⟨worded.shaped, inductionHypothesis⟩
  | condition _ valued _ =>
      exact List.forall_mem_singleton.mpr (shaped_tagged rfl ⟨_, rfl, valued.shaped.1⟩
        (List.forall_mem_singleton.mpr valued.shaped.2))

theorem DirectiveText.shaped {text : List Token} {node : Node}
    (directive : DirectiveText text node) : node.Shaped (· == .directive) := by
  cases directive with
  | @directive word text _ _ =>
      have areArguments : ∀ node ∈ text.map (Node.leaf .argument), node.Shaped (· == .argument) :=
        List.forall_mem_map.mpr fun _ _ => shaped_leaf rfl rfl
      exact shaped_mk rfl (allOf_of_shaped areArguments) fun child member =>
        (areArguments child member).2

theorem DirectivesText.shaped {text : List Token} {nodes : List Node}
    (directives : DirectivesText text nodes) : ∀ node ∈ nodes, node.Shaped (· == .directive) := by
  induction directives with
  | done => simp
  | colon _ _ inductionHypothesis => exact inductionHypothesis
  | directive directive _ inductionHypothesis =>
      exact List.forall_mem_cons.mpr ⟨directive.shaped, inductionHypothesis⟩

/-- A section is an item. -/
theorem Node.Shaped.isItem {node : Node} (isSection : node.Shaped (·.isSection)) :
    node.Shaped (·.isItem) :=
  isSection.mono fun kind isSection => by simp [NodeKind.isItem, isSection]

/-- A section that is the last of its chain has no later sections behind its children. -/
theorem Node.append_nil (node : Node) :
    ({ node with children := node.children ++ [] } : Node) = node := by
  cases node
  rw [List.append_nil]

mutual

theorem ItemText.shaped {depth chain : Nat} {text : List Token} {node? : Option Node} :
    ItemText depth chain text node? → ∀ node ∈ node?.toList, node.Shaped (·.isItem)
  | .empty _ => by simp
  | .statement _ stated => by
      rw [Option.toList_some, List.forall_mem_singleton]
      exact stated.shaped.mono fun kind isStatement => by simp [NodeKind.isItem, isStatement]
  | .directive _ directive => by
      rw [Option.toList_some, List.forall_mem_singleton]
      exact directive.shaped.mono fun kind isDirective => by simp [NodeKind.isItem, isDirective]
  | .sections sections => by
      rw [Option.toList_some, List.forall_mem_singleton]
      exact sections.shaped.isItem

theorem ItemsText.shaped {depth chain : Nat} {text : List Token} {nodes : List Node} :
    ItemsText depth chain text nodes → ∀ node ∈ nodes, node.Shaped (·.isItem)
  | .done => by simp
  | .more item later => List.forall_mem_append.mpr ⟨item.shaped, later.shaped⟩

theorem ChainedText.shaped {depth chain : Nat} {text : List Token} {node : Node} :
    ChainedText depth chain text node → node.Shaped (·.isSection)
  | .sections _ _ first later => first.shaped_append later.shaped

theorem LaterText.shaped {depth chain : Nat} {kind : Section} {text : List Token}
    {nodes : List Node} : LaterText depth chain kind text nodes →
      ∀ node ∈ nodes, node.Shaped (·.isSection)
  | .done _ => by simp
  | .more _ here later => by
      have shaped := here.shaped_append (List.forall_mem_nil _)
      rw [Node.append_nil] at shaped
      exact List.forall_mem_cons.mpr ⟨shaped, later.shaped⟩

/-- A section conforms, and it does so with later sections of its chain behind its children. -/
theorem SectionText.shaped_append {depth chain : Nat} {kind : Section} {marker : Token}
    {text : List Token} {node : Node} {others : List Node}
    (sections : ∀ other ∈ others, other.Shaped (·.isSection)) :
    SectionText depth chain kind marker text node →
      ({ node with children := node.children ++ others } : Node).Shaped (·.isSection)
  | @SectionText.code _ _ marker _ _ children items heading body => by
      have isHeader : (Node.tagged .header marker children).Everywhere Conforms :=
        Node.everywhere_tagged.mpr ⟨allOf_of_shaped heading.shaped, fun child member =>
          (heading.shaped child member).2⟩
      have areItems : ∀ item ∈ items ++ others, item.Shaped (·.isItem) :=
        List.forall_mem_append.mpr ⟨body.shaped, fun other member => (sections other member).isItem⟩
      refine shaped_mk rfl ⟨_, items ++ others, rfl, rfl, allOf_of_shaped areItems⟩ ?_
      exact List.forall_mem_cons.mpr ⟨isHeader, fun item member => (areItems item member).2⟩
  | @SectionText.preprocessor _ _ _ _ nodes directives => by
      refine shaped_mk rfl ⟨nodes, others, rfl, allOf_of_shaped directives.shaped,
        allOf_of_shaped sections⟩ ?_
      exact List.forall_mem_append.mpr ⟨fun node member => (directives.shaped node member).2,
        fun other member => (sections other member).2⟩

end

/-- Every node of a tree that is read has the children that a node of its kind has, and a header is
nowhere but at the front of a block. -/
theorem readTree_conforms {tokens : Array Token} {label : String} {limits : Limits} {root : Node}
    (read : readTree tokens label limits = .ok root) :
    root.kind = .root ∧ ∀ entry ∈ root.preorder, entry.2.Conforms ∧
      ∀ child ∈ entry.2.children, child.kind = .header →
        entry.2.kind = .block ∧ entry.2.children.head? = some child := by
  obtain ⟨items, rfl, file⟩ := itemsText_of_readTree read
  have conforms : Node.Everywhere Conforms ⟨.root, .root label, items⟩ :=
    Node.everywhere_mk.mpr ⟨allOf_of_shaped file.shaped, fun item member =>
      (file.shaped item member).2⟩
  refine ⟨rfl, fun entry member => ?_⟩
  have here : entry.2.Conforms := Node.everywhere_iff_preorder.mp conforms entry member
  exact ⟨here, fun child => here.head?_of_header⟩

/-- The tokens of `;int n = m`. -/
def assignedDefinition : Array Token :=
  #[⟨.lineSeparator, ";", 1, 1, ⟨0, 1⟩⟩, ⟨.builtinType, "int", 1, 2, ⟨1, 4⟩⟩,
    ⟨.userWord, "n", 1, 6, ⟨5, 6⟩⟩, ⟨.operator, "=", 1, 8, ⟨7, 8⟩⟩,
    ⟨.userWord, "m", 1, 10, ⟨9, 10⟩⟩]

def assignedDefinitionNode : Node :=
  .tagged .definition assignedDefinition[1]
    [.tagged .type assignedDefinition[1] [.leaf .typeName assignedDefinition[1]],
      .tagged .valueList assignedDefinition[2]
        [⟨.binary, assignedDefinition[3],
          [.leaf .identifier assignedDefinition[2], .leaf .identifier assignedDefinition[4]]⟩]]

/-- The list of a definition has a name to which a value is assigned. -/
theorem readTree_conforms_assignedDefinition :
    readTree assignedDefinition "file" .standard =
        .ok ⟨.root, .root "file", [assignedDefinitionNode]⟩ ∧
      assignedDefinitionNode.Conforms := by
  have read : readTree assignedDefinition "file" .standard =
      .ok ⟨.root, .root "file", [assignedDefinitionNode]⟩ := by decide +kernel
  exact ⟨read, ((readTree_conforms read).2 (1, assignedDefinitionNode) (by decide +kernel)).1⟩

end TnslReader
