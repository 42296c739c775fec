import TnslReader.Proofs.SectionSoundness
import TnslReader.Proofs.TreePaths

/-!
Contract: what the tree of a file inherits from its values and types.

All operations of a tree stand within its values and types. Above them a node only holds what was
read in some place, and takes at most a level. So a property that values and types have within some
room, that goes from children to such nodes, and that more room cannot take away, is one of the
whole tree.

Owns: what a property has to fulfil, and that then files have it.
Does not own: any such property.
-/

set_option autoImplicit false

namespace TnslReader

/-- The node of a statement of a keyword is no operation. -/
theorem isOperation_eq_false_of_keyword {word : Keyword} {kind : NodeKind}
    (found : word.namingKind? = some kind ∨ word.loopingKind? = some kind ∨
      word.memoryKind? = some kind) : kind.isOperation = false := by
  cases kind <;> first
    | rfl
    | cases word <;> simp [Keyword.namingKind?, Keyword.loopingKind?, Keyword.memoryKind?] at found

/-- A property of trees, within some room, that the tree of a file inherits. -/
structure Inherited (holds : Nat → Nat → Node → Prop) : Prop where
  value : ∀ {depth chain order : Nat} {text : List Token} {node : Node},
    ValueText depth chain order text node → holds depth chain node
  type : ∀ {inParameter : Bool} {depth chain : Nat} {text : List Token} {node : Node},
    TypeText inParameter depth chain text node → holds depth chain node
  node : ∀ {depth chain : Nat} {node : Node}, node.kind.isOperation = false →
    (∀ child ∈ node.children, holds depth chain child) → holds depth chain node
  level : ∀ {depth inner chain : Nat} {node : Node}, inner < depth →
    holds inner chain node → holds depth chain node

variable {holds : Nat → Nat → Node → Prop}

namespace Inherited

variable {depth chain : Nat} {kind : NodeKind} {anchor token : Token} {children : List Node}
  {text : List Token}

theorem leaf (inherited : Inherited holds) (noOperation : kind.isOperation = false) :
    holds depth chain (.leaf kind token) :=
  inherited.node noOperation (List.forall_mem_nil _)

theorem tagged (inherited : Inherited holds) (noOperation : kind.isOperation = false)
    (below : ∀ child ∈ children, holds depth chain child) :
    holds depth chain (.tagged kind anchor children) :=
  inherited.node noOperation below

theorem map_leaf (inherited : Inherited holds) (noOperation : kind.isOperation = false) :
    ∀ node ∈ text.map (Node.leaf kind), holds depth chain node := by
  intro node member
  obtain ⟨token, -, rfl⟩ := List.mem_map.mp member
  exact inherited.leaf noOperation

end Inherited

/-! ### Lists of values and types -/

theorem ValuesText.inherits {depth chain : Nat} {text : List Token} {nodes : List Node}
    (inherited : Inherited holds) (listed : ValuesText depth chain text nodes) :
    ∀ node ∈ nodes, holds depth chain node := by
  induction nodes generalizing text with
  | nil => simp
  | cons node nodes inductionHypothesis =>
      cases listed with
      | last value => exact List.forall_mem_singleton.mpr (inherited.value value)
      | more value _ later =>
          exact List.forall_mem_cons.mpr ⟨inherited.value value, inductionHypothesis later⟩

theorem TypesText.inherits {depth chain : Nat} {text : List Token} {nodes : List Node}
    (inherited : Inherited holds) (listed : TypesText depth chain text nodes) :
    ∀ node ∈ nodes, holds depth chain node := by
  induction nodes generalizing text with
  | nil => simp
  | cons node nodes inductionHypothesis =>
      cases listed with
      | last type => exact List.forall_mem_singleton.mpr (inherited.type type)
      | more type _ later =>
          exact List.forall_mem_cons.mpr ⟨inherited.type type, inductionHypothesis later⟩

/-! ### Statements -/

section

variable (inherited : Inherited holds) {depth chain : Nat} {text : List Token} {node : Node}
  {nodes : List Node}

include inherited

theorem SimpleText.inherits (simple : SimpleText depth chain text node) :
    holds depth chain node := by
  cases simple with
  | definition typed listed =>
      exact inherited.tagged rfl (List.forall_mem_cons.mpr ⟨inherited.type typed,
        List.forall_mem_singleton.mpr (inherited.tagged rfl (listed.inherits inherited))⟩)
  | value valued =>
      exact inherited.tagged rfl (List.forall_mem_singleton.mpr (inherited.value valued))

theorem ParameterText.inherits {typed : Bool}
    (parameter : ParameterText depth chain typed text nodes) :
    ∀ node ∈ nodes, holds depth chain node := by
  cases parameter with
  | name => exact List.forall_mem_singleton.mpr (inherited.leaf rfl)
  | typed isType _ =>
      exact List.forall_mem_cons.mpr
        ⟨inherited.type isType, List.forall_mem_singleton.mpr (inherited.leaf rfl)⟩

theorem ParametersText.inherits {typed : Bool}
    (listed : ParametersText depth chain typed text nodes) :
    ∀ node ∈ nodes, holds depth chain node := by
  induction listed with
  | last parameter => exact parameter.inherits inherited
  | more parameter _ _ inductionHypothesis =>
      exact List.forall_mem_append.mpr ⟨parameter.inherits inherited, inductionHypothesis⟩

theorem ParameterListText.inherits (listed : ParameterListText depth chain text nodes) :
    ∀ node ∈ nodes, holds depth chain node := by
  cases listed with
  | none => simp
  | some listed => exact listed.inherits inherited

theorem StatementsText.inherits (listed : StatementsText depth chain text nodes) :
    ∀ node ∈ nodes, holds depth chain node := by
  induction listed with
  | none => simp
  | last simple => exact List.forall_mem_singleton.mpr (simple.inherits inherited)
  | missing _ _ inductionHypothesis => exact inductionHypothesis
  | more simple _ _ inductionHypothesis =>
      exact List.forall_mem_cons.mpr ⟨simple.inherits inherited, inductionHypothesis⟩

theorem SuperTypesText.inherits (supers : SuperTypesText depth chain text nodes) :
    ∀ node ∈ nodes, holds depth chain node := by
  cases supers with
  | none => simp
  | listed _ values _ =>
      exact List.forall_mem_singleton.mpr (inherited.tagged rfl (values.inherits inherited))

theorem BaseTypeText.inherits (based : BaseTypeText depth chain text nodes) :
    ∀ node ∈ nodes, holds depth chain node := by
  cases based with
  | none => simp
  | type _ typed _ => exact List.forall_mem_singleton.mpr (inherited.type typed)

theorem KeywordText.inherits (worded : KeywordText depth chain text node) :
    holds depth chain node := by
  cases worded with
  | struct _ _ _ supers _ listed _ =>
      refine inherited.node rfl ?_
      simp only [List.forall_mem_append, List.forall_mem_cons]
      exact ⟨⟨inherited.map_leaf rfl, inherited.leaf rfl, supers.inherits inherited⟩,
        inherited.tagged rfl (listed.inherits inherited), List.forall_mem_nil _⟩
  | enum _ _ based _ listed _ =>
      refine inherited.node rfl ?_
      simp only [List.forall_mem_append, List.forall_mem_cons]
      exact ⟨⟨inherited.leaf rfl, based.inherits inherited⟩,
        inherited.tagged rfl (listed.inherits inherited), List.forall_mem_nil _⟩
  | naming _ names _ =>
      exact inherited.node (isOperation_eq_false_of_keyword (.inl names))
        (List.forall_mem_singleton.mpr (inherited.leaf rfl))
  | looping _ loops => exact inherited.leaf (isOperation_eq_false_of_keyword (.inr (.inl loops)))
  | loopingTimes _ loops _ _ =>
      exact inherited.node (isOperation_eq_false_of_keyword (.inr (.inl loops)))
        (List.forall_mem_singleton.mpr (inherited.leaf rfl))
  | returning => exact inherited.leaf rfl
  | returningValue _ valued =>
      exact inherited.node rfl (List.forall_mem_singleton.mpr (inherited.value valued))
  | memory _ isMemory listed _ =>
      exact inherited.node (isOperation_eq_false_of_keyword (.inr (.inr isMemory)))
        (List.forall_mem_singleton.mpr (inherited.tagged rfl (listed.inherits inherited)))
  | asm => exact inherited.node rfl (inherited.map_leaf rfl)

theorem StatementText.inherits (stated : StatementText depth chain text node) :
    holds depth chain node := by
  cases stated with
  | keyword worded => exact worded.inherits inherited
  | simple simple => exact simple.inherits inherited

/-! ### Headers and directives -/

theorem HeaderListText.inherits {control : Bool} {bracket : Bracket} {opener : Token}
    (listed : HeaderListText depth chain control bracket text opener node) :
    holds depth chain node := by
  cases listed with
  | statements listed => exact inherited.tagged rfl (listed.inherits inherited)
  | parameters listed => exact inherited.tagged rfl (listed.inherits inherited)
  | types listed => exact inherited.tagged rfl (listed.inherits inherited)

theorem HeaderWordText.inherits {state next : HeaderState} {rest : List Token}
    (worded : HeaderWordText state text rest node next) : holds depth chain node := by
  cases worded with
  | modifier | elseIf | control => exact inherited.leaf rfl
  | operator | name =>
      exact inherited.node rfl (List.forall_mem_singleton.mpr (inherited.leaf rfl))

theorem HeaderText.inherits {state : HeaderState}
    (headed : HeaderText depth chain state text nodes) :
    ∀ node ∈ nodes, holds depth chain node := by
  induction headed with
  | done => simp
  | list _ _ _ listed _ _ inductionHypothesis =>
      exact List.forall_mem_cons.mpr ⟨listed.inherits inherited, inductionHypothesis⟩
  | name _ _ _ _ inductionHypothesis =>
      exact List.forall_mem_cons.mpr ⟨inherited.leaf rfl, inductionHypothesis⟩
  | word worded _ inductionHypothesis =>
      exact List.forall_mem_cons.mpr ⟨worded.inherits inherited, inductionHypothesis⟩
  | condition _ valued _ =>
      exact List.forall_mem_singleton.mpr
        (inherited.tagged rfl (List.forall_mem_singleton.mpr (inherited.value valued)))

theorem DirectiveText.inherits (directive : DirectiveText text node) :
    holds depth chain node := by
  cases directive with
  | directive => exact inherited.node rfl (inherited.map_leaf rfl)

theorem DirectivesText.inherits (directives : DirectivesText text nodes) :
    ∀ node ∈ nodes, holds depth chain node := by
  induction directives with
  | done => simp
  | colon _ _ inductionHypothesis => exact inductionHypothesis
  | directive directive _ inductionHypothesis =>
      exact List.forall_mem_cons.mpr ⟨directive.inherits inherited, inductionHypothesis⟩

end

/-! ### Sections and items -/

mutual

theorem ItemText.inherits {depth chain : Nat} {text : List Token} {node? : Option Node}
    (inherited : Inherited holds) :
    ItemText depth chain text node? → ∀ node ∈ node?.toList, holds depth chain node
  | .empty _ => by simp
  | .statement _ stated => List.forall_mem_singleton.mpr (stated.inherits inherited)
  | .directive _ directive => List.forall_mem_singleton.mpr (directive.inherits inherited)
  | .sections sections => List.forall_mem_singleton.mpr (sections.inherits inherited)

theorem ItemsText.inherits {depth chain : Nat} {text : List Token} {nodes : List Node}
    (inherited : Inherited holds) :
    ItemsText depth chain text nodes → ∀ node ∈ nodes, holds depth chain node
  | .done => by simp
  | .more item later =>
      List.forall_mem_append.mpr ⟨item.inherits inherited, later.inherits inherited⟩

theorem ChainedText.inherits {depth chain : Nat} {text : List Token} {node : Node}
    (inherited : Inherited holds) :
    ChainedText depth chain text node → holds depth chain node
  | .sections level _ first later => by
      obtain ⟨noOperation, below⟩ := first.inherits inherited
      refine inherited.level level (inherited.node noOperation ?_)
      exact List.forall_mem_append.mpr ⟨below, later.inherits inherited⟩

theorem LaterText.inherits {depth chain : Nat} {kind : Section} {text : List Token}
    {nodes : List Node} (inherited : Inherited holds) :
    LaterText depth chain kind text nodes → ∀ node ∈ nodes, holds depth chain node
  | .done _ => by simp
  | .more _ here later =>
      have ⟨noOperation, below⟩ := here.inherits inherited
      List.forall_mem_cons.mpr
        ⟨inherited.node noOperation below, later.inherits inherited⟩

/-- The node of a section is no operation, and may get further children. -/
theorem SectionText.inherits {depth chain : Nat} {kind : Section} {marker : Token}
    {text : List Token} {node : Node} (inherited : Inherited holds) :
    SectionText depth chain kind marker text node →
      node.kind.isOperation = false ∧ ∀ child ∈ node.children, holds depth chain child
  | .code heading body =>
      ⟨rfl, List.forall_mem_cons.mpr
        ⟨inherited.tagged rfl (heading.inherits inherited), body.inherits inherited⟩⟩
  | .preprocessor directives => ⟨rfl, directives.inherits inherited⟩

end

/-- What values and types have within the limits, the tree of a file has. -/
theorem Inherited.of_readTree {tokens : Array Token} {label : String} {limits : Limits}
    {root : Node} (inherited : Inherited holds)
    (read : readTree tokens label limits = .ok root) :
    holds limits.maxDepth limits.maxChain root := by
  obtain ⟨items, rfl, file⟩ := itemsText_of_readTree read
  exact inherited.node rfl (file.inherits inherited)

end TnslReader
