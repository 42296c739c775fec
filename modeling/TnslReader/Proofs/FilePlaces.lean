import TnslReader.Proofs.SectionGrammar
import TnslReader.Proofs.ValuePlaces

/-!
Contract: every node of a statement, a header, a section or an item has its token from the text it
stands for.

The node that a file has above its items is made for the file as a whole, and stands nowhere.
-/

set_option autoImplicit false

namespace TnslReader

open Node (drawnFrom_mk drawnFrom_leaf drawnFrom_tagged)

theorem Node.drawnFrom_append {node : Node} {nodes : List Node} {text : List Token}
    (drawn : node.DrawnFrom text) (others : ∀ other ∈ nodes, other.DrawnFrom text) :
    ({ node with children := node.children ++ nodes } : Node).DrawnFrom text := by
  cases node
  obtain ⟨here, children⟩ := everywhere_mk.mp drawn
  exact everywhere_mk.mpr ⟨here, List.forall_mem_append.mpr ⟨children, others⟩⟩

theorem drawnFrom_map_leaf {kind : NodeKind} {tokens text : List Token}
    (shown : kind.showsText = true) (subset : tokens ⊆ text) :
    ∀ node ∈ tokens.map (Node.leaf kind), node.DrawnFrom text :=
  List.forall_mem_map.mpr fun _ member => drawnFrom_leaf (subset member) (.inl shown)

/-- A keyword is no literal, so a node may have one for its token that it does not show. -/
theorem shown_of_isKeyword {kind : NodeKind} {token : Token} {word : Keyword}
    (isWord : token.isKeyword word = true) :
    kind.showsText = true ∨ token.tokenClass ≠ .literal := by
  simp [Token.tokenClass_of_isKeyword isWord]

/-! ### Statements -/

variable {depth chain : Nat} {text : List Token} {node : Node} {nodes : List Node}

theorem SimpleText.drawn (simple : SimpleText depth chain text node) : node.DrawnFrom text := by
  cases simple with
  | definition typed listed _ begins namesBegin _ =>
      apply drawnFrom_tagged (List.mem_append_left _ (List.mem_of_mem_head? begins)) rfl
      rw [List.forall_mem_cons, List.forall_mem_singleton]
      exact ⟨typed.drawn.mono (by simp), drawnFrom_tagged
        (List.mem_append_right _ (List.mem_of_mem_head? namesBegin)) rfl
        (drawnFrom_all_mono listed.drawn (by simp))⟩
  | value valued begins =>
      exact drawnFrom_tagged (List.mem_of_mem_head? begins) rfl
        (List.forall_mem_singleton.mpr valued.drawn)

theorem ParameterText.drawn {typed : Bool}
    (parameter : ParameterText depth chain typed text nodes) :
    ∀ node ∈ nodes, node.DrawnFrom text := by
  cases parameter with
  | name => exact List.forall_mem_singleton.mpr (drawnFrom_leaf (by simp) (.inl rfl))
  | typed isType _ =>
      rw [List.forall_mem_cons, List.forall_mem_singleton]
      exact ⟨isType.drawn.mono (by simp), drawnFrom_leaf (by simp) (.inl rfl)⟩

theorem ParametersText.drawn {typed : Bool}
    (listed : ParametersText depth chain typed text nodes) :
    ∀ node ∈ nodes, node.DrawnFrom text := by
  induction listed with
  | last parameter => exact parameter.drawn
  | more parameter _ _ inductionHypothesis =>
      exact List.forall_mem_append.mpr ⟨drawnFrom_all_mono parameter.drawn (by simp),
        drawnFrom_all_mono inductionHypothesis (by simp)⟩

theorem ParameterListText.drawn (listed : ParameterListText depth chain text nodes) :
    ∀ node ∈ nodes, node.DrawnFrom text := by
  cases listed with
  | none => simp
  | some listed => exact listed.drawn

theorem StatementsText.drawn (listed : StatementsText depth chain text nodes) :
    ∀ node ∈ nodes, node.DrawnFrom text := by
  induction listed with
  | none => simp
  | last simple => exact List.forall_mem_singleton.mpr simple.drawn
  | missing _ _ inductionHypothesis => exact drawnFrom_all_mono inductionHypothesis (by simp)
  | more simple _ _ inductionHypothesis =>
      exact List.forall_mem_cons.mpr ⟨simple.drawn.mono (by simp),
        drawnFrom_all_mono inductionHypothesis (by simp)⟩

theorem SuperTypesText.drawn (supers : SuperTypesText depth chain text nodes) :
    ∀ node ∈ nodes, node.DrawnFrom text := by
  cases supers with
  | none => simp
  | listed _ values _ =>
      exact List.forall_mem_singleton.mpr
        (drawnFrom_tagged (by simp) rfl (drawnFrom_all_mono values.drawn (by simp)))

theorem BaseTypeText.drawn (based : BaseTypeText depth chain text nodes) :
    ∀ node ∈ nodes, node.DrawnFrom text := by
  cases based with
  | none => simp
  | type _ typed _ => exact List.forall_mem_singleton.mpr (typed.drawn.mono (by simp))

theorem KeywordText.drawn (worded : KeywordText depth chain text node) : node.DrawnFrom text := by
  cases worded with
  | struct _ isStruct _ supers _ listed _ =>
      apply drawnFrom_mk (by simp) (shown_of_isKeyword isStruct)
      simp only [List.forall_mem_append, List.forall_mem_cons]
      exact ⟨⟨drawnFrom_map_leaf rfl (by simp), drawnFrom_leaf (by simp) (.inl rfl),
        drawnFrom_all_mono supers.drawn fun token member => by simp [member]⟩,
        drawnFrom_tagged (by simp) rfl
          (drawnFrom_all_mono listed.drawn fun token member => by simp [member]),
        List.forall_mem_nil _⟩
  | enum isEnum _ based _ listed _ =>
      apply drawnFrom_mk (by simp) (shown_of_isKeyword isEnum)
      simp only [List.forall_mem_append, List.forall_mem_cons]
      exact ⟨⟨drawnFrom_leaf (by simp) (.inl rfl),
        drawnFrom_all_mono based.drawn fun token member => by simp [member]⟩,
        drawnFrom_tagged (by simp) rfl
          (drawnFrom_all_mono listed.drawn fun token member => by simp [member]),
        List.forall_mem_nil _⟩
  | naming isKeyword =>
      exact drawnFrom_mk (by simp) (shown_of_isKeyword isKeyword)
        (List.forall_mem_singleton.mpr (drawnFrom_leaf (by simp) (.inl rfl)))
  | looping isKeyword => exact drawnFrom_leaf (by simp) (shown_of_isKeyword isKeyword)
  | loopingTimes isKeyword =>
      exact drawnFrom_mk (by simp) (shown_of_isKeyword isKeyword)
        (List.forall_mem_singleton.mpr (drawnFrom_leaf (by simp) (.inl rfl)))
  | returning isReturn => exact drawnFrom_leaf (by simp) (shown_of_isKeyword isReturn)
  | returningValue isReturn valued =>
      exact drawnFrom_mk (by simp) (shown_of_isKeyword isReturn)
        (List.forall_mem_singleton.mpr (valued.drawn.mono (by simp)))
  | memory isKeyword _ listed begins =>
      exact drawnFrom_mk (by simp) (shown_of_isKeyword isKeyword) (List.forall_mem_singleton.mpr
        (drawnFrom_tagged (List.mem_cons_of_mem _ (List.mem_of_mem_head? begins)) rfl
          (drawnFrom_all_mono listed.drawn (by simp))))
  | asm isAsm =>
      exact drawnFrom_mk (by simp) (shown_of_isKeyword isAsm) (drawnFrom_map_leaf rfl (by simp))

theorem StatementText.drawn (stated : StatementText depth chain text node) :
    node.DrawnFrom text := by
  cases stated with
  | keyword worded => exact worded.drawn
  | simple simple => exact simple.drawn

/-! ### Headers and directives -/

theorem HeaderListText.drawn {control : Bool} {bracket : Bracket} {opener : Token}
    (listed : HeaderListText depth chain control bracket text opener node) :
    node.DrawnFrom (opener :: text) := by
  cases listed with
  | statements listed =>
      exact drawnFrom_tagged (by simp) rfl (drawnFrom_all_mono listed.drawn (by simp))
  | parameters listed =>
      exact drawnFrom_tagged (by simp) rfl (drawnFrom_all_mono listed.drawn (by simp))
  | types listed => exact drawnFrom_tagged (by simp) rfl (drawnFrom_all_mono listed.drawn (by simp))

theorem HeaderWordText.drawn {state next : HeaderState} {rest : List Token}
    (worded : HeaderWordText state text rest node next) : node.DrawnFrom text := by
  cases worded with
  | modifier => exact drawnFrom_leaf (by simp) (.inl rfl)
  | @elseIf token =>
      exact Node.everywhere_leaf.mpr (.joined (by simp))
  | control => exact drawnFrom_leaf (by simp) (.inl rfl)
  | operator | name =>
      exact drawnFrom_mk (by simp) (.inl rfl)
        (List.forall_mem_singleton.mpr (drawnFrom_leaf (by simp) (.inl rfl)))

theorem HeaderText.drawn {state : HeaderState} (headed : HeaderText depth chain state text nodes) :
    ∀ node ∈ nodes, node.DrawnFrom text := by
  induction headed with
  | done => simp
  | list _ _ _ listed _ _ inductionHypothesis =>
      exact List.forall_mem_cons.mpr ⟨listed.drawn.mono (by simp),
        drawnFrom_all_mono inductionHypothesis fun token member => by simp [member]⟩
  | name _ _ _ _ inductionHypothesis =>
      exact List.forall_mem_cons.mpr ⟨drawnFrom_leaf (by simp) (.inl rfl),
        drawnFrom_all_mono inductionHypothesis (by simp)⟩
  | word worded _ inductionHypothesis =>
      exact List.forall_mem_cons.mpr ⟨worded.drawn.mono (by simp),
        drawnFrom_all_mono inductionHypothesis (by simp)⟩
  | condition _ valued begins =>
      exact List.forall_mem_singleton.mpr (drawnFrom_tagged (List.mem_of_mem_head? begins) rfl
        (List.forall_mem_singleton.mpr valued.drawn))

theorem DirectiveText.drawn (directive : DirectiveText text node) : node.DrawnFrom text := by
  cases directive with
  | directive => exact drawnFrom_mk (by simp) (.inl rfl) (drawnFrom_map_leaf rfl (by simp))

theorem DirectivesText.drawn (directives : DirectivesText text nodes) :
    ∀ node ∈ nodes, node.DrawnFrom text := by
  induction directives with
  | done => simp
  | colon _ _ inductionHypothesis => exact drawnFrom_all_mono inductionHypothesis (by simp)
  | directive directive _ inductionHypothesis =>
      exact List.forall_mem_cons.mpr ⟨directive.drawn.mono (by simp),
        drawnFrom_all_mono inductionHypothesis (by simp)⟩

/-! ### Sections and items -/

mutual

theorem ItemText.drawn {depth chain : Nat} {text : List Token} {node? : Option Node} :
    ItemText depth chain text node? → ∀ node ∈ node?.toList, node.DrawnFrom text
  | .empty _ => by simp
  | .statement _ stated => by
      rw [Option.toList_some, List.forall_mem_singleton]
      exact stated.drawn.mono (by simp)
  | .directive _ directive => by
      rw [Option.toList_some, List.forall_mem_singleton]
      exact directive.drawn.mono (by simp)
  | .sections sections => by
      rw [Option.toList_some, List.forall_mem_singleton]
      exact sections.drawn

theorem ItemsText.drawn {depth chain : Nat} {text : List Token} {nodes : List Node} :
    ItemsText depth chain text nodes → ∀ node ∈ nodes, node.DrawnFrom text
  | .done => by simp
  | .more item later => List.forall_mem_append.mpr
      ⟨drawnFrom_all_mono item.drawn (by simp), drawnFrom_all_mono later.drawn (by simp)⟩

theorem ChainedText.drawn {depth chain : Nat} {text : List Token} {node : Node} :
    ChainedText depth chain text node → node.DrawnFrom text
  | .sections _ _ first later =>
      Node.drawnFrom_append (first.drawn.mono (by simp))
        (drawnFrom_all_mono later.drawn fun token member => by simp [member])

theorem LaterText.drawn {depth chain : Nat} {kind : Section} {text : List Token}
    {nodes : List Node} : LaterText depth chain kind text nodes →
      ∀ node ∈ nodes, node.DrawnFrom text
  | .done _ => by simp
  | .more _ here later => List.forall_mem_cons.mpr
      ⟨here.drawn.mono (by simp),
        drawnFrom_all_mono later.drawn fun token member => by simp [member]⟩

theorem SectionText.drawn {depth chain : Nat} {kind : Section} {marker : Token}
    {text : List Token} {node : Node} :
    SectionText depth chain kind marker text node → node.DrawnFrom (marker :: text)
  | .code heading body => by
      refine drawnFrom_tagged (by simp) rfl (List.forall_mem_cons.mpr ⟨?_, ?_⟩)
      · exact drawnFrom_tagged (by simp) rfl (drawnFrom_all_mono heading.drawn (by simp))
      · exact drawnFrom_all_mono body.drawn (by simp)
  | .preprocessor directives =>
      drawnFrom_tagged (by simp) rfl (drawnFrom_all_mono directives.drawn (by simp))

end

/-- Every node of items stands where a token of their text stands. -/
theorem ItemsText.placed {depth chain : Nat} {text : List Token} {nodes : List Node}
    (items : ItemsText depth chain text nodes) :
    ∀ node ∈ nodes, node.Everywhere fun inner => inner.token.PlacedAmong text :=
  fun node member => (items.drawn node member).placed

end TnslReader
