import TnslReader.Proofs.Ensures
import TnslReader.Proofs.TokenFacts
import TnslReader.Proofs.TreeWalk
import TnslReader.Proofs.ValueGrammar

/-!
Contract: every node of a value or a type has its token from the text it stands for.

The token of a node is one of the text, or is made for the node in the place of one. A listing loses
no literal by this: a literal is the token of no node that does not show it. The token of a whole
value is made for it only if the value takes brackets, and stands where they open.
-/

set_option autoImplicit false

namespace TnslReader

namespace Node

/-- Where the token of a node of a kind comes from: it is one of the text, and if it is a literal
the kind shows it; or it is made for the node where one of the text stands. -/
inductive Origin (text : List Token) : NodeKind → Token → Prop where
  | kept {kind : NodeKind} {token : Token} (member : token ∈ text)
      (shown : kind.showsText = true ∨ token.tokenClass ≠ .literal) : Origin text kind token
  | made {kind : NodeKind} {anchor : Token} (member : anchor ∈ text)
      (hidden : kind.showsText = false) : Origin text kind (.tag kind.tag anchor)
  | joined {anchor : Token} (member : anchor ∈ text) :
      Origin text .keyword (anchor.respelled .keyword Keyword.elifWord.spelling)

def DrawnFrom (node : Node) (text : List Token) : Prop :=
  node.Everywhere fun inner => Origin text inner.kind inner.token

variable {text other : List Token} {kind : NodeKind} {token anchor : Token} {children : List Node}

theorem Origin.mono (origin : Origin text kind token) (subset : text ⊆ other) :
    Origin other kind token := by
  cases origin with
  | kept member shown => exact .kept (subset member) shown
  | made member hidden => exact .made (subset member) hidden
  | joined member => exact .joined (subset member)

/-- Whatever its origin, the token of a node stands where one of the text stands. -/
theorem Origin.placed (origin : Origin text kind token) : token.PlacedAmong text := by
  cases origin with
  | kept member _ => exact Token.placedAmong_of_mem member
  | made member _ | joined member => exact ⟨_, member, rfl, rfl, rfl⟩

/-- A node that has a literal for its token shows it. -/
theorem Origin.showsText (origin : Origin text kind token)
    (isLiteral : token.tokenClass = .literal) : kind.showsText = true := by
  cases origin with
  | kept _ shown => exact shown.resolve_right (absurd isLiteral)
  | made | joined => cases isLiteral

theorem DrawnFrom.mono {node : Node} (drawn : node.DrawnFrom text) (subset : text ⊆ other) :
    node.DrawnFrom other :=
  Everywhere.mono (fun _ here => here.mono subset) node drawn

theorem DrawnFrom.placed {node : Node} (drawn : node.DrawnFrom text) :
    node.Everywhere fun inner => inner.token.PlacedAmong text :=
  Everywhere.mono (fun _ origin => origin.placed) node drawn

theorem drawnFrom_mk (member : token ∈ text)
    (shown : kind.showsText = true ∨ token.tokenClass ≠ .literal)
    (drawn : ∀ child ∈ children, child.DrawnFrom text) : DrawnFrom ⟨kind, token, children⟩ text :=
  everywhere_mk.mpr ⟨.kept member shown, drawn⟩

theorem drawnFrom_leaf (member : token ∈ text)
    (shown : kind.showsText = true ∨ token.tokenClass ≠ .literal) :
    (leaf kind token).DrawnFrom text :=
  everywhere_leaf.mpr (.kept member shown)

theorem drawnFrom_tagged (member : anchor ∈ text) (hidden : kind.showsText = false)
    (drawn : ∀ child ∈ children, child.DrawnFrom text) :
    (tagged kind anchor children).DrawnFrom text :=
  everywhere_tagged.mpr ⟨.made member hidden, drawn⟩

end Node

/-- The nodes of a list are drawn from a text if they are drawn from a part of it. -/
theorem drawnFrom_all_mono {nodes : List Node} {text other : List Token}
    (drawn : ∀ node ∈ nodes, node.DrawnFrom text) (subset : text ⊆ other) :
    ∀ node ∈ nodes, node.DrawnFrom other :=
  fun node member => (drawn node member).mono subset

theorem Token.leafKind?_showsText {token : Token} {kind : NodeKind}
    (isLeaf : token.leafKind? = some kind) : kind.showsText = true := by
  unfold leafKind? at isLeaf
  split at isLeaf <;> cases isLeaf <;> rfl

/-- An operator is no literal, so a node may have one for its token that it does not show. -/
theorem shown_of_isOperator {kind : NodeKind} {token : Token} {operator : Operator}
    (is : token.isOperator operator = true) :
    kind.showsText = true ∨ token.tokenClass ≠ .literal := by
  simp [Token.tokenClass_of_operator? (Token.operator?_of_isOperator is)]

open Node (drawnFrom_mk drawnFrom_leaf drawnFrom_tagged)

theorem DottedText.drawn {text : List Token} {path : List Node} {name : Token}
    (dotted : DottedText text path name) :
    name ∈ text ∧ ∀ node ∈ path, node.DrawnFrom text := by
  induction dotted with
  | word => simp
  | @dot word dot name text path _ _ _ inductionHypothesis =>
      obtain ⟨nameIn, pathIn⟩ := inductionHypothesis
      refine ⟨by simp [nameIn], ?_⟩
      simp only [List.mem_cons, forall_eq_or_imp]
      exact ⟨drawnFrom_leaf (by simp) (.inl rfl), drawnFrom_all_mono pathIn (by simp)⟩

theorem NameText.drawn {text : List Token} {path : List Node} {name : Token}
    (named : NameText text path name) : name ∈ text ∧ ∀ node ∈ path, node.DrawnFrom text := by
  cases named with
  | builtin => simp
  | dotted words => exact words.drawn

theorem ReferenceText.drawn {inParameter : Bool} {text : List Token} {nodes : List Node}
    (referred : ReferenceText inParameter text nodes) : ∀ node ∈ nodes, node.DrawnFrom text := by
  cases referred with
  | none => simp
  | mark _ isMark =>
      simpa using drawnFrom_leaf (by simp) (shown_of_isOperator isMark)

mutual

theorem ValueText.drawn {depth chain order : Nat} {text : List Token} {node : Node} :
    ValueText depth chain order text node → node.DrawnFrom text
  | .unary _ operand => operand.drawn
  | .composite _ _ values _ =>
      drawnFrom_tagged (by simp) rfl (drawnFrom_all_mono values.drawn (by simp))
  | .chain _ _ _ operands => operands.drawn

theorem ChainText.drawn {depth chain order count : Nat} {text : List Token} {node : Node} :
    ChainText depth chain order count text node → node.DrawnFrom text
  | .first operand _ => operand.drawn
  | .value before _ _ operand _ => by
      apply drawnFrom_mk (by simp) (.inl rfl)
      simp only [List.mem_cons, List.not_mem_nil, or_false, forall_eq_or_imp, forall_eq]
      exact ⟨before.drawn.mono (by simp), operand.drawn.mono (by simp)⟩
  | .type before _ _ operand => by
      apply drawnFrom_mk (by simp) (.inl rfl)
      simp only [List.mem_cons, List.not_mem_nil, or_false, forall_eq_or_imp, forall_eq]
      exact ⟨before.drawn.mono (by simp), operand.drawn.mono (by simp)⟩

theorem UnaryText.drawn {depth chain : Nat} {text : List Token} {node : Node} :
    UnaryText depth chain text node → node.DrawnFrom text
  | .preceded _ _ _ operand =>
      drawnFrom_mk (by simp) (.inl rfl) (by simpa using operand.drawn.mono (by simp))
  | .followed primary after =>
      after.drawn (primary.drawn.mono (by simp)) (by simp)

theorem PrimaryText.drawn {depth chain : Nat} {text : List Token} {node : Node} :
    PrimaryText depth chain text node → node.DrawnFrom text
  | .leaf isLeaf => drawnFrom_leaf (by simp) (.inl (Token.leafKind?_showsText isLeaf))
  | .grouped _ value _ => value.drawn.mono (by simp)

/-- What comes after an operand is drawn from any text that the two are drawn from. -/
theorem FollowedText.drawn {depth chain : Nat} {base node : Node} {text whole : List Token}
    (baseDrawn : base.DrawnFrom whole) (subset : text ⊆ whole) :
    FollowedText depth chain base text node → node.DrawnFrom whole
  | .done => baseDrawn
  | .operator _ _ after => by
      simp only [List.cons_subset] at subset
      exact after.drawn (drawnFrom_mk subset.1 (.inl rfl) (by simpa using baseDrawn)) subset.2
  | .call _ _ values _ after => by
      simp only [List.cons_subset, List.append_subset] at subset
      refine after.drawn (drawnFrom_tagged subset.1 rfl ?_) subset.2.2.2
      simp only [List.mem_cons, List.not_mem_nil, or_false, forall_eq_or_imp, forall_eq]
      exact ⟨baseDrawn, drawnFrom_tagged subset.1 rfl (drawnFrom_all_mono values.drawn subset.2.1)⟩
  | .index _ _ value _ after => by
      simp only [List.cons_subset, List.append_subset] at subset
      refine after.drawn (drawnFrom_tagged subset.1 rfl ?_) subset.2.2.2
      simp only [List.mem_cons, List.not_mem_nil, or_false, forall_eq_or_imp, forall_eq]
      exact ⟨baseDrawn, value.drawn.mono subset.2.1⟩
  | .cast _ _ types _ after => by
      simp only [List.cons_subset, List.append_subset] at subset
      refine after.drawn (drawnFrom_tagged subset.1 rfl ?_) subset.2.2.2
      simp only [List.mem_cons, List.not_mem_nil, or_false, forall_eq_or_imp, forall_eq]
      exact ⟨baseDrawn, drawnFrom_tagged subset.1 rfl (drawnFrom_all_mono types.drawn subset.2.1)⟩

theorem ValuesText.drawn {depth chain : Nat} {text : List Token} {nodes : List Node} :
    ValuesText depth chain text nodes → ∀ node ∈ nodes, node.DrawnFrom text
  | .none => by simp
  | .last value => by simpa using value.drawn
  | .more value _ later => by
      rw [List.forall_mem_cons]
      exact ⟨value.drawn.mono (by simp), drawnFrom_all_mono later.drawn (by simp)⟩

theorem TypeText.drawn {inParameter : Bool} {depth chain : Nat} {text : List Token}
    {node : Node} : TypeText inParameter depth chain text node → node.DrawnFrom text
  | @TypeText.type _ _ _ _ first name qualifiers marks words _ _ _ _ _ _ _ _ marked named applied
      referred begins => by
      obtain ⟨nameIn, pathIn⟩ := named.drawn
      have firstIn : first ∈ qualifiers ++ marks ++ words := List.mem_of_mem_head? begins
      apply drawnFrom_tagged (by simp only [List.mem_append] at firstIn ⊢; tauto) rfl
      simp only [List.mem_append, List.mem_cons, List.mem_map]
      intro child held
      rcases held with ((⟨token, member, rfl⟩ | member) | member) | rfl | member
      · exact drawnFrom_leaf (by simp [member]) (.inl rfl)
      · exact (marked.drawn child member).mono (by simp)
      · exact (pathIn child member).mono fun token held => by simp [held]
      · refine drawnFrom_mk (by simp [nameIn]) (.inl rfl) (drawnFrom_all_mono applied.drawn ?_)
        exact fun token held => by simp [held]
      · exact (referred.drawn child member).mono fun token held => by simp [held]

theorem MarksText.drawn {depth chain : Nat} {text : List Token} {nodes : List Node} :
    MarksText depth chain text nodes → ∀ node ∈ nodes, node.DrawnFrom text
  | .done => by simp
  | .pointer points later => by
      rw [List.forall_mem_cons]
      exact ⟨drawnFrom_leaf (by simp) (shown_of_isOperator points),
        drawnFrom_all_mono later.drawn (by simp)⟩
  | .unsized _ _ later => by
      rw [List.forall_mem_cons]
      refine ⟨drawnFrom_tagged (by simp) rfl (by simp), drawnFrom_all_mono later.drawn ?_⟩
      exact fun token member => by simp [member]
  | .sized _ value _ later => by
      rw [List.forall_mem_cons]
      refine ⟨drawnFrom_tagged (by simp) rfl (by simpa using value.drawn.mono (by simp)),
        drawnFrom_all_mono later.drawn ?_⟩
      exact fun token member => by simp [member]

theorem ArgumentsText.drawn {depth chain : Nat} {name : Token} {text : List Token}
    {nodes : List Node} :
    ArgumentsText depth chain name text nodes → ∀ node ∈ nodes, node.DrawnFrom text
  | .none => by simp
  | .arguments _ types _ => by
      simpa using drawnFrom_tagged (by simp) rfl (drawnFrom_all_mono types.drawn (by simp))
  | .results _ _ types _ _ resultTypes _ => by
      rw [List.forall_mem_cons, List.forall_mem_singleton]
      refine ⟨drawnFrom_tagged (by simp) rfl (drawnFrom_all_mono types.drawn (by simp)),
        drawnFrom_tagged (by simp) rfl (drawnFrom_all_mono resultTypes.drawn ?_)⟩
      exact fun token member => by simp [member]

theorem TypesText.drawn {depth chain : Nat} {text : List Token} {nodes : List Node} :
    TypesText depth chain text nodes → ∀ node ∈ nodes, node.DrawnFrom text
  | .none => by simp
  | .last type => by simpa using type.drawn
  | .more type _ later => by
      rw [List.forall_mem_cons]
      exact ⟨type.drawn.mono (by simp), drawnFrom_all_mono later.drawn (by simp)⟩

end

/-! ### The token of a whole value -/

def Token.HeadsValue (token : Token) (text : List Token) : Prop :=
  token ∈ text ∨ token.TagsBracket text

theorem Token.HeadsValue.mono {token : Token} {text other : List Token}
    (heads : token.HeadsValue text) (subset : text ⊆ other) : token.HeadsValue other :=
  heads.imp (fun member => subset member) fun tags => tags.mono subset

/-- A value of a kind that takes brackets has its token from the bracket that opens them. -/
theorem Node.headsValue_tagged {kind : NodeKind} {bracket : Bracket} {opener : Token}
    {children : List Node} {text : List Token} (takes : kind.valueBracket? = some bracket)
    (member : opener ∈ text) (opens : opener.opens? = some bracket) :
    (Node.tagged kind opener children).token.HeadsValue text :=
  .inr ⟨kind, bracket, opener, takes, member, opens, rfl⟩

open Node (headsValue_tagged)

mutual

theorem ValueText.headed {depth chain order : Nat} {text : List Token} {node : Node} :
    ValueText depth chain order text node → node.token.HeadsValue text
  | .unary _ operand => operand.headed
  | .composite _ opens _ _ => headsValue_tagged rfl (by simp) opens
  | .chain _ _ _ operands => operands.headed

theorem ChainText.headed {depth chain order count : Nat} {text : List Token} {node : Node} :
    ChainText depth chain order count text node → node.token.HeadsValue text
  | .first operand _ => operand.headed
  | .value _ _ _ _ _ => .inl (by simp)
  | .type _ _ _ _ => .inl (by simp)

theorem UnaryText.headed {depth chain : Nat} {text : List Token} {node : Node} :
    UnaryText depth chain text node → node.token.HeadsValue text
  | .preceded _ _ _ _ => .inl (by simp)
  | .followed primary after => after.headed (primary.headed.mono (by simp)) (by simp)

theorem PrimaryText.headed {depth chain : Nat} {text : List Token} {node : Node} :
    PrimaryText depth chain text node → node.token.HeadsValue text
  | .leaf _ => .inl (by simp [Node.leaf])
  | .grouped _ value _ => value.headed.mono (by simp)

/-- What comes after an operand has its token from any text that it and the operand stand in. -/
theorem FollowedText.headed {depth chain : Nat} {base node : Node} {text whole : List Token}
    (baseHeaded : base.token.HeadsValue whole) (subset : text ⊆ whole) :
    FollowedText depth chain base text node → node.token.HeadsValue whole
  | .done => baseHeaded
  | .operator _ _ after => by
      simp only [List.cons_subset] at subset
      exact after.headed (.inl subset.1) subset.2
  | .call _ opens _ _ after => by
      simp only [List.cons_subset, List.append_subset] at subset
      exact after.headed (headsValue_tagged rfl subset.1 opens) subset.2.2.2
  | .index _ opens _ _ after => by
      simp only [List.cons_subset, List.append_subset] at subset
      exact after.headed (headsValue_tagged rfl subset.1 opens) subset.2.2.2
  | .cast _ opens _ _ after => by
      simp only [List.cons_subset, List.append_subset] at subset
      exact after.headed (headsValue_tagged rfl subset.1 opens) subset.2.2.2

end

theorem ValuesText.headed {depth chain : Nat} {text : List Token} {nodes : List Node} :
    ValuesText depth chain text nodes → ∀ node ∈ nodes, node.token.HeadsValue text
  | .none => by simp
  | .last value => by simpa using value.headed
  | .more value _ later => by
      rw [List.forall_mem_cons]
      exact ⟨value.headed.mono (by simp), fun node member =>
        (later.headed node member).mono (by simp)⟩

end TnslReader
