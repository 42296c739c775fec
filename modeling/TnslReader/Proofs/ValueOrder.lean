import TnslReader.Proofs.SourceOrder

/-!
Contract: values and types are told by their trees.

What comes behind an operand is applied to it, so the node of the operand ends up below later ones;
its text still comes first, and the texts behind it are appended one by one.
-/

set_option autoImplicit false

namespace TnslReader

open Node (sourceWordingAll sourceWordingAll_append sourceWording_mk sourceWording_leaf
  sourceWording_mk_of_standsBehind)

namespace Token

variable {token : Token}

theorem isSpoken_of_order? {order : Nat} (ordered : token.order? = some order) :
    token.IsSpoken := by
  obtain ⟨operator, found, -⟩ := exists_operator_of_order? ordered
  exact isSpoken_of_operator? found

theorem isSpoken_of_mayPrecedeOperand (precedes : token.mayPrecedeOperand = true) :
    token.IsSpoken := by
  obtain ⟨operator, found, -⟩ := exists_operator_of_mayPrecedeOperand precedes
  exact isSpoken_of_operator? found

theorem isSpoken_of_mayFollowOperand (follows : token.mayFollowOperand = true) :
    token.IsSpoken := by
  obtain ⟨operator, found, -⟩ := exists_operator_of_mayFollowOperand follows
  exact isSpoken_of_operator? found

theorem isSpoken_of_qualifies {inParameter : Bool}
    (qualifies : token.qualifies inParameter = true) : token.IsSpoken := by
  simp only [Token.qualifies, Bool.and_eq_true, beq_iff_eq] at qualifies
  obtain ⟨⟨classified, isQualifier⟩, -⟩ := qualifies
  obtain ⟨word, found, isQualifier⟩ := (Option.any_eq_true _ _).mp isQualifier
  apply isSpoken_of_isKeyword (isKeyword_of_keyword? classified found)
  intro equal
  subst equal
  exact absurd isQualifier (by decide)

end Token

/-- A literal, a name and a built-in type are told by the leaf that they are. -/
theorem retold_of_leafKind? {token : Token} {kind : NodeKind}
    (isLeaf : token.leafKind? = some kind) : Retold [token] (Node.leaf kind token).sourceWording := by
  unfold Token.leafKind? at isLeaf
  split at isLeaf <;> cases isLeaf
  next isLiteral => exact .leaf (Token.isSpoken_of_literal isLiteral) (by decide)
  next isWord => exact .leaf (Token.isSpoken_of_userWord isWord) (by decide)
  next isBuiltin => exact .leaf (Token.isSpoken_of_builtinType isBuiltin) (by decide)

theorem retold_qualifiers {inParameter : Bool} {tokens : List Token}
    (qualified : ∀ token ∈ tokens, token.qualifies inParameter = true) :
    Retold tokens (sourceWordingAll (tokens.map (.leaf .qualifier))) := by
  induction tokens with
  | nil => exact .nil
  | cons token tokens inductionHypothesis =>
      obtain ⟨here, later⟩ := List.forall_mem_cons.mp qualified
      exact (Retold.leaf (Token.isSpoken_of_qualifies here) (by decide)).append
        (inductionHypothesis later)

theorem DottedText.retold {text : List Token} {path : List Node} {name : Token}
    (dotted : DottedText text path name) : Retold text (sourceWordingAll path ++ [some name]) := by
  induction dotted with
  | word isWord => exact .singleton (Token.isSpoken_of_userWord isWord)
  | @dot word _ _ _ _ isWord isDot _ inductionHypothesis =>
      have spoken := Token.isSpoken_of_userWord isWord
      have here : (Node.leaf .pathSegment word).sourceWording = [some word, none] := by
        rw [sourceWording_leaf, Node.ownWording_of_isWording spoken.isWording, if_pos rfl]
      rw [Node.sourceWordingAll_cons, here]
      exact .cons spoken (.cons_dot isDot inductionHypothesis)

theorem NameText.retold {text : List Token} {path : List Node} {name : Token}
    (named : NameText text path name) : Retold text (sourceWordingAll path ++ [some name]) := by
  cases named with
  | builtin isBuiltin => exact .singleton (Token.isSpoken_of_builtinType isBuiltin)
  | dotted words => exact words.retold

/-- The name of a type is an operator, a literal or a word. -/
theorem NameText.isWording {text : List Token} {path : List Node} {name : Token}
    (named : NameText text path name) : name.isWording = true := by
  cases named with
  | builtin isBuiltin => exact (Token.isSpoken_of_builtinType isBuiltin).isWording
  | dotted words =>
      induction words with
      | word isWord => exact (Token.isSpoken_of_userWord isWord).isWording
      | dot _ _ _ inductionHypothesis => exact inductionHypothesis

theorem ReferenceText.retold {inParameter : Bool} {text : List Token} {nodes : List Node}
    (referred : ReferenceText inParameter text nodes) : Retold text (sourceWordingAll nodes) := by
  cases referred with
  | none => exact .nil
  | mark _ isMark =>
      exact (Retold.leaf (Token.isSpoken_of_isOperator isMark) (by decide)).child

mutual

theorem ValueText.retold {depth chain order : Nat} {text : List Token} {node : Node} :
    ValueText depth chain order text node → Retold text node.sourceWording
  | .unary _ operand => operand.retold
  | .composite _ opens values closes =>
      (Retold.bracketed opens values.retold closes).tagged (by decide)
  | .chain _ _ _ operands => operands.retold

theorem ChainText.retold {depth chain order count : Nat} {text : List Token} {node : Node} :
    ChainText depth chain order count text node → Retold text node.sourceWording
  | .first operand _ => operand.retold
  | .value before ordered _ operand _ => by
      rw [sourceWording_mk_of_standsBehind rfl, List.append_assoc]
      exact before.retold.append ((Retold.own (Token.isSpoken_of_order? ordered)
        (by decide)).append operand.retold.child)
  | .type before ordered _ operand => by
      rw [sourceWording_mk_of_standsBehind rfl, List.append_assoc]
      exact before.retold.append ((Retold.own (Token.isSpoken_of_order? ordered)
        (by decide)).append operand.retold.child)

theorem UnaryText.retold {depth chain : Nat} {text : List Token} {node : Node} :
    UnaryText depth chain text node → Retold text node.sourceWording
  | .preceded _ precedes _ operand => by
      rw [sourceWording_mk (fun _ => rfl)]
      exact (Retold.own (Token.isSpoken_of_mayPrecedeOperand precedes) (by decide)).append
        operand.retold.child
  | .followed primary after => after.retold primary.retold

theorem PrimaryText.retold {depth chain : Nat} {text : List Token} {node : Node} :
    PrimaryText depth chain text node → Retold text node.sourceWording
  | .leaf isLeaf => retold_of_leafKind? isLeaf
  | .grouped opens value closes => .bracketed opens value.retold closes

/-- What comes behind an operand adds to what tells the operand. -/
theorem FollowedText.retold {depth chain : Nat} {base node : Node} {before text : List Token}
    (told : Retold before base.sourceWording) : FollowedText depth chain base text node →
      Retold (before ++ text) node.sourceWording
  | .done => by simpa using told
  | @FollowedText.operator _ _ _ base _ token _ _ follows after => by
      have applied : Retold (before ++ [token])
          (Node.mk .followingOperator token [base]).sourceWording := by
        rw [sourceWording_mk_of_standsBehind rfl, Node.sourceWordingAll_nil, List.append_nil]
        exact told.append (.own (Token.isSpoken_of_mayFollowOperand follows) (by decide))
      simpa using after.retold applied
  | @FollowedText.call _ _ _ base _ opener closer text _ nodes _ opens values closes after => by
      have applied : Retold (before ++ opener :: (text ++ [closer]))
          (Node.tagged .call opener [base, .tagged .valueList opener nodes]).sourceWording :=
        .tagged (told.append (.child (.tagged (.bracketed opens values.retold closes) (by decide))))
          (by decide)
      simpa using after.retold applied
  | @FollowedText.index _ _ _ _ base position _ opener closer text _ _ opens value closes after => by
      have applied : Retold (before ++ opener :: (text ++ [closer]))
          (Node.tagged .index opener [base, position]).sourceWording :=
        (told.append (Retold.bracketed opens value.retold closes).child).tagged (by decide)
      simpa using after.retold applied
  | @FollowedText.cast _ _ _ base _ opener closer text _ nodes _ opens types closes after => by
      have applied : Retold (before ++ opener :: (text ++ [closer]))
          (Node.tagged .cast opener [base, .tagged .typeList opener nodes]).sourceWording :=
        .tagged (told.append (.child (.tagged (.bracketed opens types.retold closes) (by decide))))
          (by decide)
      simpa using after.retold applied

theorem ValuesText.retold {depth chain : Nat} {text : List Token} {nodes : List Node} :
    ValuesText depth chain text nodes → Retold text (sourceWordingAll nodes)
  | .none => .nil
  | .last value => value.retold.child
  | .more value isComma later =>
      value.retold.append (.cons_silent (Token.isWording_of_isComma isComma) later.retold)

theorem TypeText.retold {inParameter : Bool} {depth chain : Nat} {text : List Token}
    {node : Node} : TypeText inParameter depth chain text node → Retold text node.sourceWording
  | @TypeText.type _ _ _ _ _ name _ _ _ _ _ _ _ argumentNodes _ _ qualified marked named applied
      referred _ => by
      have isName : (Node.mk .typeName name argumentNodes).sourceWording =
          some name :: sourceWordingAll argumentNodes := by
        rw [sourceWording_mk (fun _ => rfl), Node.ownWording_of_isWording named.isWording]
        rfl
      have whole := ((((retold_qualifiers qualified).append marked.retold).append
        named.retold).append applied.retold).append referred.retold
      refine Retold.tagged ?_ (by decide)
      simpa [sourceWordingAll_append, isName] using whole

theorem MarksText.retold {depth chain : Nat} {text : List Token} {nodes : List Node} :
    MarksText depth chain text nodes → Retold text (sourceWordingAll nodes)
  | .done => .nil
  | .pointer points later =>
      (Retold.leaf (Token.isSpoken_of_isOperator points) (by decide)).append later.retold
  | @MarksText.unsized _ _ opener closer _ _ opens closes later => by
      have mark : Retold [opener, closer] (Node.tagged .array opener []).sourceWording :=
        .tagged (Retold.bracketed opens .nil closes) (by decide)
      exact mark.append later.retold
  | @MarksText.sized _ _ _ opener closer text rest length _ opens value closes later => by
      have mark : Retold (opener :: (text ++ [closer]))
          (Node.tagged .array opener [length]).sourceWording :=
        .tagged (.bracketed opens value.retold.child closes) (by decide)
      simpa using mark.append later.retold

theorem ArgumentsText.retold {depth chain : Nat} {name : Token} {text : List Token}
    {nodes : List Node} :
    ArgumentsText depth chain name text nodes → Retold text (sourceWordingAll nodes)
  | .none => .nil
  | .arguments opens types closes =>
      .child (.tagged (.bracketed opens types.retold closes) (by decide))
  | @ArgumentsText.results _ _ _ opener closer second secondCloser text resultText nodes results _
      opens types closes opensResults resultTypes closesResults => by
      have argumentsTold : Retold (opener :: (text ++ [closer]))
          (Node.tagged .typeList opener nodes).sourceWording :=
        .tagged (.bracketed opens types.retold closes) (by decide)
      have resultsTold : Retold (second :: (resultText ++ [secondCloser]))
          (Node.tagged .typeList second results).sourceWording :=
        .tagged (.bracketed opensResults resultTypes.retold closesResults) (by decide)
      simpa using argumentsTold.append resultsTold.child

theorem TypesText.retold {depth chain : Nat} {text : List Token} {nodes : List Node} :
    TypesText depth chain text nodes → Retold text (sourceWordingAll nodes)
  | .none => .nil
  | .last type => type.retold.child
  | .more type isComma later =>
      type.retold.append (.cons_silent (Token.isWording_of_isComma isComma) later.retold)

end

end TnslReader
