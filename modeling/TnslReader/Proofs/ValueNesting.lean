import TnslReader.Proofs.Nesting
import TnslReader.Proofs.ValueGrammar

/-!
Contract: values and types are nested texts.

A value, a type and all their pieces have no comma outside their brackets; lists of values and lists
of types have no others than their own. This is what lets a scanner pass over a value that a range
begins with.
-/

set_option autoImplicit false

namespace TnslReader

namespace Token

variable {token : Token}

theorem isPlain_of_isOperator {operator : Operator} (is : token.isOperator operator = true) :
    token.IsPlain :=
  isPlain_of_operator? (operator?_of_isOperator is)

theorem isPlain_of_order? {order : Nat} (ordered : token.order? = some order) : token.IsPlain := by
  obtain ⟨operator, found, -⟩ := exists_operator_of_order? ordered
  exact isPlain_of_operator? found

theorem isPlain_of_mayPrecedeOperand (precedes : token.mayPrecedeOperand = true) :
    token.IsPlain := by
  obtain ⟨operator, found, -⟩ := exists_operator_of_mayPrecedeOperand precedes
  exact isPlain_of_operator? found

theorem isPlain_of_mayFollowOperand (follows : token.mayFollowOperand = true) :
    token.IsPlain := by
  obtain ⟨operator, found, -⟩ := exists_operator_of_mayFollowOperand follows
  exact isPlain_of_operator? found

/-- A token that is a value on its own is a literal, a user word or a built-in type. -/
theorem tokenClass_of_leafKind? {kind : NodeKind} (isLeaf : token.leafKind? = some kind) :
    token.tokenClass = .literal ∨ token.tokenClass = .userWord ∨
      token.tokenClass = .builtinType := by
  unfold leafKind? at isLeaf
  split at isLeaf <;> simp_all

theorem isPlain_of_leafKind? {kind : NodeKind} (isLeaf : token.leafKind? = some kind) :
    token.IsPlain := by
  rcases tokenClass_of_leafKind? isLeaf with classified | classified | classified <;>
    exact isPlain_of_class (by simp [classified]) (by simp [classified]) (by simp [classified])

theorem isPlain_of_qualifies {inParameter : Bool} (qualifies : token.qualifies inParameter = true) :
    token.IsPlain := by
  have classified : token.tokenClass = .keyword := by
    simp only [Token.qualifies, Bool.and_eq_true, beq_iff_eq] at qualifies
    exact qualifies.1.1
  exact isPlain_of_class (by simp [classified]) (by simp [classified]) (by simp [classified])

end Token

theorem DottedText.nested {text : List Token} {path : List Node} {name : Token}
    (dotted : DottedText text path name) : Nested false text := by
  induction dotted with
  | word isWord =>
      exact .cons_of_isPlain (Token.isPlain_of_class (by simp [isWord]) (by simp [isWord])
        (by simp [isWord])) .nil
  | dot isWord isDot _ inductionHypothesis =>
      exact .cons_of_isPlain (Token.isPlain_of_class (by simp [isWord]) (by simp [isWord])
        (by simp [isWord]))
        (.cons_of_isPlain (Token.isPlain_of_isOperator isDot) inductionHypothesis)

theorem NameText.nested {text : List Token} {path : List Node} {name : Token}
    (named : NameText text path name) : Nested false text := by
  cases named with
  | builtin isBuiltin =>
      exact .cons_of_isPlain (Token.isPlain_of_class (by simp [isBuiltin]) (by simp [isBuiltin])
        (by simp [isBuiltin])) .nil
  | dotted words => exact words.nested

theorem ReferenceText.nested {inParameter : Bool} {text : List Token} {nodes : List Node}
    (referred : ReferenceText inParameter text nodes) : Nested false text := by
  cases referred with
  | none => exact .nil
  | mark _ isMark => exact .cons_of_isPlain (Token.isPlain_of_isOperator isMark) .nil

theorem nested_of_isPlain {text : List Token} (plain : ∀ token ∈ text, token.IsPlain) :
    Nested false text := by
  induction text with
  | nil => exact .nil
  | cons token rest inductionHypothesis =>
      exact .cons_of_isPlain (plain token (by simp))
        (inductionHypothesis fun later member => plain later (by simp [member]))

mutual

theorem ValueText.nested {depth chain order : Nat} {text : List Token} {node : Node} :
    ValueText depth chain order text node → Nested false text
  | .unary _ operand => operand.nested
  | .composite _ opens values closes => .bracketed opens values.nested closes
  | .chain _ _ _ operands => operands.nested

theorem ChainText.nested {depth chain order count : Nat} {text : List Token} {node : Node} :
    ChainText depth chain order count text node → Nested false text
  | .first operand _ => operand.nested
  | .value before ordered _ operand _ =>
      before.nested.append (.cons_of_isPlain (Token.isPlain_of_order? ordered) operand.nested)
  | .type before ordered _ operand =>
      before.nested.append (.cons_of_isPlain (Token.isPlain_of_order? ordered) operand.nested)

theorem UnaryText.nested {depth chain : Nat} {text : List Token} {node : Node} :
    UnaryText depth chain text node → Nested false text
  | .preceded _ precedes _ operand =>
      .cons_of_isPlain (Token.isPlain_of_mayPrecedeOperand precedes) operand.nested
  | .followed primary after => primary.nested.append after.nested

theorem PrimaryText.nested {depth chain : Nat} {text : List Token} {node : Node} :
    PrimaryText depth chain text node → Nested false text
  | .leaf isLeaf => .cons_of_isPlain (Token.isPlain_of_leafKind? isLeaf) .nil
  | .grouped opens value closes => .bracketed opens value.nested.toSeparated closes

theorem FollowedText.nested {depth chain : Nat} {base node : Node} {text : List Token} :
    FollowedText depth chain base text node → Nested false text
  | .done => .nil
  | .operator _ follows after =>
      .cons_of_isPlain (Token.isPlain_of_mayFollowOperand follows) after.nested
  | .call _ opens values closes after => .pair opens closes values.nested after.nested
  | .index _ opens value closes after =>
      .pair opens closes value.nested.toSeparated after.nested
  | .cast _ opens types closes after => .pair opens closes types.nested after.nested

theorem ValuesText.nested {depth chain : Nat} {text : List Token} {nodes : List Node} :
    ValuesText depth chain text nodes → Nested true text
  | .none => .nil
  | .last value => value.nested.toSeparated
  | .more value isComma later =>
      value.nested.toSeparated.append (.comma_cons isComma later.nested)

theorem TypeText.nested {inParameter : Bool} {depth chain : Nat} {text : List Token}
    {node : Node} : TypeText inParameter depth chain text node → Nested false text
  | .type _ qualified marked named applied referred _ =>
      ((((nested_of_isPlain fun token member =>
        Token.isPlain_of_qualifies (qualified token member)).append marked.nested).append
          named.nested).append applied.nested).append referred.nested

theorem MarksText.nested {depth chain : Nat} {text : List Token} {nodes : List Node} :
    MarksText depth chain text nodes → Nested false text
  | .done => .nil
  | .pointer points later =>
      .cons_of_isPlain (Token.isPlain_of_isOperator points) later.nested
  | .unsized opens closes later => .pair opens closes .nil later.nested
  | .sized opens value closes later =>
      .pair opens closes value.nested.toSeparated later.nested

theorem ArgumentsText.nested {depth chain : Nat} {name : Token} {text : List Token}
    {nodes : List Node} : ArgumentsText depth chain name text nodes → Nested false text
  | .none => .nil
  | .arguments opens types closes => .bracketed opens types.nested closes
  | .results _ opens types closes opensResults resultTypes closesResults =>
      .pair opens closes types.nested (.bracketed opensResults resultTypes.nested closesResults)

theorem TypesText.nested {depth chain : Nat} {text : List Token} {nodes : List Node} :
    TypesText depth chain text nodes → Nested true text
  | .none => .nil
  | .last type => type.nested.toSeparated
  | .more type isComma later =>
      type.nested.toSeparated.append (.comma_cons isComma later.nested)

end

end TnslReader
