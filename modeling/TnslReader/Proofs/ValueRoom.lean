import TnslReader.Proofs.ValueGrammar

/-!
Contract: how much of the limits a value or a type can take.

A value never takes more levels or chained operators than it has tokens, since every level and every
operator of a chain has a token of its own. So a derivation with some room can be made again with
any room that is at least as much, or at least as much as the text is long.

Owns: the least lengths of values, types and chains, and the change of room of a derivation.
-/

set_option autoImplicit false

namespace TnslReader

/-! ### Lengths -/

theorem DottedText.length_pos {text : List Token} {path : List Node} {name : Token}
    (dotted : DottedText text path name) : 0 < text.length := by
  cases dotted <;> simp

theorem NameText.length_pos {text : List Token} {path : List Node} {name : Token}
    (named : NameText text path name) : 0 < text.length := by
  cases named with
  | builtin => simp
  | dotted words => exact words.length_pos

theorem TypeText.length_pos {inParameter : Bool} {depth chain : Nat} {text : List Token}
    {node : Node} (type : TypeText inParameter depth chain text node) : 0 < text.length := by
  cases type with
  | type _ _ _ named _ _ _ =>
      have := named.length_pos
      simp only [List.length_append]
      omega

theorem PrimaryText.length_pos {depth chain : Nat} {text : List Token} {node : Node}
    (primary : PrimaryText depth chain text node) : 0 < text.length := by
  cases primary <;> simp

theorem UnaryText.length_pos {depth chain : Nat} {text : List Token} {node : Node}
    (operand : UnaryText depth chain text node) : 0 < text.length := by
  cases operand with
  | preceded => simp
  | followed primary _ =>
      have := primary.length_pos
      simp only [List.length_append]
      omega

mutual

theorem ValueText.length_pos {depth chain order : Nat} {text : List Token} {node : Node} :
    ValueText depth chain order text node → 0 < text.length
  | .unary _ operand => operand.length_pos
  | .composite _ _ _ _ => by simp
  | .chain _ _ _ operands => Nat.zero_lt_of_lt operands.count_lt_length

/-- Every operator of a chain has an operand before it, and an operand comes last. -/
theorem ChainText.count_lt_length {depth chain order count : Nat} {text : List Token}
    {node : Node} : ChainText depth chain order count text node → count < text.length
  | .first operand _ => operand.length_pos
  | .value before _ _ operand _ => by
      have := before.count_lt_length
      have := operand.length_pos
      simp only [List.length_append, List.length_cons]
      omega
  | .type before _ _ operand => by
      have := before.count_lt_length
      have := operand.length_pos
      simp only [List.length_append, List.length_cons]
      omega

end

/-! ### Change of room -/

mutual

/-- A value has a derivation with any room that is no less, or no less than its length. -/
theorem ValueText.widen {depth room chain links order : Nat} {text : List Token} {node : Node}
    (levels : depth ≤ room ∨ text.length ≤ room) (chained : chain ≤ links ∨ text.length ≤ links) :
    ValueText depth chain order text node → ValueText room links order text node
  | .unary level operand =>
      have := operand.length_pos
      .unary (show room - 1 < room by omega) (operand.widen (by omega) (by omega))
  | .composite level opens values closes => by
      simp only [List.length_cons, List.length_append] at levels chained
      exact .composite (show room - 1 < room by omega) opens
        (values.widen (by omega) (by omega)) closes
  | @ValueText.chain _ _ _ _ _ count _ _ level linked joined operands =>
      have := operands.count_lt_length
      .chain (show room - 1 < room by omega) (show links - count + count ≤ links by omega) joined
        (operands.widen (by omega) (by omega))

/-- A chain needs as much less as it has operators. -/
theorem ChainText.widen {depth room chain links order count : Nat} {text : List Token}
    {node : Node} (levels : depth ≤ room ∨ text.length ≤ room + count)
    (chained : chain ≤ links ∨ text.length ≤ links + count) :
    ChainText depth chain order count text node → ChainText room links order count text node
  | .first operand binds => .first (operand.widen (by omega) (by omega)) binds
  | .value before ordered takesValue operand binds => by
      have := before.count_lt_length
      simp only [List.length_append, List.length_cons] at levels chained
      exact .value (before.widen (by omega) (by omega)) ordered takesValue
        (operand.widen (by omega) (by omega)) binds
  | .type before ordered takesType operand => by
      have := before.count_lt_length
      simp only [List.length_append, List.length_cons] at levels chained
      exact .type (before.widen (by omega) (by omega)) ordered takesType
        (operand.widen (by omega) (by omega))

/-- A unary value needs no level for its primary. -/
theorem UnaryText.widen {depth room chain links : Nat} {text : List Token} {node : Node}
    (levels : depth ≤ room ∨ text.length ≤ room + 1)
    (chained : chain ≤ links ∨ text.length ≤ links + 1) :
    UnaryText depth chain text node → UnaryText room links text node
  | .preceded level precedes apart operand => by
      have := operand.length_pos
      simp only [List.length_cons] at levels chained
      exact .preceded (show room - 1 < room by omega) precedes apart
        (operand.widen (by omega) (by omega))
  | .followed primary after => by
      have := primary.length_pos
      simp only [List.length_append] at levels chained
      exact .followed (primary.widen (by omega) (by omega)) (after.widen (by omega) (by omega))

theorem PrimaryText.widen {depth room chain links : Nat} {text : List Token} {node : Node}
    (levels : depth ≤ room ∨ text.length ≤ room + 1)
    (chained : chain ≤ links ∨ text.length ≤ links + 1) :
    PrimaryText depth chain text node → PrimaryText room links text node
  | .leaf isLeaf => .leaf isLeaf
  | .grouped opens value closes => by
      simp only [List.length_cons, List.length_append] at levels chained
      exact .grouped opens (value.widen (by omega) (by omega)) closes

theorem FollowedText.widen {depth room chain links : Nat} {base node : Node} {text : List Token}
    (levels : depth ≤ room ∨ text.length ≤ room) (chained : chain ≤ links ∨ text.length ≤ links) :
    FollowedText depth chain base text node → FollowedText room links base text node
  | .done => .done
  | .operator level follows after => by
      simp only [List.length_cons] at levels chained
      exact .operator (show room - 1 < room by omega) follows (after.widen (by omega) (by omega))
  | .call level opens values closes after => by
      simp only [List.length_cons, List.length_append] at levels chained
      exact .call (show room - 1 < room by omega) opens (values.widen (by omega) (by omega)) closes
        (after.widen (by omega) (by omega))
  | .index level opens value closes after => by
      simp only [List.length_cons, List.length_append] at levels chained
      exact .index (show room - 1 < room by omega) opens (value.widen (by omega) (by omega)) closes
        (after.widen (by omega) (by omega))
  | .cast level opens types closes after => by
      simp only [List.length_cons, List.length_append] at levels chained
      exact .cast (show room - 1 < room by omega) opens (types.widen (by omega) (by omega)) closes
        (after.widen (by omega) (by omega))

theorem ValuesText.widen {depth room chain links : Nat} {text : List Token} {nodes : List Node}
    (levels : depth ≤ room ∨ text.length ≤ room) (chained : chain ≤ links ∨ text.length ≤ links) :
    ValuesText depth chain text nodes → ValuesText room links text nodes
  | .none => .none
  | .last value => .last (value.widen levels chained)
  | .more value isComma later => by
      simp only [List.length_append, List.length_cons] at levels chained
      exact .more (value.widen (by omega) (by omega)) isComma (later.widen (by omega) (by omega))

/-- A type has a derivation with any room that is no less, or no less than its length. -/
theorem TypeText.widen {inParameter : Bool} {depth room chain links : Nat} {text : List Token}
    {node : Node} (levels : depth ≤ room ∨ text.length ≤ room)
    (chained : chain ≤ links ∨ text.length ≤ links) :
    TypeText inParameter depth chain text node → TypeText inParameter room links text node
  | .type level qualified marked named applied referred begins => by
      have := named.length_pos
      simp only [List.length_append] at levels chained
      exact .type (show room - 1 < room by omega) qualified (marked.widen (by omega) (by omega))
        named (applied.widen (by omega) (by omega)) referred begins

theorem MarksText.widen {depth room chain links : Nat} {text : List Token} {nodes : List Node}
    (levels : depth ≤ room ∨ text.length ≤ room) (chained : chain ≤ links ∨ text.length ≤ links) :
    MarksText depth chain text nodes → MarksText room links text nodes
  | .done => .done
  | .pointer points later => by
      simp only [List.length_cons] at levels chained
      exact .pointer points (later.widen (by omega) (by omega))
  | .unsized opens closes later => by
      simp only [List.length_cons] at levels chained
      exact .unsized opens closes (later.widen (by omega) (by omega))
  | .sized opens value closes later => by
      simp only [List.length_cons, List.length_append] at levels chained
      exact .sized opens (value.widen (by omega) (by omega)) closes
        (later.widen (by omega) (by omega))

theorem ArgumentsText.widen {depth room chain links : Nat} {name : Token} {text : List Token}
    {nodes : List Node} (levels : depth ≤ room ∨ text.length ≤ room)
    (chained : chain ≤ links ∨ text.length ≤ links) :
    ArgumentsText depth chain name text nodes → ArgumentsText room links name text nodes
  | .none => .none
  | .arguments opens types closes => by
      simp only [List.length_cons, List.length_append] at levels chained
      exact .arguments opens (types.widen (by omega) (by omega)) closes
  | .results isVoid opens types closes opensResults resultTypes closesResults => by
      simp only [List.length_cons, List.length_append] at levels chained
      exact .results isVoid opens (types.widen (by omega) (by omega)) closes opensResults
        (resultTypes.widen (by omega) (by omega)) closesResults

theorem TypesText.widen {depth room chain links : Nat} {text : List Token} {nodes : List Node}
    (levels : depth ≤ room ∨ text.length ≤ room) (chained : chain ≤ links ∨ text.length ≤ links) :
    TypesText depth chain text nodes → TypesText room links text nodes
  | .none => .none
  | .last type => .last (type.widen levels chained)
  | .more type isComma later => by
      simp only [List.length_append, List.length_cons] at levels chained
      exact .more (type.widen (by omega) (by omega)) isComma (later.widen (by omega) (by omega))

end

end TnslReader
