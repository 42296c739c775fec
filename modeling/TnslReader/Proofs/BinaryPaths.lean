import TnslReader.Proofs.FileInheritance

/-!
Contract: how many binary nodes stand on a path of a tree.

A chain sets so much of the limit aside as it has operators, and only what is left is there for its
operands. Its tree leans to the left, so a path goes down along its operators and then into one
operand, and the operators above and those within the operand are never more than the chain was
given. Everything else that holds values hands on what it was given: the operand of a call, an index
or a cast and the values in its brackets are on different paths.

Owns: the bound for values and types, and from it that for files.
-/

set_option autoImplicit false

namespace TnslReader

namespace Node

def binariesOn (path : List Node) : Nat :=
  path.countP (·.kind == .binary)

/-- No path of the tree has more binary nodes. -/
abbrev BinariesAtMost (node : Node) (bound : Nat) : Prop :=
  node.CountAtMost (· == .binary) bound

end Node

open Node (countAtMost_of_children countAtMost_succ countAtMost_leaf countAtMost_tagged
  countAtMost_map_leaf)

theorem NodeKind.ne_binary_of_noOperation {kind : NodeKind}
    (noOperation : kind.isOperation = false) : (kind == .binary) = false := by
  cases kind <;> first | rfl | cases noOperation

mutual

/-- On a path of a value there are no more binary nodes than the value has room for. -/
theorem ValueText.binaries {depth chain order : Nat} {text : List Token} {node : Node} :
    ValueText depth chain order text node → node.BinariesAtMost chain
  | .unary _ operand => operand.binaries
  | .composite _ _ values _ => countAtMost_tagged rfl values.binaries
  | .chain _ linked _ operands => operands.binaries.mono linked

/-- The operators of a chain come on top of what its operands have room for. -/
theorem ChainText.binaries {depth chain order count : Nat} {text : List Token} {node : Node} :
    ChainText depth chain order count text node → node.BinariesAtMost (chain + count)
  | .first operand _ => operand.binaries
  | .value before _ _ operand _ =>
      countAtMost_succ (List.forall_mem_cons.mpr ⟨before.binaries,
        List.forall_mem_singleton.mpr (operand.binaries.mono (Nat.le_add_right ..))⟩)
  | .type before _ _ operand =>
      countAtMost_succ (List.forall_mem_cons.mpr ⟨before.binaries,
        List.forall_mem_singleton.mpr (operand.binaries.mono (Nat.le_add_right ..))⟩)

theorem UnaryText.binaries {depth chain : Nat} {text : List Token} {node : Node} :
    UnaryText depth chain text node → node.BinariesAtMost chain
  | .preceded _ _ _ operand =>
      countAtMost_of_children rfl (List.forall_mem_singleton.mpr operand.binaries)
  | .followed primary after => after.binaries primary.binaries

theorem PrimaryText.binaries {depth chain : Nat} {text : List Token} {node : Node} :
    PrimaryText depth chain text node → node.BinariesAtMost chain
  | .leaf isLeaf => countAtMost_leaf
      (NodeKind.ne_binary_of_noOperation (isOperation_eq_false_of_leafKind? isLeaf))
  | .grouped _ value _ => value.binaries

/-- What comes behind an operand leaves the bound of the operand as it is. -/
theorem FollowedText.binaries {depth chain : Nat} {base node : Node} {text : List Token}
    (baseBinaries : base.BinariesAtMost chain) :
    FollowedText depth chain base text node → node.BinariesAtMost chain
  | .done => baseBinaries
  | .operator _ _ after => by
      refine after.binaries (countAtMost_of_children rfl ?_)
      exact List.forall_mem_singleton.mpr baseBinaries
  | .call _ _ values _ after => after.binaries
      (countAtMost_tagged rfl (List.forall_mem_cons.mpr ⟨baseBinaries,
        List.forall_mem_singleton.mpr (countAtMost_tagged rfl values.binaries)⟩))
  | .index _ _ value _ after => after.binaries
      (countAtMost_tagged rfl (List.forall_mem_cons.mpr
        ⟨baseBinaries, List.forall_mem_singleton.mpr value.binaries⟩))
  | .cast _ _ types _ after => after.binaries
      (countAtMost_tagged rfl (List.forall_mem_cons.mpr ⟨baseBinaries,
        List.forall_mem_singleton.mpr (countAtMost_tagged rfl types.binaries)⟩))

theorem ValuesText.binaries {depth chain : Nat} {text : List Token} {nodes : List Node} :
    ValuesText depth chain text nodes → ∀ node ∈ nodes, node.BinariesAtMost chain
  | .none => by simp
  | .last value => List.forall_mem_singleton.mpr value.binaries
  | .more value _ later => List.forall_mem_cons.mpr ⟨value.binaries, later.binaries⟩

theorem TypeText.binaries {inParameter : Bool} {depth chain : Nat} {text : List Token}
    {node : Node} : TypeText inParameter depth chain text node → node.BinariesAtMost chain
  | .type _ _ marked named applied referred _ => by
      refine countAtMost_tagged rfl ?_
      simp only [List.forall_mem_append, List.forall_mem_cons]
      exact ⟨⟨⟨countAtMost_map_leaf rfl, marked.binaries⟩, named.countAtMost rfl⟩,
        countAtMost_of_children rfl applied.binaries, referred.countAtMost rfl⟩

theorem MarksText.binaries {depth chain : Nat} {text : List Token} {nodes : List Node} :
    MarksText depth chain text nodes → ∀ node ∈ nodes, node.BinariesAtMost chain
  | .done => by simp
  | .pointer _ later => List.forall_mem_cons.mpr ⟨countAtMost_leaf rfl, later.binaries⟩
  | .unsized _ _ later =>
      List.forall_mem_cons.mpr ⟨countAtMost_tagged rfl (by simp), later.binaries⟩
  | .sized _ value _ later => List.forall_mem_cons.mpr
      ⟨countAtMost_tagged rfl (List.forall_mem_singleton.mpr value.binaries), later.binaries⟩

theorem ArgumentsText.binaries {depth chain : Nat} {name : Token} {text : List Token}
    {nodes : List Node} : ArgumentsText depth chain name text nodes →
      ∀ node ∈ nodes, node.BinariesAtMost chain
  | .none => by simp
  | .arguments _ types _ =>
      List.forall_mem_singleton.mpr (countAtMost_tagged rfl types.binaries)
  | .results _ _ types _ _ resultTypes _ => List.forall_mem_cons.mpr
      ⟨countAtMost_tagged rfl types.binaries,
        List.forall_mem_singleton.mpr (countAtMost_tagged rfl resultTypes.binaries)⟩

theorem TypesText.binaries {depth chain : Nat} {text : List Token} {nodes : List Node} :
    TypesText depth chain text nodes → ∀ node ∈ nodes, node.BinariesAtMost chain
  | .none => by simp
  | .last type => List.forall_mem_singleton.mpr type.binaries
  | .more type _ later => List.forall_mem_cons.mpr ⟨type.binaries, later.binaries⟩

end

/-- No more binary nodes than there are chained operators is what files inherit. -/
theorem inherited_binaries : Inherited fun _ chain node => node.BinariesAtMost chain where
  value := ValueText.binaries
  type := TypeText.binaries
  node noOperation below :=
    countAtMost_of_children (NodeKind.ne_binary_of_noOperation noOperation) below
  level _ binaries := binaries

/-- On every path of a tree that is read, there are at most as many binary nodes as operators may be
chained. -/
theorem readTree_binaries {tokens : Array Token} {label : String} {limits : Limits} {root : Node}
    {path : List Node} (read : readTree tokens label limits = .ok root)
    (isPath : root.IsPath path) : Node.binariesOn path ≤ limits.maxChain :=
  inherited_binaries.of_readTree read path isPath

/-- The tokens of `;a(b * c) + d`. -/
def callInSum : Array Token :=
  #[⟨.lineSeparator, ";", 1, 1, ⟨0, 1⟩⟩, ⟨.userWord, "a", 1, 2, ⟨1, 2⟩⟩,
    ⟨.delimiter, "(", 1, 3, ⟨2, 3⟩⟩, ⟨.userWord, "b", 1, 4, ⟨3, 4⟩⟩,
    ⟨.operator, "*", 1, 6, ⟨5, 6⟩⟩, ⟨.userWord, "c", 1, 8, ⟨7, 8⟩⟩,
    ⟨.delimiter, ")", 1, 9, ⟨8, 9⟩⟩, ⟨.operator, "+", 1, 11, ⟨10, 11⟩⟩,
    ⟨.userWord, "d", 1, 13, ⟨12, 13⟩⟩]

def callInSumPath : List Node :=
  let word (index : Fin 9) : Node := .leaf .identifier callInSum[index]
  let product : Node := ⟨.binary, callInSum[4], [word 3, word 5]⟩
  let values : Node := .tagged .valueList callInSum[2] [product]
  let call : Node := .tagged .call callInSum[2] [word 1, values]
  let sum : Node := ⟨.binary, callInSum[7], [call, word 8]⟩
  let statement : Node := .tagged .valueStatement callInSum[1] [sum]
  [⟨.root, .root "file", [statement]⟩, statement, sum, call, values, product, word 3]

/-- The product within the call counts beside the sum that the call is an operand of. -/
theorem readTree_binaries_callInSum : Node.binariesOn callInSumPath ≤ 2 := by
  have read : readTree callInSum "file" ⟨6, 2⟩ = .ok callInSumPath[0] := by
    decide +kernel
  have isPath : callInSumPath[0].IsPath callInSumPath := by
    refine .down (List.mem_singleton_self _) (.down (List.mem_singleton_self _)
      (.down (List.mem_cons_self ..) (.down ?_ (.down (List.mem_singleton_self _)
        (.down (List.mem_cons_self ..) .leaf)))))
    exact List.mem_cons_of_mem _ (List.mem_singleton_self _)
  exact readTree_binaries read isPath

end TnslReader
