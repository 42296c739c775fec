import TnslReader.Proofs.TreePaths

/-!
Contract: how deep the operators before and behind operands nest in a value.

Each operator before an operand and each operator, call, index or cast behind one wraps the operand
in a node, and takes a level. An operator before an operand holds its level while the operand is
read. What comes behind an operand takes its levels only when the operand has been read, which has
given back its own. So an operand in brackets may take all levels anew, and the wraps on a path of
the tree are not as many as the levels. There are at most `wrapRoom depth` of them, the sum of all
numbers below the depth.

Owns: the wraps on a path, and the bound for values and types.
-/

set_option autoImplicit false

namespace TnslReader

def NodeKind.wraps : NodeKind → Bool
  | .precedingOperator | .followingOperator | .call | .index | .cast => true
  | _ => false

theorem NodeKind.wraps_eq_false {kind : NodeKind} (noOperation : kind.isOperation = false) :
    kind.wraps = false := by
  cases kind <;> first | rfl | cases noOperation

namespace Node

def wrapsOn (path : List Node) : Nat :=
  path.countP (·.kind.wraps)

abbrev WrapsAtMost (node : Node) (bound : Nat) : Prop :=
  node.CountAtMost NodeKind.wraps bound

end Node

/-- The sum of all numbers below the depth. -/
def wrapRoom (depth : Nat) : Nat :=
  depth * (depth - 1) / 2

theorem wrapRoom_succ (depth : Nat) : wrapRoom (depth + 1) = wrapRoom depth + depth :=
  Nat.triangle_succ depth

/-- Below a level, there is room for all that the level below has, and its own wraps. -/
theorem wrapRoom_add_le {inner depth : Nat} (level : inner < depth) :
    wrapRoom inner + inner ≤ wrapRoom depth := by
  induction depth with
  | zero => omega
  | succ depth inductionHypothesis =>
      rw [wrapRoom_succ]
      rcases Nat.lt_succ_iff_lt_or_eq.mp level with below | rfl
      · exact (inductionHypothesis below).trans (Nat.le_add_right ..)
      · exact Nat.le_refl _

theorem wrapRoom_le {inner depth : Nat} (level : inner < depth) :
    wrapRoom inner ≤ wrapRoom depth :=
  (Nat.le_add_right ..).trans (wrapRoom_add_le level)

open Node (countAtMost_of_children countAtMost_succ countAtMost_leaf countAtMost_tagged
  countAtMost_map_leaf countAtMost_all_mono)

mutual

theorem ValueText.wraps {depth chain order : Nat} {text : List Token} {node : Node} :
    ValueText depth chain order text node → node.WrapsAtMost (wrapRoom depth)
  | .unary level operand => operand.wraps.mono (wrapRoom_add_le level)
  | .composite level _ values _ =>
      countAtMost_tagged rfl (countAtMost_all_mono values.wraps (wrapRoom_le level))
  | .chain level _ _ operands => operands.wraps.mono (wrapRoom_le level)

theorem ChainText.wraps {depth chain order count : Nat} {text : List Token} {node : Node} :
    ChainText depth chain order count text node → node.WrapsAtMost (wrapRoom depth)
  | .first operand _ => operand.wraps
  | .value before _ _ operand _ =>
      countAtMost_of_children rfl (List.forall_mem_cons.mpr
        ⟨before.wraps, List.forall_mem_singleton.mpr operand.wraps⟩)
  | .type before _ _ operand =>
      countAtMost_of_children rfl (List.forall_mem_cons.mpr
        ⟨before.wraps, List.forall_mem_singleton.mpr operand.wraps⟩)

/-- An operand has room for as many wraps of its own as there are levels. -/
theorem UnaryText.wraps {depth chain : Nat} {text : List Token} {node : Node} :
    UnaryText depth chain text node → node.WrapsAtMost (wrapRoom depth + depth)
  | .preceded level _ _ operand => by
      have room := wrapRoom_le level
      exact (countAtMost_succ (List.forall_mem_singleton.mpr operand.wraps)).mono (by omega)
  | .followed primary after => after.wraps (Nat.le_refl _) primary.wraps

theorem PrimaryText.wraps {depth chain : Nat} {text : List Token} {node : Node} :
    PrimaryText depth chain text node → node.WrapsAtMost (wrapRoom depth)
  | .leaf isLeaf =>
      countAtMost_leaf (NodeKind.wraps_eq_false (isOperation_eq_false_of_leafKind? isLeaf))
  | .grouped _ value _ => value.wraps

/-- What comes behind an operand adds at most as many wraps as there are levels, whatever is read
within brackets there. -/
theorem FollowedText.wraps {depth chain bound : Nat} {base node : Node} {text : List Token}
    (room : wrapRoom depth ≤ bound) (baseWraps : base.WrapsAtMost bound) :
    FollowedText depth chain base text node → node.WrapsAtMost (bound + depth)
  | .done => baseWraps.mono (Nat.le_add_right ..)
  | .operator level _ after => by
      have within := (wrapRoom_le level).trans room
      refine (after.wraps (within.trans (Nat.le_succ _)) (countAtMost_succ ?_)).mono (by omega)
      exact List.forall_mem_singleton.mpr baseWraps
  | .call level _ values _ after => by
      have within := (wrapRoom_le level).trans room
      refine (after.wraps (within.trans (Nat.le_succ _)) (countAtMost_succ ?_)).mono (by omega)
      exact List.forall_mem_cons.mpr ⟨baseWraps, List.forall_mem_singleton.mpr
        (countAtMost_tagged rfl (countAtMost_all_mono values.wraps within))⟩
  | .index level _ value _ after => by
      have within := (wrapRoom_le level).trans room
      refine (after.wraps (within.trans (Nat.le_succ _)) (countAtMost_succ ?_)).mono (by omega)
      exact List.forall_mem_cons.mpr
        ⟨baseWraps, List.forall_mem_singleton.mpr (value.wraps.mono within)⟩
  | .cast level _ types _ after => by
      have within := (wrapRoom_le level).trans room
      refine (after.wraps (within.trans (Nat.le_succ _)) (countAtMost_succ ?_)).mono (by omega)
      exact List.forall_mem_cons.mpr ⟨baseWraps, List.forall_mem_singleton.mpr
        (countAtMost_tagged rfl (countAtMost_all_mono types.wraps within))⟩

theorem ValuesText.wraps {depth chain : Nat} {text : List Token} {nodes : List Node} :
    ValuesText depth chain text nodes → ∀ node ∈ nodes, node.WrapsAtMost (wrapRoom depth)
  | .none => by simp
  | .last value => List.forall_mem_singleton.mpr value.wraps
  | .more value _ later => List.forall_mem_cons.mpr ⟨value.wraps, later.wraps⟩

theorem TypeText.wraps {inParameter : Bool} {depth chain : Nat} {text : List Token}
    {node : Node} : TypeText inParameter depth chain text node →
      node.WrapsAtMost (wrapRoom depth)
  | .type level _ marked named applied referred _ => by
      refine (countAtMost_tagged rfl ?_).mono (wrapRoom_le level)
      simp only [List.forall_mem_append, List.forall_mem_cons]
      exact ⟨⟨⟨countAtMost_map_leaf rfl, marked.wraps⟩, named.countAtMost rfl⟩,
        countAtMost_of_children rfl applied.wraps, referred.countAtMost rfl⟩

theorem MarksText.wraps {depth chain : Nat} {text : List Token} {nodes : List Node} :
    MarksText depth chain text nodes → ∀ node ∈ nodes, node.WrapsAtMost (wrapRoom depth)
  | .done => by simp
  | .pointer _ later => List.forall_mem_cons.mpr ⟨countAtMost_leaf rfl, later.wraps⟩
  | .unsized _ _ later =>
      List.forall_mem_cons.mpr ⟨countAtMost_tagged rfl (by simp), later.wraps⟩
  | .sized _ value _ later => List.forall_mem_cons.mpr
      ⟨countAtMost_tagged rfl (List.forall_mem_singleton.mpr value.wraps), later.wraps⟩

theorem ArgumentsText.wraps {depth chain : Nat} {name : Token} {text : List Token}
    {nodes : List Node} : ArgumentsText depth chain name text nodes →
      ∀ node ∈ nodes, node.WrapsAtMost (wrapRoom depth)
  | .none => by simp
  | .arguments _ types _ =>
      List.forall_mem_singleton.mpr (countAtMost_tagged rfl types.wraps)
  | .results _ _ types _ _ resultTypes _ => List.forall_mem_cons.mpr
      ⟨countAtMost_tagged rfl types.wraps,
        List.forall_mem_singleton.mpr (countAtMost_tagged rfl resultTypes.wraps)⟩

theorem TypesText.wraps {depth chain : Nat} {text : List Token} {nodes : List Node} :
    TypesText depth chain text nodes → ∀ node ∈ nodes, node.WrapsAtMost (wrapRoom depth)
  | .none => by simp
  | .last type => List.forall_mem_singleton.mpr type.wraps
  | .more type _ later => List.forall_mem_cons.mpr ⟨type.wraps, later.wraps⟩

end

end TnslReader
