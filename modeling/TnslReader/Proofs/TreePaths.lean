import Mathlib.Tactic
import TnslReader.Proofs.ValueGrammar

/-!
Contract: how many nodes of some kinds stand on a path of a tree.

A path goes from the top of a tree down to a node without children. A bound on the nodes of some
kinds that holds on every path is built up with the tree: a node of another kind keeps the bound of
its children, and a node of these kinds adds one to it.

Owns: paths, bounds on the nodes of given kinds on each of them, and the kinds of node that stand
for operations.
Does not own: which kinds are counted.
-/

set_option autoImplicit false

namespace TnslReader

namespace Node

/-- `IsPath node path`: the nodes from the top of the tree down to one that has no children. -/
inductive IsPath : Node → List Node → Prop where
  | leaf {kind : NodeKind} {token : Token} :
      IsPath ⟨kind, token, []⟩ [⟨kind, token, []⟩]
  | down {kind : NodeKind} {token : Token} {children path : List Node} {child : Node}
      (member : child ∈ children) (below : IsPath child path) :
      IsPath ⟨kind, token, children⟩ (⟨kind, token, children⟩ :: path)

/-- No path of the tree has more nodes of the counted kinds. -/
def CountAtMost (node : Node) (counted : NodeKind → Bool) (bound : Nat) : Prop :=
  ∀ path, node.IsPath path → path.countP (fun node => counted node.kind) ≤ bound

variable {counted : NodeKind → Bool} {node : Node} {nodes children : List Node} {kind : NodeKind}
  {token anchor : Token} {bound larger : Nat}

theorem CountAtMost.mono (atMost : node.CountAtMost counted bound) (le : bound ≤ larger) :
    node.CountAtMost counted larger :=
  fun path isPath => (atMost path isPath).trans le

/-- The trees of a list have no more such nodes if those have no more. -/
theorem countAtMost_all_mono (atMost : ∀ node ∈ nodes, node.CountAtMost counted bound)
    (le : bound ≤ larger) : ∀ node ∈ nodes, node.CountAtMost counted larger :=
  fun node member => (atMost node member).mono le

/-- A node adds at most one to what is below it. -/
theorem countAtMost_succ (below : ∀ child ∈ children, child.CountAtMost counted bound) :
    CountAtMost ⟨kind, token, children⟩ counted (bound + 1) := by
  intro path isPath
  cases isPath with
  | leaf =>
      rw [List.countP_singleton]
      split <;> omega
  | down member isPath =>
      have := below _ member _ isPath
      rw [List.countP_cons]
      split <;> omega

/-- A node that is not counted adds nothing. -/
theorem countAtMost_of_children (uncounted : counted node.kind = false)
    (below : ∀ child ∈ node.children, child.CountAtMost counted bound) :
    node.CountAtMost counted bound := by
  intro path isPath
  cases isPath with
  | leaf => simp [uncounted]
  | down member isPath => simpa [uncounted] using below _ member _ isPath

theorem countAtMost_leaf (uncounted : counted kind = false) :
    (leaf kind token).CountAtMost counted bound :=
  countAtMost_of_children uncounted (List.forall_mem_nil _)

theorem countAtMost_tagged (uncounted : counted kind = false)
    (below : ∀ child ∈ children, child.CountAtMost counted bound) :
    (tagged kind anchor children).CountAtMost counted bound :=
  countAtMost_of_children uncounted below

theorem countAtMost_map_leaf {text : List Token} (uncounted : counted kind = false) :
    ∀ node ∈ text.map (leaf kind), node.CountAtMost counted bound := by
  intro node member
  obtain ⟨token, -, rfl⟩ := List.mem_map.mp member
  exact countAtMost_leaf uncounted

end Node

def NodeKind.isOperation : NodeKind → Bool
  | .binary | .precedingOperator | .followingOperator | .call | .index | .cast => true
  | _ => false

/-- The node of a single token is no operation. -/
theorem isOperation_eq_false_of_leafKind? {token : Token} {kind : NodeKind}
    (isLeaf : token.leafKind? = some kind) : kind.isOperation = false := by
  unfold Token.leafKind? at isLeaf
  split at isLeaf <;> cases isLeaf <;> rfl

/-! ### The pieces of a type without values -/

section

open Node (countAtMost_leaf)

variable {counted : NodeKind → Bool} {bound : Nat} {text : List Token}

theorem DottedText.countAtMost {path : List Node} {name : Token}
    (uncounted : counted .pathSegment = false) (dotted : DottedText text path name) :
    ∀ node ∈ path, node.CountAtMost counted bound := by
  induction dotted with
  | word => simp
  | dot _ _ _ inductionHypothesis =>
      exact List.forall_mem_cons.mpr ⟨countAtMost_leaf uncounted, inductionHypothesis⟩

theorem NameText.countAtMost {path : List Node} {name : Token}
    (uncounted : counted .pathSegment = false) (named : NameText text path name) :
    ∀ node ∈ path, node.CountAtMost counted bound := by
  cases named with
  | builtin => simp
  | dotted words => exact words.countAtMost uncounted

theorem ReferenceText.countAtMost {inParameter : Bool} {nodes : List Node}
    (uncounted : counted .backReference = false)
    (referred : ReferenceText inParameter text nodes) :
    ∀ node ∈ nodes, node.CountAtMost counted bound := by
  cases referred with
  | none => simp
  | mark => exact List.forall_mem_singleton.mpr (countAtMost_leaf uncounted)

end

end TnslReader
