import Mathlib.Tactic
import TnslReader.Tree.Node

/-!
Contract: what holds at every node of a tree, the preorder of a tree, and when two trees are equal.

`Node.Everywhere` follows the tree, so a proof about a tree that is built up goes by its nodes; and
it is the same as what holds of every entry in the tree's preorder. The preorder that is collected
from behind is likewise the one that follows the tree, and has as many entries as the tree has
nodes.
-/

set_option autoImplicit false

namespace TnslReader.Node

/-! ### Equality -/

mutual

theorem same_iff : (node other : Node) → (same node other = true ↔ node = other)
  | ⟨_, _, _⟩, ⟨_, _, _⟩ => by
      rw [same, Bool.and_eq_true, Bool.and_eq_true, beq_iff_eq, beq_iff_eq, sameAll_iff, and_assoc,
        mk.injEq]

theorem sameAll_iff : (nodes others : List Node) → (sameAll nodes others = true ↔ nodes = others)
  | [], [] => by simp [sameAll]
  | [], _ :: _ => by simp [sameAll]
  | _ :: _, [] => by simp [sameAll]
  | node :: nodes, other :: others => by
      rw [sameAll, Bool.and_eq_true, same_iff, sameAll_iff, List.cons.injEq]

end

instance : DecidableEq Node :=
  fun node other => decidable_of_iff _ (same_iff node other)

/-! ### Properties of all nodes -/

mutual

/-- The property holds of the node and of all nodes below it. -/
def Everywhere (property : Node → Prop) : Node → Prop
  | ⟨kind, token, children⟩ => property ⟨kind, token, children⟩ ∧ EverywhereAll property children

def EverywhereAll (property : Node → Prop) : List Node → Prop
  | [] => True
  | node :: nodes => Everywhere property node ∧ EverywhereAll property nodes

end

variable {property : Node → Prop}

theorem everywhereAll_iff {nodes : List Node} :
    EverywhereAll property nodes ↔ ∀ node ∈ nodes, node.Everywhere property := by
  induction nodes with
  | nil => simp [EverywhereAll]
  | cons node nodes inductionHypothesis => simp [EverywhereAll, inductionHypothesis]

theorem everywhere_mk {kind : NodeKind} {token : Token} {children : List Node} :
    Everywhere property ⟨kind, token, children⟩ ↔
      property ⟨kind, token, children⟩ ∧ ∀ child ∈ children, child.Everywhere property := by
  rw [Everywhere, everywhereAll_iff]

@[simp] theorem everywhere_leaf {kind : NodeKind} {token : Token} :
    (leaf kind token).Everywhere property ↔ property (leaf kind token) := by
  simp [leaf, everywhere_mk]

theorem everywhere_tagged {kind : NodeKind} {anchor : Token} {children : List Node} :
    (tagged kind anchor children).Everywhere property ↔
      property (tagged kind anchor children) ∧ ∀ child ∈ children, child.Everywhere property :=
  everywhere_mk

theorem Everywhere.here {node : Node} (holds : node.Everywhere property) : property node := by
  cases node
  exact (everywhere_mk.mp holds).1

mutual

theorem Everywhere.mono {property weaker : Node → Prop}
    (implies : ∀ node, property node → weaker node) :
    (node : Node) → node.Everywhere property → node.Everywhere weaker
  | ⟨_, _, children⟩, holds =>
      ⟨implies _ holds.1, EverywhereAll.mono implies children holds.2⟩

theorem EverywhereAll.mono {property weaker : Node → Prop}
    (implies : ∀ node, property node → weaker node) :
    (nodes : List Node) → EverywhereAll property nodes → EverywhereAll weaker nodes
  | [], _ => trivial
  | node :: nodes, holds =>
      ⟨Everywhere.mono implies node holds.1, EverywhereAll.mono implies nodes holds.2⟩

end

mutual

/-- What a node hands on to its children holds everywhere if it holds at the top. -/
theorem Everywhere.of_top {property kept : Node → Prop}
    (handsOn : ∀ node, property node → kept node → ∀ child ∈ node.children, kept child) :
    (node : Node) → node.Everywhere property → kept node → node.Everywhere kept
  | ⟨_, _, children⟩, holds, top =>
      ⟨top, EverywhereAll.of_top handsOn children holds.2 (handsOn _ holds.1 top)⟩

theorem EverywhereAll.of_top {property kept : Node → Prop}
    (handsOn : ∀ node, property node → kept node → ∀ child ∈ node.children, kept child) :
    (nodes : List Node) → EverywhereAll property nodes → (∀ node ∈ nodes, kept node) →
      EverywhereAll kept nodes
  | [], _, _ => trivial
  | node :: nodes, holds, top =>
      ⟨Everywhere.of_top handsOn node holds.1 (top node List.mem_cons_self),
        EverywhereAll.of_top handsOn nodes holds.2 fun other member =>
          top other (List.mem_cons_of_mem node member)⟩

end

/-! ### Preorder without depths -/

mutual

def inOrder : Node → List Node
  | ⟨kind, token, children⟩ => ⟨kind, token, children⟩ :: inOrderAll children

def inOrderAll : List Node → List Node
  | [] => []
  | node :: nodes => inOrder node ++ inOrderAll nodes

end

theorem inOrderAll_append (nodes others : List Node) :
    inOrderAll (nodes ++ others) = inOrderAll nodes ++ inOrderAll others := by
  induction nodes with
  | nil => rfl
  | cons node nodes inductionHypothesis =>
      rw [List.cons_append, inOrderAll, inOrderAll, inductionHypothesis, List.append_assoc]

mutual

theorem everywhere_iff_inOrder (property : Node → Prop) : (node : Node) →
    (node.Everywhere property ↔ ∀ inner ∈ node.inOrder, property inner)
  | ⟨kind, token, children⟩ => by
      rw [Everywhere, everywhereAll_iff_inOrderAll, inOrder, List.forall_mem_cons]

theorem everywhereAll_iff_inOrderAll (property : Node → Prop) : (nodes : List Node) →
    (EverywhereAll property nodes ↔ ∀ inner ∈ inOrderAll nodes, property inner)
  | [] => by simp [EverywhereAll, inOrderAll]
  | node :: nodes => by
      rw [EverywhereAll, everywhere_iff_inOrder, everywhereAll_iff_inOrderAll, inOrderAll,
        List.forall_mem_append]

end

/-! ### Preorder with depths -/

mutual

/-- The node at the given depth and all nodes below it, in preorder, each with its depth. -/
def inOrderFrom (depth : Nat) : Node → List (Nat × Node)
  | ⟨kind, token, children⟩ =>
      (depth, ⟨kind, token, children⟩) :: inOrderAllFrom (depth + 1) children

def inOrderAllFrom (depth : Nat) : List Node → List (Nat × Node)
  | [] => []
  | node :: nodes => inOrderFrom depth node ++ inOrderAllFrom depth nodes

end

mutual

theorem collect_eq (depth : Nat) (found : List (Nat × Node)) : (node : Node) →
    collect depth found node = (node.inOrderFrom depth).reverse ++ found
  | ⟨kind, token, children⟩ => by
      rw [collect, collectAll_eq, inOrderFrom]
      simp

theorem collectAll_eq (depth : Nat) (found : List (Nat × Node)) : (nodes : List Node) →
    collectAll depth found nodes = (inOrderAllFrom depth nodes).reverse ++ found
  | [] => rfl
  | node :: nodes => by
      rw [collectAll, collectAll_eq, collect_eq, inOrderAllFrom, List.reverse_append,
        List.append_assoc]

end

/-- The preorder that is collected is the one that follows the tree. -/
theorem preorder_eq (node : Node) : node.preorder = node.inOrderFrom 0 := by
  rw [preorder, collect_eq, List.append_nil, List.reverse_reverse]

mutual

theorem map_inOrderFrom (depth : Nat) : (node : Node) →
    (node.inOrderFrom depth).map (·.2) = node.inOrder
  | ⟨kind, token, children⟩ => by
      rw [inOrderFrom, List.map_cons, map_inOrderAllFrom, inOrder]

theorem map_inOrderAllFrom (depth : Nat) : (nodes : List Node) →
    (inOrderAllFrom depth nodes).map (·.2) = inOrderAll nodes
  | [] => rfl
  | node :: nodes => by
      rw [inOrderAllFrom, List.map_append, map_inOrderFrom, map_inOrderAllFrom, inOrderAll]

end

theorem map_preorder (node : Node) : node.preorder.map (·.2) = node.inOrder := by
  rw [preorder_eq, map_inOrderFrom]

/-- What holds everywhere in a tree holds of each entry of its preorder. -/
theorem everywhere_iff_preorder {node : Node} :
    node.Everywhere property ↔ ∀ entry ∈ node.preorder, property entry.2 := by
  rw [everywhere_iff_inOrder, ← map_preorder, List.forall_mem_map]

mutual

theorem length_inOrder : (node : Node) → node.inOrder.length = node.size
  | ⟨kind, token, children⟩ => by
      rw [inOrder, List.length_cons, length_inOrderAll, size, Nat.add_comm]

theorem length_inOrderAll : (nodes : List Node) → (inOrderAll nodes).length = sizeAll nodes
  | [] => rfl
  | node :: nodes => by
      rw [inOrderAll, List.length_append, length_inOrder, length_inOrderAll, sizeAll]

end

theorem length_preorder (node : Node) : node.preorder.length = node.size := by
  rw [← length_inOrder, ← map_preorder, List.length_map]

end TnslReader.Node
