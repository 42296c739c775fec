import TnslReader.Token
import TnslReader.Tree.Kind

/-!
Contract: syntax trees.

A tree is homogeneous: every node has a kind, a token and an ordered list of children, and whoever
walks a tree goes by the kinds.

Owns:
- nodes, their equality, their number and their depth;
- the nodes of a tree in preorder;
- the header and the name of a block.

Does not own: which children a node of a kind may have.
-/

set_option autoImplicit false

namespace TnslReader

/-- A node of a syntax tree. -/
structure Node where
  kind : NodeKind
  token : Token
  children : List Node
deriving Repr

namespace Node

def leaf (kind : NodeKind) (token : Token) : Node :=
  ⟨kind, token, []⟩

/-- A structural node that stands where `anchor` stands. Its token carries the tag of its kind. -/
def tagged (kind : NodeKind) (anchor : Token) (children : List Node) : Node :=
  ⟨kind, .tag kind.tag anchor, children⟩

def push (node child : Node) : Node :=
  { node with children := node.children ++ [child] }

def text (node : Node) : String :=
  node.token.text

def childrenOf (node : Node) (kind : NodeKind) : List Node :=
  node.children.filter (·.kind == kind)

mutual

/-- Whether two trees are the same, tokens with their places included. -/
def same : Node → Node → Bool
  | ⟨kind, token, children⟩, ⟨otherKind, otherToken, others⟩ =>
      kind == otherKind && token == otherToken && sameAll children others

def sameAll : List Node → List Node → Bool
  | [], [] => true
  | node :: nodes, other :: others => same node other && sameAll nodes others
  | _, _ => false

end

mutual

def size : Node → Nat
  | ⟨_, _, children⟩ => 1 + sizeAll children

def sizeAll : List Node → Nat
  | [] => 0
  | node :: nodes => size node + sizeAll nodes

end

mutual

/-- The nodes of a tree in preorder behind those in `found`, each with its depth, the last first. -/
def collect (depth : Nat) (found : List (Nat × Node)) : Node → List (Nat × Node)
  | ⟨kind, token, children⟩ =>
      collectAll (depth + 1) ((depth, ⟨kind, token, children⟩) :: found) children

def collectAll (depth : Nat) (found : List (Nat × Node)) : List Node → List (Nat × Node)
  | [] => found
  | node :: nodes => collectAll depth (collect depth found node) nodes

end

/-- The nodes of a tree in preorder, each with its depth below the root. -/
def preorder (node : Node) : List (Nat × Node) :=
  (collect 0 [] node).reverse

def height (node : Node) : Nat :=
  node.preorder.foldl (fun deepest entry => max deepest entry.1) 0

def census (node : Node) : List (NodeKind × Nat) :=
  let kinds := node.preorder.map (·.2.kind)
  (NodeKind.all.map fun kind => (kind, kinds.count kind)).filter (0 < ·.2)

def header? (node : Node) : Option Node :=
  match node.kind, node.children with
  | .block, first :: _ => if first.kind == .header then some first else none
  | _, _ => none

/-- The name that a child of a header gives its block: a user word names it, and so does a control
keyword; a keyword with an operand gives the operand. -/
def naming? (child : Node) : Option String :=
  match child.kind, child.children with
  | .identifier, _ => some child.text
  | .keyword, [operand] => some operand.text
  | .keyword, _ =>
      match Keyword.ofSpelling? child.text with
      | some keyword => if keyword.isControl then some child.text else none
      | none => none
  | _, _ => none

/-- The name of a block, from the first child of its header that gives one. -/
def blockName? (node : Node) : Option String :=
  node.header?.bind fun header => header.children.findSome? naming?

end Node

end TnslReader
