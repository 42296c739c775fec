import TnslReader.Tree.Node

/-!
Contract: a tree in one line of nested parentheses.

A node without children is its tag, with the text of its token behind a colon if its kind shows it.
A node with children is that and its children, in parentheses with spaces between.
-/

set_option autoImplicit false

namespace TnslReader.Node

/-- The tag of a node, with its text if its kind shows it. -/
def heading (node : Node) : String :=
  if node.kind.showsText then node.kind.tag ++ ":" ++ node.text else node.kind.tag

mutual

def writeOutline (out : String) : Node → String
  | ⟨kind, token, []⟩ => out ++ heading ⟨kind, token, []⟩
  | ⟨kind, token, child :: children⟩ =>
      writeOutlines (writeOutline (out ++ "(" ++ heading ⟨kind, token, []⟩ ++ " ") child) children
        ++ ")"

def writeOutlines (out : String) : List Node → String
  | [] => out
  | node :: nodes => writeOutlines (writeOutline (out ++ " ") node) nodes

end

def outline (node : Node) : String :=
  writeOutline "" node

end TnslReader.Node
