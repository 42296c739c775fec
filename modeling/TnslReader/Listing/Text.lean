import TnslReader.Tree.Node

/-!
Contract: listings with one line for each token or node.

A token's line gives its place, class and text. A node's line gives its tag, the text of its token
if its kind shows it, and its place if it has one; it is indented by two spaces for each level.
-/

set_option autoImplicit false

namespace TnslReader

def indentation (depth : Nat) : String :=
  String.ofList (List.replicate (2 * depth) ' ')

def Node.entry (node : Node) : String :=
  node.kind.tag ++ (if node.kind.showsText then " " ++ node.text else "") ++
    (if node.token.hasPosition then
      " @" ++ toString node.token.line ++ ":" ++ toString node.token.column
    else "")

/-- A tree as lines, one for each node in preorder. -/
def Node.listing (root : Node) : String :=
  String.join (root.preorder.map fun (depth, node) => indentation depth ++ node.entry ++ "\n")

def Token.entry (token : Token) : String :=
  toString token.line ++ ":" ++ toString token.column ++ " " ++ token.tokenClass.shortName ++ " " ++
    token.text

def tokenListing (tokens : Array Token) : String :=
  String.join (tokens.toList.map fun token => token.entry ++ "\n")

end TnslReader
