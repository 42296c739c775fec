import TnslReader.Text.Json
import TnslReader.Tree.Node

/-!
Contract: tokens and trees as JSON values.

The keys of an object are in alphabetical order.
-/

set_option autoImplicit false

namespace TnslReader

mutual

def Node.toJson : Node → Json
  | ⟨kind, token, children⟩ =>
      .object
        [("children", .list (Node.toJsonAll children)),
          ("class", .text token.tokenClass.shortName),
          ("column", .number token.column),
          ("line", .number token.line),
          ("tag", .text kind.tag),
          ("text", .text token.text)]

def Node.toJsonAll : List Node → List Json
  | [] => []
  | node :: nodes => Node.toJson node :: Node.toJsonAll nodes

end

def Token.toJson (token : Token) : Json :=
  .object
    [("class", .text token.tokenClass.shortName),
      ("column", .number token.column),
      ("line", .number token.line),
      ("text", .text token.text)]

def tokensToJson (tokens : Array Token) : Json :=
  .list (tokens.toList.map Token.toJson)

end TnslReader
