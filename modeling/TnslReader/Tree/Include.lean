import TnslReader.Tree.Node

/-!
Contract: the files that a source file includes.

Only directives at the top level of the file count, those within preprocessor blocks at the top
level among them; directives within code blocks do not.
-/

set_option autoImplicit false

namespace TnslReader

/-- The text without the double quote it begins with and the one that what is left ends with. -/
def unquote (text : String) : String :=
  let inner :=
    match text.toList with
    | '"' :: rest => rest
    | whole => whole
  String.ofList (if inner.getLast? == some '"' then inner.dropLast else inner)

namespace Node

/-- The paths that a node includes if it is an `include` directive: its arguments that are text in
double quotes, without the quotes. -/
def includedHere (node : Node) : List String :=
  if node.kind == .directive && DirectiveWord.ofSpelling? node.text == some .includeWord then
    (node.children.filter (·.token.isQuotedText)).map fun argument => unquote argument.text
  else
    []

mutual

def includePaths : Node → List String
  | ⟨_, _, children⟩ => includePathsAmong children

/-- The paths that some items include. A preprocessor block among them includes what its own items
include. -/
def includePathsAmong : List Node → List String
  | [] => []
  | item :: items =>
      (match item.kind with
        | .directives => includePaths item
        | _ => item.includedHere) ++
        includePathsAmong items

end

end Node

end TnslReader
