/-!
Contract: the kinds of node in a syntax tree.

Owns:
- the kinds, and the tag under which each is listed;
- which kinds show the text of their token. The token of the others is made for them and carries
  the tag, or adds nothing to it.
-/

set_option autoImplicit false

namespace TnslReader

inductive NodeKind where
  /-- The root of a file; its token carries the label of the file. -/
  | root
  /-- A code block, or one later code section of a chain. -/
  | block
  /-- The header of a block. -/
  | header
  /-- A preprocessor block, or one later preprocessor section of a chain. -/
  | directives
  /-- A preprocessor directive; its token is the directive word. -/
  | directive
  /-- An argument of a directive. -/
  | argument
  /-- A keyword of a header: a modifier, a control word, or a word with its operand as child. -/
  | keyword
  /-- The operator that an `operator` block defines. -/
  | operatorName
  /-- A type followed by names, each with or without a value. -/
  | definition
  /-- A value used as a statement, or the condition of a control block. -/
  | valueStatement
  | returnStatement
  | breakStatement
  | continueStatement
  | structStatement
  | enumStatement
  | gotoStatement
  | labelStatement
  | allocStatement
  | sallocStatement
  | reallocStatement
  | deleteStatement
  | asmStatement
  /-- An operator between two operands. -/
  | binary
  /-- An operator before its operand. -/
  | precedingOperator
  /-- An operator after its operand. -/
  | followingOperator
  /-- A value called with a list of values. -/
  | call
  /-- A value indexed by a value. -/
  | index
  /-- A value cast to a list of types. -/
  | cast
  /-- A list of values in curly brackets. -/
  | composite
  /-- A user word as a value or a name. -/
  | identifier
  /-- A literal. -/
  | literal
  /-- A type. -/
  | type
  /-- A qualifier of a type. -/
  | qualifier
  /-- A pointer to the type that follows. -/
  | pointer
  /-- An array of the type that follows, with its length as child if it is given. -/
  | array
  /-- A word before the last in a dotted type name. -/
  | pathSegment
  /-- The base of a type. -/
  | typeName
  /-- The mark of a parameter passed by reference. -/
  | backReference
  /-- Values in a list. -/
  | valueList
  /-- The parameters of a block or the members of a struct. -/
  | parameterList
  /-- Types in a list. -/
  | typeList
  /-- Statements in the header of a control block. -/
  | statementList
deriving DecidableEq, Repr

namespace NodeKind

def all : List NodeKind :=
  [.root, .block, .header, .directives, .directive, .argument, .keyword, .operatorName,
    .definition, .valueStatement, .returnStatement, .breakStatement, .continueStatement,
    .structStatement, .enumStatement, .gotoStatement, .labelStatement, .allocStatement,
    .sallocStatement, .reallocStatement, .deleteStatement, .asmStatement, .binary,
    .precedingOperator, .followingOperator, .call, .index, .cast, .composite, .identifier,
    .literal, .type, .qualifier, .pointer, .array, .pathSegment, .typeName, .backReference,
    .valueList, .parameterList, .typeList, .statementList]

def tag : NodeKind → String
  | .root => "root"
  | .block => "block"
  | .header => "bdef"
  | .directives => "preblock"
  | .directive => "directive"
  | .argument => "arg"
  | .keyword => "keyword"
  | .operatorName => "opname"
  | .definition => "define"
  | .valueStatement => "value"
  | .returnStatement => "return"
  | .breakStatement => "break"
  | .continueStatement => "continue"
  | .structStatement => "struct"
  | .enumStatement => "enum"
  | .gotoStatement => "goto"
  | .labelStatement => "label"
  | .allocStatement => "alloc"
  | .sallocStatement => "salloc"
  | .reallocStatement => "realloc"
  | .deleteStatement => "delete"
  | .asmStatement => "asm"
  | .binary => "binary"
  | .precedingOperator => "preop"
  | .followingOperator => "postop"
  | .call => "call"
  | .index => "index"
  | .cast => "cast"
  | .composite => "comp"
  | .identifier => "ident"
  | .literal => "literal"
  | .type => "type"
  | .qualifier => "qualifier"
  | .pointer => "~"
  | .array => "\x7b\x7d"
  | .pathSegment => "path"
  | .typeName => "typename"
  | .backReference => "`"
  | .valueList => "vlist"
  | .parameterList => "plist"
  | .typeList => "tlist"
  | .statementList => "slist"

/-- Whether listings show the text of the node's token behind the tag. -/
def showsText : NodeKind → Bool
  | .root | .directive | .argument | .keyword | .operatorName | .binary | .precedingOperator
  | .followingOperator | .identifier | .literal | .qualifier | .pathSegment | .typeName => true
  | _ => false

theorem mem_all (kind : NodeKind) : kind ∈ all := by
  cases kind <;> simp [all]

end NodeKind

end TnslReader
