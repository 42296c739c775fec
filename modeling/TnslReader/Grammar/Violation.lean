import TnslReader.Diagnostic

/-!
Contract: why a token stream cannot be read.

Reading stops at the first cause. A cause is a value here, and its words are given once, by
`ParseError.diagnostic`.

Owns:
- what the grammar may have expected, and the ways in which a token may violate it;
- the causes that end a reading, among them faults, which no token stream gives rise to.
-/

set_option autoImplicit false

namespace TnslReader

inductive Expectation where
  | item
  | value
  | type
  | baseType
  | parameter
  | parameterName
  | firstParameterType
  | nameAfterType
  | definedName
  | endOfStatement
  | asmText
  | structName
  | memberList
  | enumName
  | enumValues
  | labelName
  | loopCount
  | codeEnd
  | preprocessorEnd
  | directivesEnd
  | definedOperator
  | nameAfter (keyword : Keyword)
  | directive
  | directiveAfterColon
  | moreInput
  | input
deriving DecidableEq, Repr

namespace Expectation

def description : Expectation → String
  | .item => "an item"
  | .value => "a value"
  | .type => "a type"
  | .baseType => "a base type"
  | .parameter => "a parameter"
  | .parameterName => "a parameter name"
  | .firstParameterType => "type before first parameter"
  | .nameAfterType => "a name after the type"
  | .definedName => "a name or `name = value` in definition"
  | .endOfStatement => "end of statement"
  | .asmText => "a string literal after `asm`"
  | .structName => "a struct name"
  | .memberList => "a struct member list `\x7b...\x7d`"
  | .enumName => "an enum name"
  | .enumValues => "an enum value list `\x7b...\x7d`"
  | .labelName => "a label name"
  | .loopCount => "a loop count"
  | .codeEnd => "`;/` to close the block"
  | .preprocessorEnd => "`:/` to close the block"
  | .directivesEnd => "`:/` to close the preprocessor block"
  | .definedOperator => "an operator after `operator`"
  | .nameAfter keyword => "a name after `" ++ keyword.spelling ++ "`"
  | .directive => "a preprocessor directive"
  | .directiveAfterColon => "a preprocessor directive after `:`"
  | .moreInput => "more input"
  | .input => "input"

end Expectation

inductive Violation where
  | expected (expectation : Expectation)
  | tokenInRoot
  | tokenInBody
  | unexpectedCloser
  | mismatchedCloser
  | unclosedBracket
  | tokenInTypeList
  | staticParameter
  | keywordInType
  | delimiterInType
  | tokenInType
  | tokenAfterType
  | operatorOnComposite
  | tokenAfterComposite
  | tokenInValue
  | keywordInValue
  | keywordInStatement
  | rawWithoutStruct
  | tokenInEnumType
  | wrongSectionEnd
  | commentMarker
  | secondListInHeader
  | secondNameInHeader
  | keywordInHeader
  | tokenInHeader
deriving DecidableEq, Repr

namespace Violation

def description : Violation → String
  | .expected expectation => "expected " ++ expectation.description
  | .tokenInRoot => "unexpected token in file root"
  | .tokenInBody => "unexpected token in block body"
  | .unexpectedCloser => "unexpected closing delimiter"
  | .mismatchedCloser => "mismatched closing delimiter"
  | .unclosedBracket => "unclosed delimiter"
  | .tokenInTypeList => "unexpected token in type list"
  | .staticParameter => "`static` is not allowed on a parameter"
  | .keywordInType => "unexpected keyword in type"
  | .delimiterInType => "unexpected delimiter in type"
  | .tokenInType => "unexpected token in type"
  | .tokenAfterType => "unexpected token after type"
  | .operatorOnComposite => "unary operator applied to a composite literal"
  | .tokenAfterComposite => "unexpected token after composite literal"
  | .tokenInValue => "unexpected token in value"
  | .keywordInValue => "unexpected keyword in value"
  | .keywordInStatement => "unexpected keyword in statement"
  | .rawWithoutStruct => "`raw` in a statement must be followed by `struct`"
  | .tokenInEnumType => "unexpected token in enum type"
  | .wrongSectionEnd => "block terminator does not match the open section"
  | .commentMarker => "unexpected comment marker"
  | .secondListInHeader => "the block header already has a list of this kind"
  | .secondNameInHeader => "the block already has a name or keyword"
  | .keywordInHeader => "unexpected keyword in block header"
  | .tokenInHeader => "unexpected token in block header"

end Violation

/-- A breach of the reader's own rules. The reader checks them as it goes; that no token stream
makes it break one is a fact about the reader, not about its input. -/
inductive Fault where
  /-- A token was asked for where there is none. -/
  | missingToken (index : Nat)
  /-- The end of a bracket pair was asked for at a token that opens none. -/
  | notAnOpener (index : Nat)
  /-- More of a limit was given back than was in use. -/
  | nothingInUse
deriving DecidableEq, Repr

inductive ParseError where
  /-- A token violates the grammar. -/
  | violation (cause : Violation) (token : Token)
  /-- The input ends, behind the token `last` if there is one, where more was expected. -/
  | endOfInput (expectation : Expectation) (last : Option Token)
  /-- Nesting goes deeper than `limit` at a token. -/
  | tooDeep (limit : Nat) (token : Token)
  /-- More than `limit` operators are chained from a token on. -/
  | tooLong (limit : Nat) (token : Token)
  /-- The reader broke one of its own rules. -/
  | fault (fault : Fault)
deriving DecidableEq, Repr

namespace ParseError

def diagnostic : ParseError → Diagnostic
  | .violation cause token => .atToken .grammar cause.description token
  | .endOfInput expectation last => .unexpectedEnd expectation.description last
  | .tooDeep limit token => .depthLimit limit token
  | .tooLong limit token => .chainLimit limit token
  | .fault _ => .about .general "internal error" ⟨0, 0⟩

/-- The violation `cause` by the token at `index`; behind the last token, the want of more input. -/
def violationAt (tokens : Array Token) (index : Nat) (cause : Violation) : ParseError :=
  match tokens[index]? with
  | some token => .violation cause token
  | none => .endOfInput .moreInput tokens.back?

/-- The want of something at `index`, whether or not a token stands there. -/
def expected (tokens : Array Token) (index : Nat) (expectation : Expectation) : ParseError :=
  match tokens[index]? with
  | some token => .violation (.expected expectation) token
  | none => .endOfInput expectation tokens.back?

/-- A limit reached at `index`, or at the last token if none stands there. -/
def limitAt (tokens : Array Token) (index : Nat) (make : Token → ParseError) : ParseError :=
  match tokens[index]?.or tokens.back? with
  | some token => make token
  | none => .endOfInput .input none

end ParseError

end TnslReader
