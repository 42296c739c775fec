import TnslReader.Vocabulary.Bracket
import TnslReader.Vocabulary.Classify

/-!
Contract: tokens, where they stand, and what the vocabulary says about them.

Owns:
- spans and tokens, and the tokens that a tree makes for itself;
- the questions a grammar asks of a token: which keyword, operator, marker or bracket it is.

A question answers for the class and the text of a token together: the user word `loop` is not the
keyword `loop`, because their classes differ.
-/

set_option autoImplicit false

namespace TnslReader

/-- A range of bytes in the source text. -/
structure Span where
  start : Nat
  stop : Nat
deriving DecidableEq, Repr, Inhabited

namespace Span

def length (span : Span) : Nat :=
  span.stop - span.start

def isEmpty (span : Span) : Bool :=
  span.length == 0

end Span

/-- A token: its class, its exact text, the line and column of its first character, counted from 1
in characters, and its range of bytes. Line 0 marks a token that stands nowhere. -/
structure Token where
  tokenClass : TokenClass
  text : String
  line : Nat
  column : Nat
  span : Span
deriving DecidableEq, Repr

namespace Token

/-- The token of a structural node that stands where `anchor` stands. -/
def tag (text : String) (anchor : Token) : Token :=
  { anchor with tokenClass := .tag, text := text }

/-- The token of a tree's root. It stands nowhere and carries the label of the tree. -/
def root (label : String) : Token :=
  ⟨.root, label, 0, 0, ⟨0, 0⟩⟩

def respelled (token : Token) (tokenClass : TokenClass) (text : String) : Token :=
  { token with tokenClass := tokenClass, text := text }

def hasPosition (token : Token) : Bool :=
  0 < token.line

/-- The reserved word that the token is, whatever class the word is lexed to. -/
def keyword? (token : Token) : Option Keyword :=
  match token.tokenClass with
  | .keyword | .builtinType | .literal | .operator => Keyword.ofSpelling? token.text
  | _ => none

/-- Whether the token is the given word, lexed as a keyword. -/
def isKeyword (token : Token) (keyword : Keyword) : Bool :=
  token.tokenClass == .keyword && token.text == keyword.spelling

def operator? (token : Token) : Option Operator :=
  match token.tokenClass with
  | .operator => Operator.ofSpelling? token.text
  | _ => none

def isOperator (token : Token) (operator : Operator) : Bool :=
  token.operator? == some operator

def mayPrecedeOperand (token : Token) : Bool :=
  token.operator?.any (·.mayPrecede)

def mayFollowOperand (token : Token) : Bool :=
  token.operator?.any (·.mayFollow)

/-- The binding order of the token, if it is an operator that may stand between operands. -/
def order? (token : Token) : Option Nat :=
  token.operator?.bind (·.order?)

def marker? (token : Token) : Option Marker :=
  match token.tokenClass with
  | .delimiter => Marker.ofSpelling? token.text
  | _ => none

def isMarker (token : Token) (marker : Marker) : Bool :=
  token.marker? == some marker

def isBlockMarker (token : Token) : Bool :=
  token.marker?.any (·.isBlockMarker)

/-- Whether the token's text is one byte, the given rune. -/
def isSingle (token : Token) (rune : Char) : Bool :=
  token.text.utf8ByteSize == 1 && token.text.toList.head? == some rune

def isDelimiter (token : Token) (rune : Char) : Bool :=
  token.tokenClass == .delimiter && token.isSingle rune

def isLineSeparator (token : Token) (rune : Char) : Bool :=
  token.tokenClass == .lineSeparator && token.isSingle rune

def isComma (token : Token) : Bool :=
  token.tokenClass == .inlineSeparator

def opens? (token : Token) : Option Bracket :=
  match token.tokenClass with
  | .delimiter => Bracket.ofOpeningText? token.text
  | _ => none

def closes? (token : Token) : Option Bracket :=
  match token.tokenClass with
  | .delimiter => Bracket.ofClosingText? token.text
  | _ => none

def isOpener (token : Token) : Bool :=
  token.opens?.isSome

def isCloser (token : Token) : Bool :=
  token.closes?.isSome

/-- Whether an operand may end with the token, so that an operator behind it stands between two
operands. -/
def endsOperand (token : Token) : Bool :=
  match token.tokenClass with
  | .literal | .userWord | .builtinType => true
  | .delimiter => token.isCloser
  | .operator => token.mayFollowOperand
  | _ => false

/-- Whether a statement or value ends before the token. -/
def endsStatement (token : Token) : Bool :=
  token.tokenClass == .lineSeparator || token.isBlockMarker

def endsSection (token : Token) : Bool :=
  token.marker?.any (·.endsSection)

def isQuotedText (token : Token) : Bool :=
  token.tokenClass == .literal && token.text.toList.head? == some '"'

end Token

end TnslReader
