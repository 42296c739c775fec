/-!
Contract: the classes of TNSL tokens.

Owns:
- the nine classes that source text can produce and the two that only trees use;
- the short name under which a class is listed.

Does not own: the rule that decides the class of a given text.
-/

set_option autoImplicit false

namespace TnslReader

/-- What a token is. `root` and `tag` mark tokens that a tree makes for itself. -/
inductive TokenClass where
  /-- One of `;`, `:` and `#`. -/
  | lineSeparator
  /-- The comma. -/
  | inlineSeparator
  /-- Brackets and the markers of blocks and comments. -/
  | delimiter
  /-- Operators, the words `is` and `len` included. -/
  | operator
  /-- Numbers, quoted text, and the words `true`, `false`, `self`, `super`. -/
  | literal
  /-- Built-in type words such as `int`. -/
  | builtinType
  /-- Directive words, recognised in preprocessor context only. -/
  | directiveWord
  /-- All other reserved words. -/
  | keyword
  /-- Words that the user chose. -/
  | userWord
  /-- The token of a tree's root. -/
  | root
  /-- The token of a structural node. -/
  | tag
deriving DecidableEq, Repr

namespace TokenClass

def all : List TokenClass :=
  [.lineSeparator, .inlineSeparator, .delimiter, .operator, .literal, .builtinType,
    .directiveWord, .keyword, .userWord, .root, .tag]

def shortName : TokenClass → String
  | .lineSeparator => "LINESEP"
  | .inlineSeparator => "INLNSEP"
  | .delimiter => "DELIMIT"
  | .operator => "AUGMENT"
  | .literal => "LITERAL"
  | .builtinType => "KEYTYPE"
  | .directiveWord => "PREWORD"
  | .keyword => "KEYWORD"
  | .userWord => "DEFWORD"
  | .root => "ROOT"
  | .tag => "TAG"

/-- Whether source text can produce a token of this class. -/
def isLexical : TokenClass → Bool
  | .root | .tag => false
  | _ => true

theorem mem_all (tokenClass : TokenClass) : tokenClass ∈ all := by
  cases tokenClass <;> simp [all]

end TokenClass

end TnslReader
