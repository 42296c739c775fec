import TnslReader.Vocabulary.Class

/-!
Contract: the reserved words of TNSL.

Owns:
- the words, their spelling and the category that each belongs to;
- the class that a reserved word is lexed to, which its category determines;
- the two groups of words that the grammar singles out, qualifiers and control words.

Spellings are case-sensitive. `elif` is reserved because it names the merged header `else if`.
-/

set_option autoImplicit false

namespace TnslReader

inductive KeywordCategory where
  | builtinType
  | declaration
  | controlFlow
  | qualifier
  | structural
  | memory
  | literal
  | operator
deriving DecidableEq, Repr

inductive Keyword where
  | boolWord | charWord | charpWord | intWord | int8Word | int16Word | int32Word | int64Word
  | uintWord | uint8Word | uint16Word | uint32Word | uint64Word | floatWord | float32Word
  | float64Word | voidWord | typeWord
  | structWord | interfaceWord | enumWord | extendsWord
  | loopWord | continueWord | breakWord | returnWord | matchWord | caseWord | defaultWord
  | labelWord | gotoWord | ifWord | elseWord | elifWord
  | constWord | staticWord | volatileWord
  | methodWord | overrideWord | operatorWord | rawWord | asmWord | inlineWord | moduleWord
  | exportWord
  | allocWord | sallocWord | reallocWord | deleteWord
  | trueWord | falseWord | selfWord | superWord
  | isWord | lenWord
deriving DecidableEq, Repr

namespace Keyword

def all : List Keyword :=
  [.boolWord, .charWord, .charpWord, .intWord, .int8Word, .int16Word, .int32Word, .int64Word,
    .uintWord, .uint8Word, .uint16Word, .uint32Word, .uint64Word, .floatWord, .float32Word,
    .float64Word, .voidWord, .typeWord, .structWord, .interfaceWord, .enumWord, .extendsWord,
    .loopWord, .continueWord, .breakWord, .returnWord, .matchWord, .caseWord, .defaultWord,
    .labelWord, .gotoWord, .ifWord, .elseWord, .elifWord, .constWord, .staticWord, .volatileWord,
    .methodWord, .overrideWord, .operatorWord, .rawWord, .asmWord, .inlineWord, .moduleWord,
    .exportWord, .allocWord, .sallocWord, .reallocWord, .deleteWord, .trueWord, .falseWord,
    .selfWord, .superWord, .isWord, .lenWord]

def spelling : Keyword → String
  | .boolWord => "bool"
  | .charWord => "char"
  | .charpWord => "charp"
  | .intWord => "int"
  | .int8Word => "int8"
  | .int16Word => "int16"
  | .int32Word => "int32"
  | .int64Word => "int64"
  | .uintWord => "uint"
  | .uint8Word => "uint8"
  | .uint16Word => "uint16"
  | .uint32Word => "uint32"
  | .uint64Word => "uint64"
  | .floatWord => "float"
  | .float32Word => "float32"
  | .float64Word => "float64"
  | .voidWord => "void"
  | .typeWord => "type"
  | .structWord => "struct"
  | .interfaceWord => "interface"
  | .enumWord => "enum"
  | .extendsWord => "extends"
  | .loopWord => "loop"
  | .continueWord => "continue"
  | .breakWord => "break"
  | .returnWord => "return"
  | .matchWord => "match"
  | .caseWord => "case"
  | .defaultWord => "default"
  | .labelWord => "label"
  | .gotoWord => "goto"
  | .ifWord => "if"
  | .elseWord => "else"
  | .elifWord => "elif"
  | .constWord => "const"
  | .staticWord => "static"
  | .volatileWord => "volatile"
  | .methodWord => "method"
  | .overrideWord => "override"
  | .operatorWord => "operator"
  | .rawWord => "raw"
  | .asmWord => "asm"
  | .inlineWord => "inline"
  | .moduleWord => "module"
  | .exportWord => "export"
  | .allocWord => "alloc"
  | .sallocWord => "salloc"
  | .reallocWord => "realloc"
  | .deleteWord => "delete"
  | .trueWord => "true"
  | .falseWord => "false"
  | .selfWord => "self"
  | .superWord => "super"
  | .isWord => "is"
  | .lenWord => "len"

def category : Keyword → KeywordCategory
  | .boolWord | .charWord | .charpWord | .intWord | .int8Word | .int16Word | .int32Word
  | .int64Word | .uintWord | .uint8Word | .uint16Word | .uint32Word | .uint64Word | .floatWord
  | .float32Word | .float64Word | .voidWord | .typeWord => .builtinType
  | .structWord | .interfaceWord | .enumWord | .extendsWord => .declaration
  | .loopWord | .continueWord | .breakWord | .returnWord | .matchWord | .caseWord | .defaultWord
  | .labelWord | .gotoWord | .ifWord | .elseWord | .elifWord => .controlFlow
  | .constWord | .staticWord | .volatileWord => .qualifier
  | .methodWord | .overrideWord | .operatorWord | .rawWord | .asmWord | .inlineWord | .moduleWord
  | .exportWord => .structural
  | .allocWord | .sallocWord | .reallocWord | .deleteWord => .memory
  | .trueWord | .falseWord | .selfWord | .superWord => .literal
  | .isWord | .lenWord => .operator

def tokenClass (keyword : Keyword) : TokenClass :=
  match keyword.category with
  | .builtinType => .builtinType
  | .literal => .literal
  | .operator => .operator
  | _ => .keyword

def ofSpelling? (text : String) : Option Keyword :=
  all.find? (·.spelling == text)

def isQualifier (keyword : Keyword) : Bool :=
  keyword.category == .qualifier

/-- Whether the word names a control block. The bracketed lists in the header of a control block
hold statements, not parameters and result types. -/
def isControl : Keyword → Bool
  | .ifWord | .elifWord | .elseWord | .loopWord | .matchWord | .caseWord | .defaultWord => true
  | _ => false

theorem mem_all (keyword : Keyword) : keyword ∈ all := by
  cases keyword <;> simp [all]

theorem spelling_of_ofSpelling? {text : String} {keyword : Keyword}
    (found : ofSpelling? text = some keyword) : keyword.spelling = text := by
  simpa using List.find?_some found

theorem ofSpelling?_spelling (keyword : Keyword) : ofSpelling? keyword.spelling = some keyword := by
  cases keyword <;> decide +kernel

end Keyword

end TnslReader
