/-!
Contract: the operators of TNSL.

Owns:
- every operator, those spelled with runes and the words `is` and `len`;
- where an operator may stand: between two operands, before one, or after one;
- the binding order of the operators that stand between operands; a lower order binds tighter.

One operator may stand in several places: `-` is a difference and a negation, `++` may come before
or after its operand.
-/

set_option autoImplicit false

namespace TnslReader

inductive Operator where
  | dot | isWord | star | slash | plus | minus | percent | ampersand | pipe | caret | shiftLeft
  | shiftRight | notAmpersand | notPipe | notCaret | logicalAnd | logicalOr | equal | notEqual
  | greater | less | greaterEqual | lessEqual | notEqualEqual | notLogicalAnd | notLogicalOr
  | notGreater | notLess | assign | ampersandAssign | pipeAssign | caretAssign | plusAssign
  | minusAssign | starAssign | slashAssign | percentAssign | tildeAssign | backtickAssign | bang
  | tilde | backtick | increment | decrement | lenWord
deriving DecidableEq, Repr

namespace Operator

def all : List Operator :=
  [.dot, .isWord, .star, .slash, .plus, .minus, .percent, .ampersand, .pipe, .caret, .shiftLeft,
    .shiftRight, .notAmpersand, .notPipe, .notCaret, .logicalAnd, .logicalOr, .equal, .notEqual,
    .greater, .less, .greaterEqual, .lessEqual, .notEqualEqual, .notLogicalAnd, .notLogicalOr,
    .notGreater, .notLess, .assign, .ampersandAssign, .pipeAssign, .caretAssign, .plusAssign,
    .minusAssign, .starAssign, .slashAssign, .percentAssign, .tildeAssign, .backtickAssign,
    .bang, .tilde, .backtick, .increment, .decrement, .lenWord]

def spelling : Operator → String
  | .dot => "."
  | .isWord => "is"
  | .star => "*"
  | .slash => "/"
  | .plus => "+"
  | .minus => "-"
  | .percent => "%"
  | .ampersand => "&"
  | .pipe => "|"
  | .caret => "^"
  | .shiftLeft => "<<"
  | .shiftRight => ">>"
  | .notAmpersand => "!&"
  | .notPipe => "!|"
  | .notCaret => "!^"
  | .logicalAnd => "&&"
  | .logicalOr => "||"
  | .equal => "=="
  | .notEqual => "!="
  | .greater => ">"
  | .less => "<"
  | .greaterEqual => ">=="
  | .lessEqual => "<=="
  | .notEqualEqual => "!=="
  | .notLogicalAnd => "!&&"
  | .notLogicalOr => "!||"
  | .notGreater => "!>"
  | .notLess => "!<"
  | .assign => "="
  | .ampersandAssign => "&="
  | .pipeAssign => "|="
  | .caretAssign => "^="
  | .plusAssign => "+="
  | .minusAssign => "-="
  | .starAssign => "*="
  | .slashAssign => "/="
  | .percentAssign => "%="
  | .tildeAssign => "~="
  | .backtickAssign => "`="
  | .bang => "!"
  | .tilde => "~"
  | .backtick => "`"
  | .increment => "++"
  | .decrement => "--"
  | .lenWord => "len"

/-- How loosely the operator binds two operands, from member access at 1 to assignment at 8. An
operator without an order never stands between operands. -/
def order? : Operator → Option Nat
  | .dot => some 1
  | .isWord => some 2
  | .star | .slash => some 3
  | .plus | .minus => some 4
  | .percent => some 5
  | .ampersand | .pipe | .caret | .shiftLeft | .shiftRight | .notAmpersand | .notPipe
  | .notCaret => some 6
  | .logicalAnd | .logicalOr | .equal | .notEqual | .greater | .less | .greaterEqual | .lessEqual
  | .notEqualEqual | .notLogicalAnd | .notLogicalOr | .notGreater | .notLess => some 7
  | .assign | .ampersandAssign | .pipeAssign | .caretAssign | .plusAssign | .minusAssign
  | .starAssign | .slashAssign | .percentAssign | .tildeAssign | .backtickAssign => some 8
  | .bang | .tilde | .backtick | .increment | .decrement | .lenWord => none

def mayPrecede : Operator → Bool
  | .minus | .bang | .tilde | .increment | .decrement | .lenWord => true
  | _ => false

def mayFollow : Operator → Bool
  | .backtick | .increment | .decrement => true
  | _ => false

def isWordOperator : Operator → Bool
  | .isWord | .lenWord => true
  | _ => false

def ofSpelling? (text : String) : Option Operator :=
  all.find? (·.spelling == text)

theorem mem_all (operator : Operator) : operator ∈ all := by
  cases operator <;> simp [all]

theorem spelling_of_ofSpelling? {text : String} {operator : Operator}
    (found : ofSpelling? text = some operator) : operator.spelling = text := by
  simpa using List.find?_some found

theorem ofSpelling?_spelling (operator : Operator) :
    ofSpelling? operator.spelling = some operator := by
  cases operator <;> decide +kernel

end Operator

end TnslReader
