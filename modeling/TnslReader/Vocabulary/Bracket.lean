/-!
Contract: the three kinds of bracket and how their runes pair up.
-/

set_option autoImplicit false

namespace TnslReader

inductive Bracket where
  | round
  | square
  | curly
deriving DecidableEq, Repr

namespace Bracket

def all : List Bracket := [.round, .square, .curly]

def opening : Bracket → Char
  | .round => '('
  | .square => '['
  | .curly => '{'

def closing : Bracket → Char
  | .round => ')'
  | .square => ']'
  | .curly => '}'

def ofOpeningText? : String → Option Bracket
  | "(" => some .round
  | "[" => some .square
  | "\x7b" => some .curly
  | _ => none

def ofClosingText? : String → Option Bracket
  | ")" => some .round
  | "]" => some .square
  | "\x7d" => some .curly
  | _ => none

def ofOpening? (rune : Char) : Option Bracket :=
  all.find? (·.opening == rune)

def closerFor? (rune : Char) : Option Char :=
  (ofOpening? rune).map closing

theorem mem_all (bracket : Bracket) : bracket ∈ all := by
  cases bracket <;> simp [all]

theorem ofOpening?_opening (bracket : Bracket) : ofOpening? bracket.opening = some bracket := by
  cases bracket <;> rfl

end Bracket

end TnslReader
