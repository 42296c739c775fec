import TnslReader.Vocabulary.Class

/-!
Contract: the reserved runes of TNSL.

A reserved rune always ends a word. Runes that stand together are cut into groups elsewhere; the
class given here is the one that a rune has on its own.
-/

set_option autoImplicit false

namespace TnslReader

/-- A rune that no word may contain, with the class it has alone and what it stands for. -/
structure ReservedRune where
  rune : Char
  tokenClass : TokenClass
  role : String
deriving DecidableEq, Repr

namespace ReservedRune

def all : List ReservedRune :=
  [⟨'(', .delimiter, "starting condition open"⟩,
    ⟨')', .delimiter, "starting condition close"⟩,
    ⟨'[', .delimiter, "ending condition open"⟩,
    ⟨']', .delimiter, "ending condition close"⟩,
    ⟨'{', .delimiter, "array/set open"⟩,
    ⟨'}', .delimiter, "array/set close"⟩,
    ⟨':', .lineSeparator, "preprocessor directive"⟩,
    ⟨';', .lineSeparator, "statement"⟩,
    ⟨'#', .lineSeparator, "line comment"⟩,
    ⟨',', .inlineSeparator, "argument separator"⟩,
    ⟨'=', .operator, "assignment"⟩,
    ⟨'.', .operator, "member access"⟩,
    ⟨'&', .operator, "bitwise and"⟩,
    ⟨'|', .operator, "bitwise or"⟩,
    ⟨'^', .operator, "bitwise xor"⟩,
    ⟨'>', .operator, "greater than"⟩,
    ⟨'<', .operator, "less than"⟩,
    ⟨'!', .operator, "not"⟩,
    ⟨'+', .operator, "addition"⟩,
    ⟨'-', .operator, "subtraction"⟩,
    ⟨'*', .operator, "multiplication"⟩,
    ⟨'/', .operator, "division"⟩,
    ⟨'%', .operator, "modulo"⟩,
    ⟨'~', .operator, "address of"⟩,
    ⟨'\x60', .operator, "dereference"⟩]

def find? (rune : Char) : Option ReservedRune :=
  all.find? (·.rune == rune)

theorem rune_of_find? {rune : Char} {entry : ReservedRune} (found : find? rune = some entry) :
    entry.rune = rune := by
  simpa using List.find?_some found

theorem mem_all_of_find? {rune : Char} {entry : ReservedRune} (found : find? rune = some entry) :
    entry ∈ all :=
  List.mem_of_find?_eq_some found

end ReservedRune

end TnslReader
