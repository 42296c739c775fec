import TnslReader.Grammar.Section
import TnslReader.Token.Comment

/-!
Contract: the readings that a user of this library asks for.

Owns:
- `readTree`, the tree of a whole token stream;
- `readValue`, `readType` and `isDefinition`, which read from a given place on.

Each stops at the first error. The readings from a place on work under the standard limits.
-/

set_option autoImplicit false

namespace TnslReader

/-- The tree of a token stream, under a root with the given label. -/
def readTree (tokens : Array Token) (label : String) (limits : Limits) :
    Except ParseError Node :=
  ((rootItemsFrom tokens 0).answer (.none limits)).map fun items => ⟨.root, .root label, items⟩

/-- The value that begins at `start`, searched no further than `stop`, and the index of the token
that ends it. A closing bracket that the value did not open ends it like any other end. -/
def readValue (tokens : Array Token) (start stop : Nat) : Except ParseError (Node × Nat) := do
  let behind ← valueExtent tokens start stop
  let node ← (value tokens start behind).answer (.none .standard)
  return (node, behind)

def readType (tokens : Array Token) (start stop : Nat) (inParameter : Bool) :
    Except ParseError (Node × Nat) := do
  let type ← (typeAt tokens inParameter start (min stop tokens.size)).answer (.none .standard)
  return (type.result, type.next)

/-- Whether a type is read at `start` and a user word stands right behind it, before `stop`. The
answer is an error only if the reader is at fault. -/
def isDefinition (tokens : Array Token) (start stop : Nat) : Except ParseError Bool :=
  (isDefinitionAt tokens start (min stop tokens.size)).answer (.none .standard)

end TnslReader
