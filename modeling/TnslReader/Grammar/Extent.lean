import TnslReader.Grammar.Reading

/-!
Contract: where a value ends that is followed by something else.

A value reaches up to a line separator, a block marker, a comma outside its brackets, or a closing
bracket that it did not open.
-/

set_option autoImplicit false

namespace TnslReader

/-- Looks for the end of a value from `index` on and before `limit`. The pairs still open are
`pending`, each with the index of its opener, the innermost first. -/
def valueExtentFrom (tokens : Array Token) (limit : Nat) (pending : List (Nat × Bracket))
    (index : Nat) : Except ParseError Nat :=
  if _inside : index < limit then do
    let token ← Reading.tokenAt tokens index
    if token.endsStatement then
      match pending with
      | [] => return index
      | (opener, _) :: _ => throw (.violationAt tokens opener .unclosedBracket)
    else if token.isComma && pending.isEmpty then
      return index
    else
      match token.opens? with
      | some bracket => valueExtentFrom tokens limit ((index, bracket) :: pending) (index + 1)
      | none =>
          match token.closes?, pending with
          | none, _ => valueExtentFrom tokens limit pending (index + 1)
          | some _, [] => return index
          | some closed, (_, bracket) :: outer =>
              if closed = bracket then
                valueExtentFrom tokens limit outer (index + 1)
              else
                throw (.violationAt tokens index .mismatchedCloser)
  else
    match pending with
    | [] => .ok limit
    | (opener, _) :: _ => .error (.violationAt tokens opener .unclosedBracket)
termination_by limit - index

/-- The index, at most `limit`, of the token that ends the value which begins at `start`. -/
def valueExtent (tokens : Array Token) (start limit : Nat) : Except ParseError Nat :=
  valueExtentFrom tokens (min limit tokens.size) [] start

end TnslReader
