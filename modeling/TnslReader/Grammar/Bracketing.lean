import TnslReader.Grammar.Reading

/-!
Contract: bracket pairs in a token stream.

Owns:
- `closing`, which finds the end of the pair that a token opens;
- `parts`, which cuts a range at the separators that stand outside all of its pairs.

Both work on ranges of indexes and say in their types that their answers lie within the range.
-/

set_option autoImplicit false

namespace TnslReader

/-- Looks for the end of the pair opened at `opener`, from `index` on and before `limit`. The pairs
still open are `brackets` around all those in `outer`, the innermost first. -/
def closingFrom (tokens : Array Token) (opener limit : Nat) (bracket : Bracket)
    (outer : List Bracket) (index : Nat) (behind : opener < index) :
    Except ParseError { close : Nat // opener < close ∧ close < limit } :=
  if inside : index < limit then
    match tokens[index]? with
    | none => .error (.violationAt tokens opener .unclosedBracket)
    | some token =>
        match token.opens? with
        | some inner =>
            closingFrom tokens opener limit inner (bracket :: outer) (index + 1)
              (Nat.lt_succ_of_lt behind)
        | none =>
            match token.closes? with
            | none =>
                closingFrom tokens opener limit bracket outer (index + 1)
                  (Nat.lt_succ_of_lt behind)
            | some closed =>
                if closed = bracket then
                  match outer with
                  | [] => .ok ⟨index, behind, inside⟩
                  | next :: rest =>
                      closingFrom tokens opener limit next rest (index + 1)
                        (Nat.lt_succ_of_lt behind)
                else
                  .error (.violationAt tokens index .mismatchedCloser)
  else
    .error (.violationAt tokens opener .unclosedBracket)
termination_by limit - index

/-- The index before `limit` at which the pair opened at `opener` ends. All pairs between the two
must be properly nested. -/
def closing (tokens : Array Token) (opener limit : Nat) :
    Except ParseError { close : Nat // opener < close ∧ close < limit } :=
  match tokens[opener]?.bind Token.opens? with
  | none => .error (.fault (.notAnOpener opener))
  | some bracket =>
      closingFrom tokens opener limit bracket [] (opener + 1) (Nat.lt_succ_self opener)

structure Part (low high : Nat) where
  start : Nat
  stop : Nat
  low_le_start : low ≤ start
  start_le_stop : start ≤ stop
  stop_le_high : stop ≤ high
deriving Repr

/-- A part is no longer than the range. -/
theorem Part.extent_le {low high : Nat} (part : Part low high) :
    part.stop - part.start ≤ high - low := by
  have := part.low_le_start
  have := part.stop_le_high
  omega

/-- Cuts the range from `start` to `high` at the separators from `index` on. -/
def partsFrom (tokens : Array Token) (isSeparator : Token → Bool) (low high start index : Nat)
    (low_le_start : low ≤ start) (start_le_index : start ≤ index) (index_le_high : index ≤ high) :
    Except ParseError (List (Part low high)) :=
  if inside : index < high then do
    let token ← Reading.tokenAt tokens index
    if token.isOpener then
      let ⟨close, index_lt_close, close_lt_high⟩ ← closing tokens index high
      partsFrom tokens isSeparator low high start (close + 1) low_le_start
        (Nat.le_succ_of_le (Nat.le_trans start_le_index (Nat.le_of_lt index_lt_close)))
        close_lt_high
    else if token.isCloser then
      throw (.violationAt tokens index .unexpectedCloser)
    else if isSeparator token then
      let later ← partsFrom tokens isSeparator low high (index + 1) (index + 1)
        (Nat.le_succ_of_le (Nat.le_trans low_le_start start_le_index)) (Nat.le_refl _) inside
      return ⟨start, index, low_le_start, start_le_index, index_le_high⟩ :: later
    else
      partsFrom tokens isSeparator low high start (index + 1) low_le_start
        (Nat.le_succ_of_le start_le_index) inside
  else
    return [⟨start, high, low_le_start, Nat.le_trans start_le_index index_le_high, Nat.le_refl _⟩]
termination_by high - index

/-- The parts of a range between the separators outside its bracket pairs. An empty range has no
parts; any other has one part more than separators, and parts may be empty. -/
def parts (tokens : Array Token) (isSeparator : Token → Bool) (low high : Nat) :
    Except ParseError (List (Part low high)) :=
  if nonempty : low < high then
    partsFrom tokens isSeparator low high low low (Nat.le_refl _) (Nat.le_refl _)
      (Nat.le_of_lt nonempty)
  else
    .ok []

end TnslReader
