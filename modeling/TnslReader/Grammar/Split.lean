import TnslReader.Grammar.Reading

/-!
Contract: the operators that stand between the operands of a value.

An operator stands between operands if it has a binding order, lies outside all brackets of the
value, and comes right behind a token that can end an operand. The operators of the loosest order
among these cut the value into its operands.

Does not own: the operands themselves.
-/

set_option autoImplicit false

namespace TnslReader

structure Joint (low high : Nat) where
  index : Nat
  order : Nat
  low_lt_index : low < index
  index_lt_high : index < high
deriving Repr

structure Link (low high : Nat) where
  operator : Nat
  stop : Nat
  low_lt_operator : low < operator
  stop_le_high : stop ≤ high
deriving Repr

/-- What lies behind an operator up to the end of its operand is less than the whole range. -/
theorem Link.extent_lt {low high : Nat} (link : Link low high) (nonempty : low < high) :
    link.stop - link.operator < high - low := by
  have := link.low_lt_operator
  have := link.stop_le_high
  omega

/-- The operators between operands from `index` on. So many bracket pairs are open there as `depth`
says, and `behindOperand` says whether the token before can end an operand. -/
def jointsFrom (tokens : Array Token) (low high index depth : Nat) (behindOperand : Bool)
    (low_le_index : low ≤ index) (first : behindOperand = true → low < index) :
    Except ParseError (List (Joint low high)) :=
  if inside : index < high then do
    let token ← Reading.tokenAt tokens index
    if token.isOpener then
      jointsFrom tokens low high (index + 1) (depth + 1) token.endsOperand
        (Nat.le_succ_of_le low_le_index) fun _ => Nat.lt_succ_of_le low_le_index
    else if token.isCloser then
      match depth with
      | 0 => throw (.violationAt tokens index .unexpectedCloser)
      | depth + 1 =>
          jointsFrom tokens low high (index + 1) depth token.endsOperand
            (Nat.le_succ_of_le low_le_index) fun _ => Nat.lt_succ_of_le low_le_index
    else if between : depth = 0 ∧ behindOperand = true then
      match token.order? with
      | some order =>
          let later ← jointsFrom tokens low high (index + 1) depth token.endsOperand
            (Nat.le_succ_of_le low_le_index) fun _ => Nat.lt_succ_of_le low_le_index
          return ⟨index, order, first between.2, inside⟩ :: later
      | none =>
          jointsFrom tokens low high (index + 1) depth token.endsOperand
            (Nat.le_succ_of_le low_le_index) fun _ => Nat.lt_succ_of_le low_le_index
    else
      jointsFrom tokens low high (index + 1) depth token.endsOperand
        (Nat.le_succ_of_le low_le_index) fun _ => Nat.lt_succ_of_le low_le_index
  else
    return []
termination_by high - index

def loosestOrder {low high : Nat} (joints : List (Joint low high)) : Nat :=
  joints.foldl (fun loosest joint => max loosest joint.order) 0

/-- The operators of the loosest order in the value of a range, from left to right. -/
def splitPoints (tokens : Array Token) (low high : Nat) :
    Except ParseError (List (Joint low high)) := do
  let joints ← jointsFrom tokens low high low 0 false (Nat.le_refl _) (fun behind => nomatch behind)
  let loosest := loosestOrder joints
  return joints.filter (·.order == loosest)

/-- Each operator with the end of its right operand, which is the next operator or the end of the
range. -/
def links {low high : Nat} : List (Joint low high) → List (Link low high)
  | [] => []
  | [last] => [⟨last.index, high, last.low_lt_index, Nat.le_refl _⟩]
  | joint :: next :: later =>
      ⟨joint.index, next.index, joint.low_lt_index, Nat.le_of_lt next.index_lt_high⟩ ::
        links (next :: later)

end TnslReader
