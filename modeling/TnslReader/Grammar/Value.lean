import TnslReader.Grammar.Bracketing
import TnslReader.Grammar.Split
import TnslReader.Tree.Node

/-!
Contract: values and types, read from ranges of a token stream.

A value is cut at its loosest operators, and the operands in between fold from the left. Without
such an operator it is a composite in curly brackets, or a primary with operators before it and
operators, calls, indexes and casts after it. A type is a run of qualifiers, then pointer and array
marks, then a base name with its arguments.

Values hold types, in casts and behind `is`, and types hold values, the lengths of arrays, so the
two are read together. Every step of the recursion works on a shorter range, or on the same range
at a later stage, which is why it ends.

Owns: values, types, lists of values and lists of types.
Does not own: statements, and where in a file a value or type stands.
-/

set_option autoImplicit false

namespace TnslReader

structure Advance (α : Type) (index : Nat) where
  result : α
  next : Nat
  le_next : index ≤ next

/-- The base name of a type: the words before its last dot, its last word, and the index behind. -/
structure BaseName (index : Nat) where
  path : List Node
  name : Token
  next : Nat
  lt_next : index < next

/-- The first index from `index` on, at most `high`, at which no operator stands that may come
before an operand. -/
def operandStart (tokens : Array Token) (index high : Nat) (bound : index ≤ high) :
    Except ParseError { start : Nat // index ≤ start ∧ start ≤ high } :=
  if inside : index < high then do
    let token ← Reading.tokenAt tokens index
    if token.mayPrecedeOperand then
      let ⟨start, index_lt_start, start_le_high⟩ ← operandStart tokens (index + 1) high inside
      return ⟨start, Nat.le_of_succ_le index_lt_start, start_le_high⟩
    else
      return ⟨index, Nat.le_refl _, bound⟩
  else
    return ⟨index, Nat.le_refl _, bound⟩
termination_by high - index

/-- The qualifiers of a type. A parameter must not be `static`. -/
def qualifiers (tokens : Array Token) (inParameter : Bool) (index high : Nat) :
    Except ParseError (Advance (List Node) index) :=
  if _inside : index < high then do
    let token ← Reading.tokenAt tokens index
    if inParameter && token.keyword? == some .staticWord then
      throw (.violationAt tokens index .staticParameter)
    else if token.tokenClass == .keyword && token.keyword?.any (·.isQualifier) then
      let ⟨later, next, le_next⟩ ← qualifiers tokens inParameter (index + 1) high
      return ⟨.leaf .qualifier token :: later, next, Nat.le_of_succ_le le_next⟩
    else
      return ⟨[], index, Nat.le_refl _⟩
  else
    return ⟨[], index, Nat.le_refl _⟩
termination_by high - index

/-- A name of user words with dots between them, which takes as many words as there are. -/
def dottedName (tokens : Array Token) (index high : Nat) :
    Except ParseError (BaseName index) := do
  let word ← Reading.tokenAt tokens index
  if _inside : index + 2 < high then
    let dot ← Reading.tokenAt tokens (index + 1)
    if dot.isOperator .dot then
      let second ← Reading.tokenAt tokens (index + 2)
      if second.tokenClass == .userWord then
        let ⟨path, name, next, lt_next⟩ ← dottedName tokens (index + 2) high
        return ⟨.leaf .pathSegment word :: path, name, next,
          Nat.lt_trans (Nat.lt_succ_of_lt (Nat.lt_succ_self index)) lt_next⟩
      else
        return ⟨[], word, index + 1, Nat.lt_succ_self _⟩
    else
      return ⟨[], word, index + 1, Nat.lt_succ_self _⟩
  else
    return ⟨[], word, index + 1, Nat.lt_succ_self _⟩
termination_by high - index

def baseName (tokens : Array Token) (index high : Nat) (base : Token) :
    Except ParseError (BaseName index) :=
  match base.tokenClass with
  | .builtinType => .ok ⟨[], base, index + 1, Nat.lt_succ_self _⟩
  | .userWord => dottedName tokens index high
  | .keyword => .error (.violationAt tokens index .keywordInType)
  | .delimiter => .error (.violationAt tokens index .delimiterInType)
  | _ => .error (.violationAt tokens index .tokenInType)

def backReference (tokens : Array Token) (inParameter : Bool) (index high : Nat) :
    Except ParseError (Advance (List Node) index) := do
  if inParameter && index < high then
    let token ← Reading.tokenAt tokens index
    if token.isOperator .backtick then
      return ⟨[.leaf .backReference token], index + 1, Nat.le_succ _⟩
    else
      return ⟨[], index, Nat.le_refl _⟩
  else
    return ⟨[], index, Nat.le_refl _⟩

mutual

/-- The value that spans a range. It takes one level, and each operator of the chain that it is cut
at counts as chained. -/
def value (tokens : Array Token) (low high : Nat) : Reading Node :=
  if nonempty : low < high then
    Reading.nested tokens low do
      let points ← splitPoints tokens low high
      match points with
      | [] => unary tokens low high (Nat.le_of_lt nonempty)
      | first :: later =>
          Reading.chained tokens first.index (later.length + 1) do
            have := first.index_lt_high
            let leftmost ← value tokens low first.index
            (links (first :: later)).foldlM (fun left link => do
              have := link.extent_lt nonempty
              let right ← rightOperand tokens link.operator link.stop
              let token ← Reading.tokenAt tokens link.operator
              return ⟨.binary, token, [left, right]⟩) leftmost
  else
    throw (.expected tokens high .value)
termination_by 16 * (high - low) + 7

/-- The operand to the right of an operator, a value or, behind `is`, a type. -/
def rightOperand (tokens : Array Token) (operator stop : Nat) : Reading Node := do
  let token ← Reading.tokenAt tokens operator
  if token.isOperator .isWord then
    let ⟨type, next, _⟩ ← typeAt tokens false (operator + 1) stop
    if next = stop then
      return type
    else
      throw (.violationAt tokens next .tokenAfterType)
  else
    value tokens (operator + 1) stop
termination_by 16 * (stop - operator) + 8

def unary (tokens : Array Token) (low high : Nat) (bound : low ≤ high) : Reading Node := do
  let ⟨start, low_le_start, start_le_high⟩ ← operandStart tokens low high bound
  if start < high && (tokens[start]?.bind Token.opens?) == some .curly then
    composite tokens low start high low_le_start
  else
    preceded tokens low start high low_le_start start_le_high
termination_by 16 * (high - low) + 6

/-- Values in curly brackets from `brace` on, which must fill the range and take no operators. -/
def composite (tokens : Array Token) (low brace high : Nat) (_low_le_brace : low ≤ brace) :
    Reading Node := do
  if low = brace then
    let ⟨close, brace_lt_close, close_lt_high⟩ ← closing tokens brace high
    if close + 1 = high then
      let anchor ← Reading.tokenAt tokens brace
      let items ← parts tokens Token.isComma (brace + 1) close
      let values ← items.mapM fun part =>
        have := part.extent_le
        value tokens part.start part.stop
      return .tagged .composite anchor values
    else
      throw (.violationAt tokens (close + 1) .tokenAfterComposite)
  else
    throw (.violationAt tokens low .operatorOnComposite)
termination_by 16 * (high - low) + 5

/-- The operators from `low` up to `start`, applied to what begins at `start`. Each operator takes
one level. -/
def preceded (tokens : Array Token) (low start high : Nat) (_low_le_start : low ≤ start)
    (start_le_high : start ≤ high) : Reading Node :=
  if another : low < start then
    Reading.nested tokens low do
      let operand ← preceded tokens (low + 1) start high another start_le_high
      let token ← Reading.tokenAt tokens low
      return ⟨.precedingOperator, token, [operand]⟩
  else do
    let ⟨node, next, _⟩ ← primary tokens start high
    followed tokens node next high
termination_by 16 * (high - low) + 4

def primary (tokens : Array Token) (index high : Nat) : Reading (Advance Node index) :=
  if _inside : index < high then
    match tokens[index]? with
    | none => throw (.expected tokens index .value)
    | some token =>
        match token.tokenClass with
        | .literal => return ⟨.leaf .literal token, index + 1, Nat.le_succ _⟩
        | .userWord => return ⟨.leaf .identifier token, index + 1, Nat.le_succ _⟩
        | .builtinType => return ⟨.leaf .typeName token, index + 1, Nat.le_succ _⟩
        | .keyword => throw (.violationAt tokens index .keywordInValue)
        | _ =>
            if token.opens? == some .round then do
              let ⟨close, index_lt_close, _close_lt_high⟩ ← closing tokens index high
              let node ← value tokens (index + 1) close
              return ⟨node, close + 1, Nat.le_succ_of_le (Nat.le_of_lt index_lt_close)⟩
            else if token.isCloser then
              throw (.violationAt tokens index .unexpectedCloser)
            else
              throw (.expected tokens index .value)
  else
    throw (.expected tokens index .value)
termination_by 16 * (high - index) + 3

/-- The node, and what comes after it from `index` on: calls, indexes, casts and operators, each of
which takes one level. -/
def followed (tokens : Array Token) (node : Node) (index high : Nat) : Reading Node :=
  if _inside : index < high then do
    let token ← Reading.tokenAt tokens index
    if token.isCloser then
      throw (.violationAt tokens index .unexpectedCloser)
    else
      Reading.nested tokens index do
        match token.opens? with
        | some .round =>
            let ⟨close, index_lt_close, close_lt_high⟩ ← closing tokens index high
            let arguments ← valueList tokens index (index + 1) close
            followed tokens (.tagged .call token [node, arguments]) (close + 1) high
        | some .curly =>
            let ⟨close, index_lt_close, close_lt_high⟩ ← closing tokens index high
            let position ← value tokens (index + 1) close
            followed tokens (.tagged .index token [node, position]) (close + 1) high
        | some .square =>
            let ⟨close, index_lt_close, close_lt_high⟩ ← closing tokens index high
            let types ← typeList tokens index (index + 1) close
            followed tokens (.tagged .cast token [node, types]) (close + 1) high
        | none =>
            if token.mayFollowOperand then
              followed tokens ⟨.followingOperator, token, [node]⟩ (index + 1) high
            else
              throw (.violationAt tokens index .tokenInValue)
  else
    return node
termination_by 16 * (high - index) + 2

def valueList (tokens : Array Token) (opener low high : Nat) : Reading Node := do
  let anchor ← Reading.tokenAt tokens opener
  let items ← parts tokens Token.isComma low high
  let values ← items.mapM fun part =>
    have := part.extent_le
    value tokens part.start part.stop
  return .tagged .valueList anchor values
termination_by 16 * (high - low) + 8

def typeList (tokens : Array Token) (opener low high : Nat) : Reading Node := do
  let anchor ← Reading.tokenAt tokens opener
  let items ← parts tokens Token.isComma low high
  let types ← items.mapM fun part => do
    have := part.extent_le
    let ⟨type, next, _⟩ ← typeAt tokens false part.start part.stop
    if next = part.stop then
      return type
    else
      throw (.violationAt tokens next .tokenInTypeList)
  return .tagged .typeList anchor types
termination_by 16 * (high - low) + 8

/-- The type that begins at `low`, as far as it reaches before `high`. It takes one level. A
parameter may be passed by reference, and must not be `static`. -/
def typeAt (tokens : Array Token) (inParameter : Bool) (low high : Nat) :
    Reading (Advance Node low) :=
  if _inside : low < high then
    match tokens[low]? with
    | none => throw (.expected tokens low .type)
    | some first =>
        Reading.nested tokens low do
          let ⟨qualifying, afterQualifiers, le_afterQualifiers⟩ ←
            qualifiers tokens inParameter low high
          let ⟨marks, baseIndex, le_baseIndex⟩ ← typeMarks tokens afterQualifiers high
          if baseIndex < high then
            match tokens[baseIndex]? with
            | none => throw (.expected tokens baseIndex .baseType)
            | some base =>
                let ⟨path, name, afterName, lt_afterName⟩ ← baseName tokens baseIndex high base
                let ⟨arguments, afterArguments, le_afterArguments⟩ ←
                  typeArguments tokens base afterName high
                let ⟨reference, next, le_next⟩ ←
                  backReference tokens inParameter afterArguments high
                return ⟨.tagged .type first
                  (qualifying ++ marks ++ path ++ ⟨.typeName, name, arguments⟩ :: reference),
                  next,
                  Nat.le_trans le_afterQualifiers (Nat.le_trans le_baseIndex
                    (Nat.le_trans (Nat.le_of_lt lt_afterName)
                      (Nat.le_trans le_afterArguments le_next)))⟩
          else
            throw (.expected tokens baseIndex .baseType)
  else
    throw (.expected tokens low .type)
termination_by 16 * (high - low) + 7

def typeMarks (tokens : Array Token) (index high : Nat) : Reading (Advance (List Node) index) :=
  if _inside : index < high then do
    let token ← Reading.tokenAt tokens index
    if token.isOperator .tilde then
      let ⟨later, next, le_next⟩ ← typeMarks tokens (index + 1) high
      return ⟨.leaf .pointer token :: later, next, Nat.le_of_succ_le le_next⟩
    else if token.opens? == some .curly then
      let ⟨close, index_lt_close, _close_lt_high⟩ ← closing tokens index high
      let length ←
        if index + 1 < close then do
          let length ← value tokens (index + 1) close
          pure [length]
        else
          pure []
      let ⟨later, next, le_next⟩ ← typeMarks tokens (close + 1) high
      return ⟨.tagged .array token length :: later, next,
        Nat.le_trans (Nat.le_succ_of_le (Nat.le_of_lt index_lt_close)) le_next⟩
    else
      return ⟨[], index, Nat.le_refl _⟩
  else
    return ⟨[], index, Nat.le_refl _⟩
termination_by 16 * (high - index) + 6

/-- The arguments of a base name: types in round brackets and, where the base is `void`, result
types in square brackets behind them. -/
def typeArguments (tokens : Array Token) (base : Token) (index high : Nat) :
    Reading (Advance (List Node) index) :=
  if _inside : index < high then do
    let token ← Reading.tokenAt tokens index
    if token.opens? == some .round then
      let ⟨close, index_lt_close, _close_lt_high⟩ ← closing tokens index high
      let types ← typeList tokens index (index + 1) close
      if _another : close + 1 < high then
        let second ← Reading.tokenAt tokens (close + 1)
        if base.tokenClass == .builtinType && base.keyword? == some .voidWord &&
            second.opens? == some .square then
          let ⟨secondClose, close_lt_secondClose, _secondClose_lt_high⟩ ←
            closing tokens (close + 1) high
          let results ← typeList tokens (close + 1) (close + 2) secondClose
          return ⟨[types, results], secondClose + 1,
            Nat.le_succ_of_le (Nat.le_of_lt (Nat.lt_trans
              (Nat.lt_succ_of_lt index_lt_close) close_lt_secondClose))⟩
        else
          return ⟨[types], close + 1, Nat.le_succ_of_le (Nat.le_of_lt index_lt_close)⟩
      else
        return ⟨[types], close + 1, Nat.le_succ_of_le (Nat.le_of_lt index_lt_close)⟩
    else
      return ⟨[], index, Nat.le_refl _⟩
  else
    return ⟨[], index, Nat.le_refl _⟩
termination_by 16 * (high - index) + 6

end

end TnslReader
