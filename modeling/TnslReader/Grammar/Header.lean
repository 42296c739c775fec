import TnslReader.Grammar.Extent
import TnslReader.Grammar.Statement

/-!
Contract: the headers of blocks.

A header reaches from its marker to the next line separator or block marker. It names its block at
most once: by a user word, by a control keyword, or by a keyword with an operand. Modifiers may come
with any name. It holds at most one list in round and one in square brackets. Behind a control
keyword the lists hold statements, and a bare value is the condition.
-/

set_option autoImplicit false

namespace TnslReader

open Reading (tokenAt)

/-- What has been found in a header up to some place. -/
structure HeaderState where
  /-- Whether a child names the block. -/
  named : Bool
  /-- Whether a child is a control keyword. -/
  control : Bool
  /-- Whether a child is a list in round brackets. -/
  hasRound : Bool
  /-- Whether a child is a list in square brackets. -/
  hasSquare : Bool
deriving DecidableEq, Repr

namespace HeaderState

def empty : HeaderState := ⟨false, false, false, false⟩

def withName (state : HeaderState) : HeaderState :=
  { state with named := true }

def withControl (state : HeaderState) : HeaderState :=
  { state with named := true, control := true }

def hasList (state : HeaderState) : Bracket → Bool
  | .round => state.hasRound
  | _ => state.hasSquare

def withList (state : HeaderState) : Bracket → HeaderState
  | .round => { state with hasRound := true }
  | _ => { state with hasSquare := true }

end HeaderState

structure HeaderChild (index : Nat) where
  node : Node
  state : HeaderState
  next : Nat
  lt_next : index < next

/-- Whether the word may stand in any header, however the block is named. -/
def Keyword.isModifier : Keyword → Bool
  | .exportWord | .inlineWord | .rawWord | .overrideWord => true
  | _ => false

def headerList (tokens : Array Token) (control : Bool) (bracket : Bracket)
    (opener close : Nat) : Reading Node :=
  if control then
    statementList tokens opener (opener + 1) close
  else if bracket = .round then
    parameterList tokens opener (opener + 1) close
  else
    typeList tokens opener (opener + 1) close

def tokenOfClass? (tokens : Array Token) (index : Nat) (tokenClass : TokenClass) :
    Option Token :=
  tokens[index]?.filter (·.tokenClass == tokenClass)

/-- The child that begins with the keyword at `index`, and may take the token behind it too. -/
def headerKeyword (tokens : Array Token) (state : HeaderState) (token : Token) (index : Nat) :
    Except ParseError (HeaderChild index) :=
  let alone (node : Node) (state : HeaderState) : HeaderChild index :=
    ⟨node, state, index + 1, Nat.lt_succ_self _⟩
  let joined (node : Node) (state : HeaderState) : HeaderChild index :=
    ⟨node, state, index + 2, Nat.lt_succ_of_lt (Nat.lt_succ_self _)⟩
  match token.keyword? with
  | none =>
      if state.named then .error (.violationAt tokens index .secondNameInHeader)
      else .error (.violationAt tokens index .keywordInHeader)
  | some keyword =>
      if keyword.isModifier then
        .ok (alone (.leaf .keyword token) state)
      else if state.named then
        .error (.violationAt tokens index .secondNameInHeader)
      else if keyword = .elseWord && tokens[index + 1]?.any (·.isKeyword .ifWord) then
        let merged := token.respelled .keyword Keyword.elifWord.spelling
        .ok (joined (.leaf .keyword merged) state.withControl)
      else if keyword.isControl then
        .ok (alone (.leaf .keyword token) state.withControl)
      else if keyword = .operatorWord then
        match tokenOfClass? tokens (index + 1) .operator with
        | some operator =>
            .ok (joined ⟨.keyword, token, [.leaf .operatorName operator]⟩ state.withName)
        | none => .error (.expected tokens (index + 1) .definedOperator)
      else if keyword = .moduleWord || keyword = .methodWord then
        match tokenOfClass? tokens (index + 1) .userWord with
        | some name => .ok (joined ⟨.keyword, token, [.leaf .identifier name]⟩ state.withName)
        | none => .error (.expected tokens (index + 1) (.nameAfter keyword))
      else
        .error (.violationAt tokens index .keywordInHeader)

/-- The children of a header from `index` on, where `state` says what has been found before them,
and the index of the token that ends the header. -/
def headerFrom (tokens : Array Token) (state : HeaderState) (index : Nat) :
    Reading (Advance (List Node) index) :=
  match present : tokens[index]? with
  | none => throw (.expected tokens index .codeEnd)
  | some token =>
      have inside : index < tokens.size := (Array.getElem?_eq_some_iff.mp present).1
      if token.endsStatement then
        return ⟨[], index, Nat.le_refl _⟩
      else
        match token.opens? with
        | some .round => listThen tokens state .round index inside
        | some .square => listThen tokens state .square index inside
        | _ =>
            if token.tokenClass == .userWord && !state.control then
              if state.named then
                throw (.violationAt tokens index .secondNameInHeader)
              else do
                let ⟨later, next, le_next⟩ ← headerFrom tokens state.withName (index + 1)
                return ⟨.leaf .identifier token :: later, next, Nat.le_of_succ_le le_next⟩
            else if token.tokenClass == .keyword then do
              let ⟨child, found, behind, index_lt_behind⟩ ←
                headerKeyword tokens state token index
              let ⟨later, next, le_next⟩ ← headerFrom tokens found behind
              return ⟨child :: later, next, Nat.le_trans (Nat.le_of_lt index_lt_behind) le_next⟩
            else if state.control then do
              let stop ← valueExtent tokens index tokens.size
              if advances : index < stop then
                let condition ← valueStatement tokens index stop
                let ⟨later, next, le_next⟩ ← headerFrom tokens state stop
                return ⟨condition :: later, next, Nat.le_trans (Nat.le_of_lt advances) le_next⟩
              else
                throw (.expected tokens stop .value)
            else
              throw (.violationAt tokens index .tokenInHeader)
termination_by 2 * (tokens.size - index)
where
  /-- The children of a header from the bracket at `index` on, which opens a list. -/
  listThen (tokens : Array Token) (state : HeaderState) (bracket : Bracket) (index : Nat)
      (_inside : index < tokens.size) : Reading (Advance (List Node) index) := do
    if state.hasList bracket then
      throw (.violationAt tokens index .secondListInHeader)
    else
      let ⟨close, index_lt_close, _⟩ ← closing tokens index tokens.size
      let list ← headerList tokens state.control bracket index close
      let ⟨later, next, le_next⟩ ← headerFrom tokens (state.withList bracket) (close + 1)
      return ⟨list :: later, next,
        Nat.le_trans (Nat.le_succ_of_le (Nat.le_of_lt index_lt_close)) le_next⟩
  termination_by 2 * (tokens.size - index) - 1

def header (tokens : Array Token) (anchor index : Nat) : Reading (Advance Node index) := do
  let marker ← tokenAt tokens anchor
  let ⟨children, next, le_next⟩ ← headerFrom tokens .empty index
  return ⟨.tagged .header marker children, next, le_next⟩

end TnslReader
