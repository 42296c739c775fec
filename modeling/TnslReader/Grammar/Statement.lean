import TnslReader.Grammar.Value
import TnslReader.Token.Literal

/-!
Contract: statements, read from ranges of a token stream, and the lists of a block's header.

A statement is a definition, if a type with a user word right behind it begins the range; else it is
a bare value; and a range that begins with a keyword other than a qualifier is a statement of that
keyword.

Owns: definitions, value statements, keyword statements, and lists of parameters and of statements.
Does not own: where a statement ends in the token stream.
-/

set_option autoImplicit false

namespace TnslReader

open Reading (tokenAt)

/-- Whether a type is read at `low` and a user word stands right behind it, before `high`. -/
def isDefinitionAt (tokens : Array Token) (low high : Nat) : Reading Bool :=
  (typeAt tokens false low high).succeeds fun ⟨_, next, _⟩ => do
    if next < high then
      let name ← tokenAt tokens next
      return name.tokenClass == .userWord
    else
      return false

def Token.isQualifierWord (token : Token) : Bool :=
  token.keyword?.any (·.isQualifier)

/-- Whether an item of a definition is a name, or a name to which a value is assigned. -/
def Node.isDefinedName (item : Node) : Bool :=
  match item.kind with
  | .identifier => true
  | .binary =>
      item.token.isOperator .assign && item.children.head?.any (·.kind == .identifier)
  | _ => false

/-- The definition that spans a range: a type, and then names with or without values. -/
def definition (tokens : Array Token) (low high : Nat) : Reading Node := do
  let ⟨type, next, _⟩ ← typeAt tokens false low high
  let names ← valueList tokens next next high
  match names.children.find? (!·.isDefinedName) with
  | some item => throw (.violation (.expected .definedName) item.token)
  | none =>
      let anchor ← tokenAt tokens low
      return .tagged .definition anchor [type, names]

def valueStatement (tokens : Array Token) (low high : Nat) : Reading Node := do
  let anchor ← tokenAt tokens low
  let node ← value tokens low high
  return .tagged .valueStatement anchor [node]

/-- The definition or value statement that spans a range. A range that begins with a qualifier and
is no definition fails as a type or for want of a name, never as a value. -/
def simpleStatement (tokens : Array Token) (low high : Nat) : Reading Node := do
  if ← isDefinitionAt tokens low high then
    definition tokens low high
  else
    let first ← tokenAt tokens low
    if first.isQualifierWord then
      let ⟨_, next, _⟩ ← typeAt tokens false low high
      throw (.expected tokens next .nameAfterType)
    else
      valueStatement tokens low high

/-- The parameter that spans a part of a list: a user word alone, which has the type of the
parameter before it, or a type and a user word. `typed` says whether a type came before. -/
def parameter (tokens : Array Token) (typed : Bool) (start stop : Nat) : Reading (List Node) := do
  if start = stop then
    throw (.expected tokens stop .parameter)
  else
    let first ← tokenAt tokens start
    if start + 1 = stop && first.tokenClass == .userWord then
      if typed then
        return [.leaf .identifier first]
      else
        throw (.violationAt tokens start (.expected .firstParameterType))
    else
      let ⟨type, next, _⟩ ← typeAt tokens true start stop
      if next < stop then
        let name ← tokenAt tokens next
        if next + 1 = stop && name.tokenClass == .userWord then
          return [type, .leaf .identifier name]
        else
          throw (.violationAt tokens next (.expected .parameterName))
      else
        throw (.expected tokens next .parameterName)

def parameters {low high : Nat} (tokens : Array Token) (typed : Bool) :
    List (Part low high) → Reading (List Node)
  | [] => return []
  | part :: later => do
      let here ← parameter tokens typed part.start part.stop
      let others ← parameters tokens true later
      return here ++ others

def parameterList (tokens : Array Token) (opener low high : Nat) : Reading Node := do
  let anchor ← tokenAt tokens opener
  let items ← parts tokens Token.isComma low high
  let children ← parameters tokens false items
  return .tagged .parameterList anchor children

def Token.separatesStatements (token : Token) : Bool :=
  token.isComma || token.isLineSeparator ';'

/-- The definitions and value statements of a range, with commas or semicolons between them. Empty
ones are left out. -/
def statementList (tokens : Array Token) (opener low high : Nat) : Reading Node := do
  let anchor ← tokenAt tokens opener
  let items ← parts tokens Token.separatesStatements low high
  let statements ← (items.filter fun part => part.start != part.stop).mapM fun part =>
    simpleStatement tokens part.start part.stop
  return .tagged .statementList anchor statements

def endOfStatement (tokens : Array Token) (index high : Nat) : Except ParseError Unit := do
  if index < high then
    let token ← tokenAt tokens index
    if token.isCloser then
      throw (.violationAt tokens index .unexpectedCloser)
    else
      throw (.violationAt tokens index (.expected .endOfStatement))

def nameAt (tokens : Array Token) (index high : Nat) (expectation : Expectation) :
    Except ParseError Node := do
  if index < high then
    let token ← tokenAt tokens index
    if token.tokenClass == .userWord then
      return .leaf .identifier token
    else
      throw (.expected tokens index expectation)
  else
    throw (.expected tokens index expectation)

def opensAt (tokens : Array Token) (bracket : Bracket) (index high : Nat) :
    Except ParseError Bool := do
  if index < high then
    let token ← tokenAt tokens index
    return token.opens? == some bracket
  else
    return false

/-- What is left of a struct from the token `struct` at `index` on: a name, its super types in
round brackets if there are any, and its members in curly brackets. -/
def structFrom (tokens : Array Token) (modifiers : List Node) (index high : Nat) :
    Reading Node := do
  let keyword ← tokenAt tokens index
  let name ← nameAt tokens (index + 1) high .structName
  let (superTypes, brace) ←
    if ← opensAt tokens .round (index + 2) high then
      let ⟨close, _⟩ ← closing tokens (index + 2) high
      let list ← valueList tokens (index + 2) (index + 3) close
      pure ([list], close + 1)
    else
      pure ([], index + 2)
  if ← opensAt tokens .curly brace high then
    let ⟨close, _⟩ ← closing tokens brace high
    let members ← parameterList tokens brace (brace + 1) close
    endOfStatement tokens (close + 1) high
    return ⟨.structStatement, keyword, modifiers ++ name :: superTypes ++ [members]⟩
  else
    throw (.expected tokens brace .memberList)

/-- `raw struct` and what follows it; `raw` must not stand alone. -/
def rawStruct (tokens : Array Token) (low high : Nat) : Reading Node := do
  let raw ← tokenAt tokens low
  if low + 1 < high then
    let second ← tokenAt tokens (low + 1)
    if second.isKeyword .structWord then
      structFrom tokens [.leaf .keyword raw] (low + 1) high
    else
      throw (.violationAt tokens low .rawWithoutStruct)
  else
    throw (.violationAt tokens low .rawWithoutStruct)

/-- An enum: a name, its base type in square brackets if there is one, and its values in curly
brackets. -/
def enumStatement (tokens : Array Token) (low high : Nat) : Reading Node := do
  let keyword ← tokenAt tokens low
  let name ← nameAt tokens (low + 1) high .enumName
  let (base, brace) ←
    if ← opensAt tokens .square (low + 2) high then
      let ⟨close, _⟩ ← closing tokens (low + 2) high
      let ⟨type, next, _⟩ ← typeAt tokens false (low + 3) close
      if next = close then
        pure ([type], close + 1)
      else
        throw (.violationAt tokens next .tokenInEnumType)
    else
      pure ([], low + 2)
  if ← opensAt tokens .curly brace high then
    let ⟨close, _⟩ ← closing tokens brace high
    let values ← valueList tokens brace (brace + 1) close
    endOfStatement tokens (close + 1) high
    return ⟨.enumStatement, keyword, name :: base ++ [values]⟩
  else
    throw (.expected tokens brace .enumValues)

def labelStatement (tokens : Array Token) (kind : NodeKind) (low high : Nat) : Reading Node := do
  let keyword ← tokenAt tokens low
  let name ← nameAt tokens (low + 1) high .labelName
  endOfStatement tokens (low + 2) high
  return ⟨kind, keyword, [name]⟩

/-- A statement that leaves or repeats loops, with the number of loops if it is given in digits. -/
def loopStatement (tokens : Array Token) (kind : NodeKind) (low high : Nat) : Reading Node := do
  let keyword ← tokenAt tokens low
  if low + 1 < high then
    let count ← tokenAt tokens (low + 1)
    if count.tokenClass == .literal && count.text.toList.all Literal.isDigit then
      endOfStatement tokens (low + 2) high
      return ⟨kind, keyword, [.leaf .literal count]⟩
    else
      throw (.expected tokens (low + 1) .loopCount)
  else
    return .leaf kind keyword

def returnStatement (tokens : Array Token) (low high : Nat) : Reading Node := do
  let keyword ← tokenAt tokens low
  if low + 1 < high then
    let node ← value tokens (low + 1) high
    return ⟨.returnStatement, keyword, [node]⟩
  else
    return .leaf .returnStatement keyword

def memoryStatement (tokens : Array Token) (kind : NodeKind) (low high : Nat) :
    Reading Node := do
  if low + 1 < high then
    let values ← valueList tokens (low + 1) (low + 1) high
    let keyword ← tokenAt tokens low
    return ⟨kind, keyword, [values]⟩
  else
    throw (.expected tokens high .value)

def quotedTexts (tokens : Array Token) (index high : Nat) : Except ParseError (List Node) :=
  if _inside : index < high then do
    let token ← tokenAt tokens index
    if token.isQuotedText then
      let later ← quotedTexts tokens (index + 1) high
      return .leaf .literal token :: later
    else
      throw (.expected tokens index .asmText)
  else
    return []
termination_by high - index

def asmStatement (tokens : Array Token) (low high : Nat) : Reading Node := do
  let keyword ← tokenAt tokens low
  let texts ← quotedTexts tokens (low + 1) high
  if texts.isEmpty then
    throw (.expected tokens high .asmText)
  else
    return ⟨.asmStatement, keyword, texts⟩

def keywordStatement (tokens : Array Token) (keyword? : Option Keyword) (low high : Nat) :
    Reading Node :=
  match keyword? with
  | some .structWord => structFrom tokens [] low high
  | some .rawWord => rawStruct tokens low high
  | some .enumWord => enumStatement tokens low high
  | some .gotoWord => labelStatement tokens .gotoStatement low high
  | some .labelWord => labelStatement tokens .labelStatement low high
  | some .breakWord => loopStatement tokens .breakStatement low high
  | some .continueWord => loopStatement tokens .continueStatement low high
  | some .returnWord => returnStatement tokens low high
  | some .allocWord => memoryStatement tokens .allocStatement low high
  | some .sallocWord => memoryStatement tokens .sallocStatement low high
  | some .reallocWord => memoryStatement tokens .reallocStatement low high
  | some .deleteWord => memoryStatement tokens .deleteStatement low high
  | some .asmWord => asmStatement tokens low high
  | _ => throw (.violationAt tokens low .keywordInStatement)

def statement (tokens : Array Token) (low high : Nat) : Reading Node := do
  let first ← tokenAt tokens low
  if first.tokenClass == .keyword && !first.isQualifierWord then
    keywordStatement tokens first.keyword? low high
  else
    simpleStatement tokens low high

end TnslReader
