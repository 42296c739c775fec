import TnslReader.Grammar.Header

/-!
Contract: items, directives and chains of sections, read with a cursor.

An item is a chain of sections, a directive, or a statement. A chain begins at a marker that opens a
section and ends at one that closes one; a marker that does both ends one section and begins the
next. The chain's node is that of its first section, and every later section is its child.

Every reading here says in its type that it moves the cursor forward, or at least not back, which is
why loops over items end.
-/

set_option autoImplicit false

namespace TnslReader

open Reading (tokenAt)

/-- The first index from `index` on before whose token a statement ends, or the number of tokens. -/
def statementEnd (tokens : Array Token) (index : Nat) : Nat :=
  if inside : index < tokens.size then
    if tokens[index].endsStatement then index else statementEnd tokens (index + 1)
  else
    max index tokens.size
termination_by tokens.size - index

theorem le_statementEnd (tokens : Array Token) (index : Nat) :
    index ≤ statementEnd tokens index := by
  fun_induction statementEnd tokens index with
  | case1 => exact Nat.le_refl _
  | case2 _ _ _ inductionHypothesis => omega
  | case3 => exact Nat.le_max_left ..

def statementItem (tokens : Array Token) (index : Nat) :
    Reading (Advance (Option Node) index) := do
  let stop := statementEnd tokens index
  if stop = index then
    return ⟨none, index, Nat.le_refl _⟩
  else
    let node ← statement tokens index stop
    return ⟨some node, stop, le_statementEnd tokens index⟩

/-- The arguments of a directive: all tokens up to a line separator, a block marker or another
directive word. -/
def arguments (tokens : Array Token) (index : Nat) : Advance (List Node) index :=
  if inside : index < tokens.size then
    let token := tokens[index]
    if token.endsStatement || token.tokenClass == .directiveWord then
      ⟨[], index, Nat.le_refl _⟩
    else
      let later := arguments tokens (index + 1)
      ⟨.leaf .argument token :: later.result, later.next, Nat.le_of_succ_le later.le_next⟩
  else
    ⟨[], index, Nat.le_refl _⟩
termination_by tokens.size - index

def directive (tokens : Array Token) (index : Nat) : Except ParseError (Advance Node (index + 1)) :=
  match tokenOfClass? tokens index .directiveWord with
  | none => .error (.expected tokens index .directiveAfterColon)
  | some word =>
      let ⟨found, next, le_next⟩ := arguments tokens (index + 1)
      .ok ⟨⟨.directive, word, found⟩, next, le_next⟩

/-- The directives of a preprocessor section from `index` on, up to the marker that ends it. Each
may have a colon before it. -/
def directivesFrom (tokens : Array Token) (index : Nat) :
    Except ParseError (Advance (List Node) index) :=
  if _inside : index < tokens.size then do
    let token := tokens[index]
    if token.endsSection then
      return ⟨[], index, Nat.le_refl _⟩
    else if token.isLineSeparator ':' then
      let ⟨nodes, next, le_next⟩ ← directivesFrom tokens (index + 1)
      return ⟨nodes, next, Nat.le_of_succ_le le_next⟩
    else if token.tokenClass == .directiveWord then
      let ⟨node, behind, index_lt_behind⟩ ← directive tokens index
      let ⟨nodes, next, le_next⟩ ← directivesFrom tokens behind
      return ⟨node :: nodes, next, Nat.le_trans (Nat.le_of_succ_le index_lt_behind) le_next⟩
    else
      throw (.violationAt tokens index (.expected .directive))
  else
    throw (.expected tokens index .directivesEnd)
termination_by tokens.size - index

def preprocessorSection (tokens : Array Token) (anchor index : Nat) :
    Except ParseError (Advance Node index) := do
  let marker ← tokenAt tokens anchor
  let ⟨nodes, next, le_next⟩ ← directivesFrom tokens index
  return ⟨.tagged .directives marker nodes, next, le_next⟩

def Section.endExpectation : Section → Expectation
  | .preprocessor => .preprocessorEnd
  | _ => .codeEnd

mutual

/-- The item at `index`, which may be an empty statement. Any token that begins no item is the given
violation. -/
def item (tokens : Array Token) (stray : Violation) (index : Nat) :
    Reading (Advance (Option Node) (index + 1)) :=
  if _inside : index < tokens.size then
    let token := tokens[index]
    match token.marker? with
    | some .openCode => do
        let ⟨node, next, le_next⟩ ← sectionChain tokens .code index
        return ⟨some node, next, le_next⟩
    | some .openPreprocessor => do
        let ⟨node, next, le_next⟩ ← sectionChain tokens .preprocessor index
        return ⟨some node, next, le_next⟩
    | _ =>
        if token.isLineSeparator ';' then
          statementItem tokens (index + 1)
        else if token.isLineSeparator ':' then do
          let ⟨node, next, le_next⟩ ← directive tokens (index + 1)
          return ⟨some node, next, Nat.le_of_succ_le le_next⟩
        else if token.isCloser then
          throw (.violationAt tokens index .unexpectedCloser)
        else
          throw (.violationAt tokens index stray)
  else
    throw (.expected tokens index .item)
termination_by 4 * (tokens.size - index) + 1

/-- The chain whose first section, of the given kind, begins behind the marker at `opener`. It takes
one level. -/
def sectionChain (tokens : Array Token) (kind : Section) (opener : Nat) :
    Reading (Advance Node (opener + 1)) :=
  if _inside : opener < tokens.size then
    Reading.nested tokens opener do
      let ⟨head, behind, le_behind⟩ ← sectionAt tokens kind opener (opener + 1)
      let ⟨later, next, le_next⟩ ← laterSections tokens kind behind
      return ⟨{ head with children := head.children ++ later }, next,
        Nat.le_trans le_behind le_next⟩
  else
    throw (.fault (.missingToken opener))
termination_by 4 * (tokens.size - opener)

/-- The rest of a chain whose last section, of the given kind, ends at `index`: its later sections,
and the marker that closes it. -/
def laterSections (tokens : Array Token) (kind : Section) (index : Nat) :
    Reading (Advance (List Node) index) :=
  if _inside : index < tokens.size then
    match tokens[index].marker? with
    | none => throw (.expected tokens index kind.endExpectation)
    | some marker =>
        if marker.closes? = some kind then
          match marker.opens? with
          | none => return ⟨[], index + 1, Nat.le_succ _⟩
          | some .comment => throw (.violationAt tokens index .commentMarker)
          | some opened => do
              let ⟨node, behind, le_behind⟩ ← sectionAt tokens opened index (index + 1)
              let ⟨later, next, le_next⟩ ← laterSections tokens opened behind
              return ⟨node :: later, next, Nat.le_trans (Nat.le_of_succ_le le_behind) le_next⟩
        else
          throw (.violationAt tokens index .wrongSectionEnd)
  else
    throw (.expected tokens index kind.endExpectation)
termination_by 4 * (tokens.size - index)

def sectionAt (tokens : Array Token) (kind : Section) (anchor index : Nat) :
    Reading (Advance Node index) := do
  match kind with
  | .preprocessor => preprocessorSection tokens anchor index
  | _ =>
      let marker ← tokenAt tokens anchor
      let ⟨heading, behind, le_behind⟩ ← header tokens anchor index
      let ⟨items, next, le_next⟩ ← bodyFrom tokens behind
      return ⟨.tagged .block marker (heading :: items), next, Nat.le_trans le_behind le_next⟩
termination_by 4 * (tokens.size - index) + 3

def bodyFrom (tokens : Array Token) (index : Nat) : Reading (Advance (List Node) index) :=
  if inside : index < tokens.size then
    if tokens[index].endsSection then
      return ⟨[], index, Nat.le_refl _⟩
    else do
      let ⟨node, behind, index_lt_behind⟩ ← item tokens .tokenInBody index
      let ⟨nodes, next, le_next⟩ ← bodyFrom tokens behind
      return ⟨node.toList ++ nodes, next,
        Nat.le_trans (Nat.le_of_succ_le index_lt_behind) le_next⟩
  else
    throw (.expected tokens index .codeEnd)
termination_by 4 * (tokens.size - index) + 2

end

def rootItemsFrom (tokens : Array Token) (index : Nat) : Reading (List Node) :=
  if _inside : index < tokens.size then do
    let ⟨node, behind, _⟩ ← item tokens .tokenInRoot index
    let nodes ← rootItemsFrom tokens behind
    return node.toList ++ nodes
  else
    return []
termination_by tokens.size - index

end TnslReader
