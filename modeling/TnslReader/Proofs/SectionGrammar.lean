import TnslReader.Grammar.Section
import TnslReader.Proofs.StatementGrammar

/-!
Contract: the grammar of files, from the headers of blocks to the items of a whole file.

A file is a row of items. An item is an empty or a full statement behind a semicolon, a directive
behind a colon, or a chain of sections, which begins at a marker that only opens a section, goes on
at markers that close one section and open the next, and ends at one that only closes. The node of a
chain is that of its first section, with the later ones as its last children.

A header is read from left to right with a state that says what has been found, and its grammar has
the same state as an index.

Owns: headers, directives, sections and items.
-/

set_option autoImplicit false

namespace TnslReader

/-- `HeaderListText depth chain control bracket text opener node`: what a list in a header holds,
which goes by its bracket and by whether the header has a control keyword. -/
inductive HeaderListText (depth chain : Nat) :
    Bool → Bracket → List Token → Token → Node → Prop where
  | statements {opener : Token} {bracket : Bracket} {text : List Token} {nodes : List Node}
      (listed : StatementsText depth chain text nodes) :
      HeaderListText depth chain true bracket text opener (.tagged .statementList opener nodes)
  | parameters {opener : Token} {text : List Token} {nodes : List Node}
      (listed : ParameterListText depth chain text nodes) :
      HeaderListText depth chain false .round text opener (.tagged .parameterList opener nodes)
  | types {opener : Token} {text : List Token} {nodes : List Node}
      (listed : TypesText depth chain text nodes) :
      HeaderListText depth chain false .square text opener (.tagged .typeList opener nodes)

/-- `HeaderWordText state text rest node next`: a keyword of a header, with the token behind it where
it takes one, between what was found before and what comes behind. An `else` with an `if` behind it
is one keyword. -/
inductive HeaderWordText (state : HeaderState) :
    List Token → List Token → Node → HeaderState → Prop where
  | modifier {token : Token} {word : Keyword} {rest : List Token}
      (isWord : token.isKeyword word = true) (modifies : word.isModifier = true) :
      HeaderWordText state [token] rest (.leaf .keyword token) state
  | elseIf {token next : Token} {rest : List Token} (unnamed : state.named = false)
      (isElse : token.isKeyword .elseWord = true) (isIf : next.isKeyword .ifWord = true) :
      HeaderWordText state [token, next] rest
        (.leaf .keyword (token.respelled .keyword Keyword.elifWord.spelling)) state.withControl
  | control {token : Token} {word : Keyword} {rest : List Token} (unnamed : state.named = false)
      (isWord : token.isKeyword word = true) (controls : word.isControl = true)
      (apart : word = .elseWord → rest.head?.any (·.isKeyword .ifWord) = false) :
      HeaderWordText state [token] rest (.leaf .keyword token) state.withControl
  | operator {token operator : Token} {rest : List Token} (unnamed : state.named = false)
      (isWord : token.isKeyword .operatorWord = true)
      (isOperator : operator.tokenClass = .operator) :
      HeaderWordText state [token, operator] rest
        ⟨.keyword, token, [.leaf .operatorName operator]⟩ state.withName
  | name {token name : Token} {word : Keyword} {rest : List Token}
      (unnamed : state.named = false) (isWord : token.isKeyword word = true)
      (names : word = .moduleWord ∨ word = .methodWord) (isName : name.tokenClass = .userWord) :
      HeaderWordText state [token, name] rest ⟨.keyword, token, [.leaf .identifier name]⟩
        state.withName

/-- `HeaderText depth chain state text nodes`: the children of a header from some place on. A
condition comes last. -/
inductive HeaderText (depth chain : Nat) : HeaderState → List Token → List Node → Prop where
  | done {state : HeaderState} : HeaderText depth chain state [] []
  | list {state : HeaderState} {bracket : Bracket} {opener closer : Token}
      {text rest : List Token} {node : Node} {nodes : List Node}
      (listable : bracket ≠ .curly) (fresh : state.hasList bracket = false)
      (opens : opener.opens? = some bracket)
      (listed : HeaderListText depth chain state.control bracket text opener node)
      (closes : closer.closes? = some bracket)
      (later : HeaderText depth chain (state.withList bracket) rest nodes) :
      HeaderText depth chain state (opener :: (text ++ closer :: rest)) (node :: nodes)
  | name {state : HeaderState} {token : Token} {rest : List Token} {nodes : List Node}
      (unnamed : state.named = false) (uncontrolled : state.control = false)
      (isWord : token.tokenClass = .userWord)
      (later : HeaderText depth chain state.withName rest nodes) :
      HeaderText depth chain state (token :: rest) (.leaf .identifier token :: nodes)
  | word {state next : HeaderState} {text rest : List Token} {node : Node} {nodes : List Node}
      (worded : HeaderWordText state text rest node next)
      (later : HeaderText depth chain next rest nodes) :
      HeaderText depth chain state (text ++ rest) (node :: nodes)
  | condition {state : HeaderState} {anchor : Token} {order : Nat} {text : List Token}
      {node : Node} (controlled : state.control = true)
      (valued : ValueText depth chain order text node) (begins : text.head? = some anchor) :
      HeaderText depth chain state text [.tagged .valueStatement anchor [node]]

def Token.isArgument (token : Token) : Bool :=
  !(token.endsStatement || token.tokenClass == .directiveWord)

inductive DirectiveText : List Token → Node → Prop where
  | directive {word : Token} {text : List Token} (isWord : word.tokenClass = .directiveWord)
      (arguments : ∀ token ∈ text, token.isArgument = true) :
      DirectiveText (word :: text) ⟨.directive, word, text.map (.leaf .argument)⟩

inductive DirectivesText : List Token → List Node → Prop where
  | done : DirectivesText [] []
  | colon {colon : Token} {rest : List Token} {nodes : List Node}
      (isColon : colon.isLineSeparator ':' = true) (later : DirectivesText rest nodes) :
      DirectivesText (colon :: rest) nodes
  | directive {text rest : List Token} {node : Node} {nodes : List Node}
      (directive : DirectiveText text node) (later : DirectivesText rest nodes) :
      DirectivesText (text ++ rest) (node :: nodes)

/-- Whether the token is a block marker that closes and opens the given sections, or none. -/
def Token.Turns (token : Token) (closed opened : Option Section) : Prop :=
  ∃ marker, token.marker? = some marker ∧ marker.closes? = closed ∧ marker.opens? = opened ∧
    closed ≠ some .comment ∧ opened ≠ some .comment

theorem Token.Turns.isBlockMarker {token : Token} {closed opened : Option Section}
    (turns : token.Turns closed opened) : token.isBlockMarker = true := by
  obtain ⟨marker, found, rfl, rfl, closesNoComment, opensNoComment⟩ := turns
  rw [Token.isBlockMarker, found, Option.any_some]
  cases marker <;> first | rfl | exact absurd rfl closesNoComment | exact absurd rfl opensNoComment

mutual

/-- `ItemText depth chain text node?`: an item, which leaves no node if it is an empty statement. -/
inductive ItemText : Nat → Nat → List Token → Option Node → Prop where
  | empty {depth chain : Nat} {semicolon : Token}
      (isSemicolon : semicolon.isLineSeparator ';' = true) :
      ItemText depth chain [semicolon] none
  | statement {depth chain : Nat} {semicolon : Token} {text : List Token} {node : Node}
      (isSemicolon : semicolon.isLineSeparator ';' = true)
      (stated : StatementText depth chain text node) :
      ItemText depth chain (semicolon :: text) (some node)
  | directive {depth chain : Nat} {colon : Token} {text : List Token} {node : Node}
      (isColon : colon.isLineSeparator ':' = true) (directive : DirectiveText text node) :
      ItemText depth chain (colon :: text) (some node)
  | sections {depth chain : Nat} {text : List Token} {node : Node}
      (sections : ChainedText depth chain text node) : ItemText depth chain text (some node)

inductive ItemsText : Nat → Nat → List Token → List Node → Prop where
  | done {depth chain : Nat} : ItemsText depth chain [] []
  | more {depth chain : Nat} {text rest : List Token} {node? : Option Node} {nodes : List Node}
      (item : ItemText depth chain text node?) (later : ItemsText depth chain rest nodes) :
      ItemsText depth chain (text ++ rest) (node?.toList ++ nodes)

inductive ChainedText : Nat → Nat → List Token → Node → Prop where
  | sections {depth inner chain : Nat} {kind : Section} {opener : Token}
      {text rest : List Token} {head : Node} {nodes : List Node} (level : inner < depth)
      (opens : opener.Turns none (some kind))
      (first : SectionText inner chain kind opener text head)
      (later : LaterText inner chain kind rest nodes) :
      ChainedText depth chain (opener :: (text ++ rest))
        { head with children := head.children ++ nodes }

/-- `LaterText depth chain kind text nodes`: the rest of a chain behind a section of the kind. -/
inductive LaterText : Nat → Nat → Section → List Token → List Node → Prop where
  | done {depth chain : Nat} {kind : Section} {closer : Token}
      (closes : closer.Turns (some kind) none) : LaterText depth chain kind [closer] []
  | more {depth chain : Nat} {kind opened : Section} {marker : Token} {text rest : List Token}
      {node : Node} {nodes : List Node} (turns : marker.Turns (some kind) (some opened))
      (here : SectionText depth chain opened marker text node)
      (later : LaterText depth chain opened rest nodes) :
      LaterText depth chain kind (marker :: (text ++ rest)) (node :: nodes)

/-- `SectionText depth chain kind marker text node`: a section of the kind behind its marker. -/
inductive SectionText : Nat → Nat → Section → Token → List Token → Node → Prop where
  | code {depth chain : Nat} {marker : Token} {headerText bodyText : List Token}
      {children items : List Node} (heading : HeaderText depth chain .empty headerText children)
      (body : ItemsText depth chain bodyText items) :
      SectionText depth chain .code marker (headerText ++ bodyText)
        (.tagged .block marker (.tagged .header marker children :: items))
  | preprocessor {depth chain : Nat} {marker : Token} {text : List Token} {nodes : List Node}
      (directives : DirectivesText text nodes) :
      SectionText depth chain .preprocessor marker text (.tagged .directives marker nodes)

end

end TnslReader
