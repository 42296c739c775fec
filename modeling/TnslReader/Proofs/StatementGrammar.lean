import TnslReader.Grammar.Statement
import TnslReader.Proofs.ValueGrammar

/-!
Contract: the grammar of statements and of the lists in a header, as lists of tokens with the trees
they stand for.

A statement is a definition, a bare value, or a keyword with what belongs to it. As in the grammar of
values, `depth` and `chain` are the room that the values and types of a statement may take.

Owns: statements, parameters, and lists of statements.
Does not own: where a statement stands in a file.
-/

set_option autoImplicit false

namespace TnslReader

def Keyword.namingKind? : Keyword → Option NodeKind
  | .gotoWord => some .gotoStatement
  | .labelWord => some .labelStatement
  | _ => none

def Keyword.loopingKind? : Keyword → Option NodeKind
  | .breakWord => some .breakStatement
  | .continueWord => some .continueStatement
  | _ => none

def Keyword.memoryKind? : Keyword → Option NodeKind
  | .allocWord => some .allocStatement
  | .sallocWord => some .sallocStatement
  | .reallocWord => some .reallocStatement
  | .deleteWord => some .deleteStatement
  | _ => none

/-- `SimpleText depth chain text node`: a type and names with or without values, or a value. -/
inductive SimpleText (depth chain : Nat) : List Token → Node → Prop where
  | definition {anchor name : Token} {typeText namesText : List Token} {type : Node}
      {names : List Node} (typed : TypeText false depth chain typeText type)
      (listed : ValuesText depth chain namesText names)
      (defined : ∀ item ∈ names, item.isDefinedName = true)
      (begins : typeText.head? = some anchor) (namesBegin : namesText.head? = some name)
      (isWord : name.tokenClass = .userWord) :
      SimpleText depth chain (typeText ++ namesText)
        (.tagged .definition anchor [type, .tagged .valueList name names])
  | value {anchor : Token} {order : Nat} {text : List Token} {node : Node}
      (valued : ValueText depth chain order text node) (begins : text.head? = some anchor) :
      SimpleText depth chain text (.tagged .valueStatement anchor [node])

/-- `ParameterText depth chain typed text nodes`: a name alone, if a parameter before it has a type,
or a type and a name. -/
inductive ParameterText (depth chain : Nat) (typed : Bool) : List Token → List Node → Prop where
  | name {name : Token} (isTyped : typed = true) (isWord : name.tokenClass = .userWord) :
      ParameterText depth chain typed [name] [.leaf .identifier name]
  | typed {name : Token} {text : List Token} {type : Node}
      (isType : TypeText true depth chain text type) (isWord : name.tokenClass = .userWord) :
      ParameterText depth chain typed (text ++ [name]) [type, .leaf .identifier name]

inductive ParametersText (depth chain : Nat) : Bool → List Token → List Node → Prop where
  | last {typed : Bool} {text : List Token} {nodes : List Node}
      (parameter : ParameterText depth chain typed text nodes) :
      ParametersText depth chain typed text nodes
  | more {typed : Bool} {comma : Token} {text rest : List Token} {nodes others : List Node}
      (parameter : ParameterText depth chain typed text nodes) (isComma : comma.isComma = true)
      (later : ParametersText depth chain true rest others) :
      ParametersText depth chain typed (text ++ comma :: rest) (nodes ++ others)

/-- `ParameterListText depth chain text nodes`: parameters, the first with a type, or none. -/
inductive ParameterListText (depth chain : Nat) : List Token → List Node → Prop where
  | none : ParameterListText depth chain [] []
  | some {text : List Token} {nodes : List Node}
      (listed : ParametersText depth chain false text nodes) :
      ParameterListText depth chain text nodes

/-- `StatementsText depth chain text nodes`: definitions and values with commas or semicolons
between them, some of which may be missing. -/
inductive StatementsText (depth chain : Nat) : List Token → List Node → Prop where
  | none : StatementsText depth chain [] []
  | last {text : List Token} {node : Node} (simple : SimpleText depth chain text node) :
      StatementsText depth chain text [node]
  | missing {separator : Token} {rest : List Token} {nodes : List Node}
      (separates : separator.separatesStatements = true)
      (later : StatementsText depth chain rest nodes) :
      StatementsText depth chain (separator :: rest) nodes
  | more {separator : Token} {text rest : List Token} {node : Node} {nodes : List Node}
      (simple : SimpleText depth chain text node)
      (separates : separator.separatesStatements = true)
      (later : StatementsText depth chain rest nodes) :
      StatementsText depth chain (text ++ separator :: rest) (node :: nodes)

inductive SuperTypesText (depth chain : Nat) : List Token → List Node → Prop where
  | none : SuperTypesText depth chain [] []
  | listed {opener closer : Token} {text : List Token} {nodes : List Node}
      (opens : opener.opens? = some .round) (values : ValuesText depth chain text nodes)
      (closes : closer.closes? = some .round) :
      SuperTypesText depth chain (opener :: (text ++ [closer])) [.tagged .valueList opener nodes]

inductive BaseTypeText (depth chain : Nat) : List Token → List Node → Prop where
  | none : BaseTypeText depth chain [] []
  | type {opener closer : Token} {text : List Token} {node : Node}
      (opens : opener.opens? = some .square) (typed : TypeText false depth chain text node)
      (closes : closer.closes? = some .square) :
      BaseTypeText depth chain (opener :: (text ++ [closer])) [node]

inductive KeywordText (depth chain : Nat) : List Token → Node → Prop where
  | struct {keyword name opener closer : Token} {modifiers superText memberText : List Token}
      {superNodes members : List Node}
      (modified : modifiers = [] ∨ ∃ raw, raw.isKeyword .rawWord = true ∧ modifiers = [raw])
      (isStruct : keyword.isKeyword .structWord = true) (isWord : name.tokenClass = .userWord)
      (supers : SuperTypesText depth chain superText superNodes)
      (opens : opener.opens? = some .curly)
      (listed : ParameterListText depth chain memberText members)
      (closes : closer.closes? = some .curly) :
      KeywordText depth chain
        (modifiers ++ keyword :: name :: (superText ++ opener :: (memberText ++ [closer])))
        ⟨.structStatement, keyword, modifiers.map (.leaf .keyword) ++
          .leaf .identifier name :: superNodes ++ [.tagged .parameterList opener members]⟩
  | enum {keyword name opener closer : Token} {baseText valueText : List Token}
      {baseNodes values : List Node} (isEnum : keyword.isKeyword .enumWord = true)
      (isWord : name.tokenClass = .userWord) (based : BaseTypeText depth chain baseText baseNodes)
      (opens : opener.opens? = some .curly) (listed : ValuesText depth chain valueText values)
      (closes : closer.closes? = some .curly) :
      KeywordText depth chain (keyword :: name :: (baseText ++ opener :: (valueText ++ [closer])))
        ⟨.enumStatement, keyword,
          .leaf .identifier name :: baseNodes ++ [.tagged .valueList opener values]⟩
  | naming {keyword name : Token} {word : Keyword} {kind : NodeKind}
      (isKeyword : keyword.isKeyword word = true) (names : word.namingKind? = some kind)
      (isWord : name.tokenClass = .userWord) :
      KeywordText depth chain [keyword, name] ⟨kind, keyword, [.leaf .identifier name]⟩
  | looping {keyword : Token} {word : Keyword} {kind : NodeKind}
      (isKeyword : keyword.isKeyword word = true) (loops : word.loopingKind? = some kind) :
      KeywordText depth chain [keyword] (.leaf kind keyword)
  | loopingTimes {keyword count : Token} {word : Keyword} {kind : NodeKind}
      (isKeyword : keyword.isKeyword word = true) (loops : word.loopingKind? = some kind)
      (isLiteral : count.tokenClass = .literal)
      (isCount : count.text.toList.all Literal.isDigit = true) :
      KeywordText depth chain [keyword, count] ⟨kind, keyword, [.leaf .literal count]⟩
  | returning {keyword : Token} (isReturn : keyword.isKeyword .returnWord = true) :
      KeywordText depth chain [keyword] (.leaf .returnStatement keyword)
  | returningValue {keyword : Token} {order : Nat} {text : List Token} {node : Node}
      (isReturn : keyword.isKeyword .returnWord = true)
      (valued : ValueText depth chain order text node) :
      KeywordText depth chain (keyword :: text) ⟨.returnStatement, keyword, [node]⟩
  | memory {keyword anchor : Token} {word : Keyword} {kind : NodeKind} {text : List Token}
      {node : Node} {nodes : List Node} (isKeyword : keyword.isKeyword word = true)
      (isMemory : word.memoryKind? = some kind)
      (listed : ValuesText depth chain text (node :: nodes)) (begins : text.head? = some anchor) :
      KeywordText depth chain (keyword :: text)
        ⟨kind, keyword, [.tagged .valueList anchor (node :: nodes)]⟩
  | asm {keyword : Token} {texts : List Token} (isAsm : keyword.isKeyword .asmWord = true)
      (quoted : ∀ text ∈ texts, text.isQuotedText = true) (nonempty : texts ≠ []) :
      KeywordText depth chain (keyword :: texts)
        ⟨.asmStatement, keyword, texts.map (.leaf .literal)⟩

inductive StatementText (depth chain : Nat) : List Token → Node → Prop where
  | keyword {text : List Token} {node : Node} (worded : KeywordText depth chain text node) :
      StatementText depth chain text node
  | simple {text : List Token} {node : Node} (simple : SimpleText depth chain text node) :
      StatementText depth chain text node

end TnslReader
