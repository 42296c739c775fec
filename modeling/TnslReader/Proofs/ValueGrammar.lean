import TnslReader.Tree.Node

/-!
Contract: the grammar of values and types, as lists of tokens with the trees they stand for.

A value is one of three things. It is a chain of operands, joined by operators of one binding order,
each operand binding tighter than the chain; or values in curly brackets; or operators, then a
primary, then calls, indexes, casts and operators behind it. A type is qualifiers, then pointer and
array marks, then a name with its arguments.

Every rule also says how much of the two limits it takes. `depth` and `chain` are what is left of
them; a rule that takes a level has its parts at some smaller depth, and a chain leaves its operands
so much less as it has operators. With nothing said about `depth` and `chain`, as in `IsValue`, the
rules are the plain grammar, since enough of both can always be left.

Owns: values, types, lists of each, and what behind a type would still belong to it.
Does not own: how a range of a token stream is read.
-/

set_option autoImplicit false

namespace TnslReader

namespace Token

def leafKind? (token : Token) : Option NodeKind :=
  match token.tokenClass with
  | .literal => some .literal
  | .userWord => some .identifier
  | .builtinType => some .typeName
  | _ => none

/-- Whether the token is an increment or a decrement. A minus right behind one is always taken to
stand between operands. -/
def stepsOperand (token : Token) : Bool :=
  token.isOperator .increment || token.isOperator .decrement

/-- Whether the token is a word that qualifies a type. A parameter must not be `static`. -/
def qualifies (token : Token) (inParameter : Bool) : Bool :=
  token.tokenClass == .keyword && token.keyword?.any (·.isQualifier) &&
    !(inParameter && token.keyword? == some .staticWord)

def isVoid (token : Token) : Bool :=
  token.tokenClass == .builtinType && token.keyword? == some .voidWord

end Token

inductive DottedText : List Token → List Node → Token → Prop where
  | word {name : Token} (isWord : name.tokenClass = .userWord) : DottedText [name] [] name
  | dot {word dot name : Token} {text : List Token} {path : List Node}
      (isWord : word.tokenClass = .userWord) (isDot : dot.isOperator .dot = true)
      (rest : DottedText text path name) :
      DottedText (word :: dot :: text) (.leaf .pathSegment word :: path) name

inductive NameText : List Token → List Node → Token → Prop where
  | builtin {name : Token} (isBuiltin : name.tokenClass = .builtinType) : NameText [name] [] name
  | dotted {text : List Token} {path : List Node} {name : Token}
      (words : DottedText text path name) : NameText text path name

inductive ReferenceText (inParameter : Bool) : List Token → List Node → Prop where
  | none : ReferenceText inParameter [] []
  | mark {token : Token} (parameter : inParameter = true)
      (isMark : token.isOperator .backtick = true) :
      ReferenceText inParameter [token] [.leaf .backReference token]

mutual

/-- `ValueText depth chain order text node`: a value. The operators outside its brackets that stand
between operands have at most the given binding order; the order is 0 if there are none. -/
inductive ValueText : Nat → Nat → Nat → List Token → Node → Prop where
  | unary {depth inner chain : Nat} {text : List Token} {node : Node} (level : inner < depth)
      (operand : UnaryText inner chain text node) :
      ValueText depth chain 0 text node
  | composite {depth inner chain : Nat} {opener closer : Token} {text : List Token}
      {nodes : List Node} (level : inner < depth) (opens : opener.opens? = some .curly)
      (values : ValuesText inner chain text nodes) (closes : closer.closes? = some .curly) :
      ValueText depth chain 0 (opener :: (text ++ [closer])) (.tagged .composite opener nodes)
  | chain {depth inner chain rest order count : Nat} {text : List Token} {node : Node}
      (level : inner < depth) (linked : rest + count ≤ chain) (joined : 0 < count)
      (operands : ChainText inner rest order count text node) :
      ValueText depth chain order text node

/-- `ChainText depth chain order count text node`: so many operators of the given order as `count`
says, each between two operands that bind tighter. The tree leans to the left. Behind `is` stands a
type in place of an operand. -/
inductive ChainText : Nat → Nat → Nat → Nat → List Token → Node → Prop where
  | first {depth chain order tighter : Nat} {text : List Token} {node : Node}
      (operand : ValueText depth chain tighter text node) (binds : tighter < order) :
      ChainText depth chain order 0 text node
  | value {depth chain order count tighter : Nat} {operator : Token}
      {leftText rightText : List Token} {left right : Node}
      (before : ChainText depth chain order count leftText left)
      (ordered : operator.order? = some order) (takesValue : operator.isOperator .isWord = false)
      (operand : ValueText depth chain tighter rightText right) (binds : tighter < order) :
      ChainText depth chain order (count + 1) (leftText ++ operator :: rightText)
        ⟨.binary, operator, [left, right]⟩
  | type {depth chain order count : Nat} {operator : Token} {leftText rightText : List Token}
      {left right : Node} (before : ChainText depth chain order count leftText left)
      (ordered : operator.order? = some order) (takesType : operator.isOperator .isWord = true)
      (operand : TypeText false depth chain rightText right) :
      ChainText depth chain order (count + 1) (leftText ++ operator :: rightText)
        ⟨.binary, operator, [left, right]⟩

/-- `UnaryText depth chain text node`: operators before a primary, the last of them applied first,
and what comes after the primary. -/
inductive UnaryText : Nat → Nat → List Token → Node → Prop where
  | preceded {depth inner chain : Nat} {operator : Token} {text : List Token} {node : Node}
      (level : inner < depth) (precedes : operator.mayPrecedeOperand = true)
      (apart : operator.stepsOperand = true → text.head?.any (·.isOperator .minus) = false)
      (operand : UnaryText inner chain text node) :
      UnaryText depth chain (operator :: text) ⟨.precedingOperator, operator, [node]⟩
  | followed {depth chain : Nat} {text rest : List Token} {base node : Node}
      (primary : PrimaryText depth chain text base)
      (after : FollowedText depth chain base rest node) :
      UnaryText depth chain (text ++ rest) node

inductive PrimaryText : Nat → Nat → List Token → Node → Prop where
  | leaf {depth chain : Nat} {token : Token} {kind : NodeKind}
      (isLeaf : token.leafKind? = some kind) : PrimaryText depth chain [token] (.leaf kind token)
  | grouped {depth chain order : Nat} {opener closer : Token} {text : List Token} {node : Node}
      (opens : opener.opens? = some .round) (value : ValueText depth chain order text node)
      (closes : closer.closes? = some .round) :
      PrimaryText depth chain (opener :: (text ++ [closer])) node

/-- `FollowedText depth chain base text node`: what comes after an operand `base`, applied to it
from left to right. -/
inductive FollowedText : Nat → Nat → Node → List Token → Node → Prop where
  | done {depth chain : Nat} {base : Node} : FollowedText depth chain base [] base
  | operator {depth inner chain : Nat} {base node : Node} {token : Token} {rest : List Token}
      (level : inner < depth) (follows : token.mayFollowOperand = true)
      (after : FollowedText inner chain ⟨.followingOperator, token, [base]⟩ rest node) :
      FollowedText depth chain base (token :: rest) node
  | call {depth inner chain : Nat} {base node : Node} {opener closer : Token}
      {text rest : List Token} {nodes : List Node} (level : inner < depth)
      (opens : opener.opens? = some .round) (values : ValuesText inner chain text nodes)
      (closes : closer.closes? = some .round)
      (after : FollowedText inner chain
        (.tagged .call opener [base, .tagged .valueList opener nodes]) rest node) :
      FollowedText depth chain base (opener :: (text ++ closer :: rest)) node
  | index {depth inner chain order : Nat} {base position node : Node} {opener closer : Token}
      {text rest : List Token} (level : inner < depth) (opens : opener.opens? = some .curly)
      (value : ValueText inner chain order text position)
      (closes : closer.closes? = some .curly)
      (after : FollowedText inner chain (.tagged .index opener [base, position]) rest node) :
      FollowedText depth chain base (opener :: (text ++ closer :: rest)) node
  | cast {depth inner chain : Nat} {base node : Node} {opener closer : Token}
      {text rest : List Token} {nodes : List Node} (level : inner < depth)
      (opens : opener.opens? = some .square) (types : TypesText inner chain text nodes)
      (closes : closer.closes? = some .square)
      (after : FollowedText inner chain
        (.tagged .cast opener [base, .tagged .typeList opener nodes]) rest node) :
      FollowedText depth chain base (opener :: (text ++ closer :: rest)) node

inductive ValuesText : Nat → Nat → List Token → List Node → Prop where
  | none {depth chain : Nat} : ValuesText depth chain [] []
  | last {depth chain order : Nat} {text : List Token} {node : Node}
      (value : ValueText depth chain order text node) : ValuesText depth chain text [node]
  | more {depth chain order : Nat} {comma : Token} {text rest : List Token} {node next : Node}
      {nodes : List Node} (value : ValueText depth chain order text node)
      (isComma : comma.isComma = true) (later : ValuesText depth chain rest (next :: nodes)) :
      ValuesText depth chain (text ++ comma :: rest) (node :: next :: nodes)

inductive TypeText : Bool → Nat → Nat → List Token → Node → Prop where
  | type {inParameter : Bool} {depth inner chain : Nat} {first name : Token}
      {qualifiers marks words arguments reference : List Token}
      {markNodes path argumentNodes referenceNodes : List Node} (level : inner < depth)
      (qualified : ∀ token ∈ qualifiers, token.qualifies inParameter = true)
      (marked : MarksText inner chain marks markNodes) (named : NameText words path name)
      (applied : ArgumentsText inner chain name arguments argumentNodes)
      (referred : ReferenceText inParameter reference referenceNodes)
      (begins : (qualifiers ++ marks ++ words).head? = some first) :
      TypeText inParameter depth chain (qualifiers ++ marks ++ words ++ arguments ++ reference)
        (.tagged .type first (qualifiers.map (.leaf .qualifier) ++ markNodes ++ path ++
          ⟨.typeName, name, argumentNodes⟩ :: referenceNodes))

inductive MarksText : Nat → Nat → List Token → List Node → Prop where
  | done {depth chain : Nat} : MarksText depth chain [] []
  | pointer {depth chain : Nat} {token : Token} {rest : List Token} {nodes : List Node}
      (points : token.isOperator .tilde = true) (later : MarksText depth chain rest nodes) :
      MarksText depth chain (token :: rest) (.leaf .pointer token :: nodes)
  | unsized {depth chain : Nat} {opener closer : Token} {rest : List Token} {nodes : List Node}
      (opens : opener.opens? = some .curly) (closes : closer.closes? = some .curly)
      (later : MarksText depth chain rest nodes) :
      MarksText depth chain (opener :: closer :: rest) (.tagged .array opener [] :: nodes)
  | sized {depth chain order : Nat} {opener closer : Token} {text rest : List Token}
      {length : Node} {nodes : List Node} (opens : opener.opens? = some .curly)
      (value : ValueText depth chain order text length) (closes : closer.closes? = some .curly)
      (later : MarksText depth chain rest nodes) :
      MarksText depth chain (opener :: (text ++ closer :: rest))
        (.tagged .array opener [length] :: nodes)

/-- `ArgumentsText depth chain name text nodes`: the arguments of a type name, if there are any, and
the results behind those of `void`. -/
inductive ArgumentsText : Nat → Nat → Token → List Token → List Node → Prop where
  | none {depth chain : Nat} {name : Token} : ArgumentsText depth chain name [] []
  | arguments {depth chain : Nat} {name opener closer : Token} {text : List Token}
      {nodes : List Node} (opens : opener.opens? = some .round)
      (types : TypesText depth chain text nodes) (closes : closer.closes? = some .round) :
      ArgumentsText depth chain name (opener :: (text ++ [closer]))
        [.tagged .typeList opener nodes]
  | results {depth chain : Nat} {name opener closer second secondCloser : Token}
      {text resultText : List Token} {nodes results : List Node} (isVoid : name.isVoid = true)
      (opens : opener.opens? = some .round) (types : TypesText depth chain text nodes)
      (closes : closer.closes? = some .round) (opensResults : second.opens? = some .square)
      (resultTypes : TypesText depth chain resultText results)
      (closesResults : secondCloser.closes? = some .square) :
      ArgumentsText depth chain name
        (opener :: (text ++ closer :: second :: (resultText ++ [secondCloser])))
        [.tagged .typeList opener nodes, .tagged .typeList second results]

inductive TypesText : Nat → Nat → List Token → List Node → Prop where
  | none {depth chain : Nat} : TypesText depth chain [] []
  | last {depth chain : Nat} {text : List Token} {node : Node}
      (type : TypeText false depth chain text node) : TypesText depth chain text [node]
  | more {depth chain : Nat} {comma : Token} {text rest : List Token} {node next : Node}
      {nodes : List Node} (type : TypeText false depth chain text node)
      (isComma : comma.isComma = true) (later : TypesText depth chain rest (next :: nodes)) :
      TypesText depth chain (text ++ comma :: rest) (node :: next :: nodes)

end

def IsValue (text : List Token) (node : Node) : Prop :=
  ∃ depth chain order, ValueText depth chain order text node

def IsType (inParameter : Bool) (text : List Token) (node : Node) : Prop :=
  ∃ depth chain, TypeText inParameter depth chain text node

/-! ### What comes behind a type

A type may be followed by anything, so where one ends is told by what would still belong to it. -/

inductive NameGoesOn (name : Token) : List Token → Prop where
  | word {dot word : Token} {rest : List Token} (isPath : name.tokenClass = .userWord)
      (isDot : dot.isOperator .dot = true) (isWord : word.tokenClass = .userWord) :
      NameGoesOn name (dot :: word :: rest)

/-- `ArgumentsGoOn name nodes rest`: behind a name with the given arguments comes a bracket that
opens arguments, if it has none, or the results of `void`, if it has arguments only. -/
inductive ArgumentsGoOn (name : Token) : List Node → List Token → Prop where
  | arguments {opener : Token} {rest : List Token} (opens : opener.opens? = some .round) :
      ArgumentsGoOn name [] (opener :: rest)
  | results {arguments : Node} {opener : Token} {rest : List Token} (isVoid : name.isVoid = true)
      (opens : opener.opens? = some .square) : ArgumentsGoOn name [arguments] (opener :: rest)

inductive ReferenceGoesOn (inParameter : Bool) : List Node → List Token → Prop where
  | mark {token : Token} {rest : List Token} (parameter : inParameter = true)
      (isMark : token.isOperator .backtick = true) : ReferenceGoesOn inParameter [] (token :: rest)

/-- Whether a type would take what comes behind it. A type that ends in its name may take more of
each piece from there on. One that ends in the mark of a reference, its last child then, takes
nothing more. -/
def Node.GoesOn (inParameter : Bool) (type : Node) (rest : List Token) : Prop :=
  ∃ name arguments, type.children.getLast? = some ⟨.typeName, name, arguments⟩ ∧
    (arguments = [] ∧ NameGoesOn name rest ∨ ArgumentsGoOn name arguments rest ∨
      ReferenceGoesOn inParameter [] rest)

/-- `MeetsStatic text`: the words that may qualify the type of a parameter end before `static`. -/
inductive MeetsStatic : List Token → Prop where
  | here {token : Token} {rest : List Token} (isStatic : token.keyword? = some .staticWord) :
      MeetsStatic (token :: rest)
  | behind {token : Token} {rest : List Token} (qualifies : token.qualifies true = true)
      (later : MeetsStatic rest) : MeetsStatic (token :: rest)

end TnslReader
