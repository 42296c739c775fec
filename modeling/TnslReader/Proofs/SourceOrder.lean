import TnslReader.Proofs.SectionGrammar
import TnslReader.Proofs.TokenFacts

/-!
Contract: what it means that a tree tells its source, word by word.

The wording of a text is its operators, literals and words. The wording of a tree is read off it in
the order of the source: an operator between operands comes behind its left operand, one after an
operand behind that, and the keyword of a struct behind the modifier before it. Two things are not
kept as they are. A dotted type name keeps its words but not its dots, so its wording has a gap behind
each word before the last. An `else` with an `if` behind it in a header is kept as one `elif`; among
the arguments of a directive the two are words like any others.

Owns:
- the wording of texts and trees, and the tokens of a file with every `else if` joined;
- the rules by which texts that are told are put together.

Does not own: that the texts of a grammar are told by their trees.
-/

set_option autoImplicit false

namespace TnslReader

/-! ### The wording of a tree -/

def TokenClass.isWording : TokenClass → Bool
  | .operator | .literal | .builtinType | .directiveWord | .keyword | .userWord => true
  | _ => false

def Token.isWording (token : Token) : Bool :=
  token.tokenClass.isWording

/-- The operators, literals and words of a text. -/
def wording (text : List Token) : List Token :=
  text.filter (·.isWording)

namespace Node

/-- Whether the token of a node stands behind the node's first child. -/
def standsBehind (kind : NodeKind) (first : Node) : Bool :=
  match kind with
  | .binary | .followingOperator => true
  | .structStatement => first.kind == .keyword
  | _ => false

/-- What a node itself adds to the wording of its tree. A path segment has a gap behind it, where a
dot stands in the source. -/
def ownWording (kind : NodeKind) (token : Token) : List (Option Token) :=
  (wording [token]).map some ++ if kind = .pathSegment then [none] else []

mutual

/-- The wording of a tree in the order of the source, with gaps. -/
def sourceWording : Node → List (Option Token)
  | ⟨kind, token, []⟩ => ownWording kind token
  | ⟨kind, token, first :: later⟩ =>
      if standsBehind kind first then
        sourceWording first ++ ownWording kind token ++ sourceWordingAll later
      else
        ownWording kind token ++ (sourceWording first ++ sourceWordingAll later)

def sourceWordingAll : List Node → List (Option Token)
  | [] => []
  | node :: nodes => sourceWording node ++ sourceWordingAll nodes

end

variable {kind : NodeKind} {token : Token} {children : List Node}

theorem sourceWordingAll_append (nodes others : List Node) :
    sourceWordingAll (nodes ++ others) = sourceWordingAll nodes ++ sourceWordingAll others := by
  induction nodes with
  | nil => rfl
  | cons node nodes inductionHypothesis =>
      rw [List.cons_append, sourceWordingAll, sourceWordingAll, inductionHypothesis,
        List.append_assoc]

@[simp] theorem sourceWordingAll_nil : sourceWordingAll [] = [] :=
  rfl

@[simp] theorem sourceWordingAll_cons (node : Node) (nodes : List Node) :
    sourceWordingAll (node :: nodes) = node.sourceWording ++ sourceWordingAll nodes :=
  rfl

theorem sourceWording_mk_cons {first : Node} (before : standsBehind kind first = false) :
    sourceWording ⟨kind, token, first :: children⟩ =
      ownWording kind token ++ sourceWordingAll (first :: children) := by
  rw [sourceWording, before, if_neg Bool.false_ne_true, sourceWordingAll]

/-- The token of most nodes stands before all of their children. -/
theorem sourceWording_mk (before : ∀ first, standsBehind kind first = false) :
    sourceWording ⟨kind, token, children⟩ = ownWording kind token ++ sourceWordingAll children := by
  cases children with
  | nil => rw [sourceWording, sourceWordingAll, List.append_nil]
  | cons first later => exact sourceWording_mk_cons (before first)

theorem sourceWording_mk_of_standsBehind {first : Node} (behind : standsBehind kind first = true) :
    sourceWording ⟨kind, token, first :: children⟩ =
      first.sourceWording ++ ownWording kind token ++ sourceWordingAll children := by
  rw [sourceWording, if_pos behind]

theorem sourceWording_leaf : (leaf kind token).sourceWording = ownWording kind token := by
  rw [leaf, sourceWording]

/-- A token that is made for a node adds nothing. -/
theorem sourceWording_tagged (notSegment : kind ≠ .pathSegment) :
    (tagged kind token children).sourceWording = sourceWordingAll children := by
  have silent : ownWording kind (.tag kind.tag token) = [] := by
    rw [ownWording, if_neg notSegment]
    rfl
  rw [tagged]
  cases children with
  | nil => rw [sourceWording, silent, sourceWordingAll]
  | cons first later => rw [sourceWording, silent]; split <;> simp

theorem ownWording_of_isWording (isWording : token.isWording = true) :
    ownWording kind token = some token :: if kind = .pathSegment then [none] else [] := by
  simp [ownWording, wording, isWording]

/-- Leaves add the wording of their tokens. -/
theorem sourceWordingAll_map_leaf (tokens : List Token) (notSegment : kind ≠ .pathSegment) :
    sourceWordingAll (tokens.map (leaf kind)) = (wording tokens).map some := by
  induction tokens with
  | nil => rfl
  | cons token tokens inductionHypothesis =>
      rw [List.map_cons, sourceWordingAll_cons, sourceWording_leaf, inductionHypothesis, ownWording,
        if_neg notSegment, List.append_nil, ← List.map_append, wording, wording, wording,
        ← List.filter_append, List.singleton_append]

end Node

/-! ### Texts with every `else if` joined -/

/-- Whether arguments of a directive come behind the token: it is a directive word, or it stands among
arguments and does not end them. -/
def Token.argumentsBehind (inArguments : Bool) (token : Token) : Bool :=
  token.tokenClass == .directiveWord || inArguments && token.isArgument

/-- The tokens of a text as headers join them: an `else` with an `if` behind it is one `elif` in the
place of the `else`. The arguments of a directive are left as they are. -/
def joinedFrom : Bool → List Token → List Token
  | _, [] => []
  | _, [token] => [token]
  | inArguments, token :: next :: rest =>
      if !inArguments && token.isKeyword .elseWord && next.isKeyword .ifWord then
        token.respelled .keyword Keyword.elifWord.spelling :: joinedFrom false rest
      else
        token :: joinedFrom (token.argumentsBehind inArguments) (next :: rest)

def joined (text : List Token) : List Token :=
  joinedFrom false text

/-- Whether the token begins neither an `else if` nor a directive. -/
def Token.isQuiet (token : Token) : Bool :=
  !token.isKeyword .elseWord && token.tokenClass != .directiveWord

def EndsArguments (text : List Token) : Prop :=
  ∀ token ∈ text.head?, token.isArgument = false

section Joined

variable {token next : Token} {text rest : List Token}

theorem joinedFrom_cons_of_apart (inArguments : Bool)
    (apart : (!inArguments && token.isKeyword .elseWord && rest.head?.any (·.isKeyword .ifWord)) =
      false) :
    joinedFrom inArguments (token :: rest) =
      token :: joinedFrom (token.argumentsBehind inArguments) rest := by
  cases rest with
  | nil => rw [joinedFrom, joinedFrom]
  | cons next rest =>
      rw [List.head?_cons, Option.any_some] at apart
      rw [joinedFrom, apart, if_neg Bool.false_ne_true]

theorem joinedFrom_elseIf (isElse : token.isKeyword .elseWord = true)
    (isIf : next.isKeyword .ifWord = true) :
    joinedFrom false (token :: next :: rest) =
      token.respelled .keyword Keyword.elifWord.spelling :: joinedFrom false rest := by
  rw [joinedFrom, isElse, isIf, if_pos (by rfl)]

theorem joinedFrom_cons_of_isQuiet (quiet : token.isQuiet = true) :
    joinedFrom false (token :: rest) = token :: joinedFrom false rest := by
  simp only [Token.isQuiet, Bool.and_eq_true, Bool.not_eq_true', bne_iff_ne] at quiet
  rw [joinedFrom_cons_of_apart false (by simp [quiet.1]), Token.argumentsBehind,
    beq_false_of_ne quiet.2, Bool.false_and, Bool.or_false]

theorem joinedFrom_append_of_isQuiet (quiet : ∀ token ∈ text, token.isQuiet = true) :
    joinedFrom false (text ++ rest) = text ++ joinedFrom false rest := by
  induction text with
  | nil => rfl
  | cons token text inductionHypothesis =>
      obtain ⟨here, later⟩ := List.forall_mem_cons.mp quiet
      rw [List.cons_append, joinedFrom_cons_of_isQuiet here, inductionHypothesis later,
        List.cons_append]

theorem joinedFrom_append_of_isArgument (arguments : ∀ token ∈ text, token.isArgument = true) :
    joinedFrom true (text ++ rest) = text ++ joinedFrom true rest := by
  induction text with
  | nil => rfl
  | cons token text inductionHypothesis =>
      obtain ⟨here, later⟩ := List.forall_mem_cons.mp arguments
      rw [List.cons_append, joinedFrom_cons_of_apart true (by simp), Token.argumentsBehind, here,
        Bool.and_self, Bool.or_true, inductionHypothesis later, List.cons_append]

theorem Token.isKeyword_eq_false_of_isArgument {word : Keyword} (ends : token.isArgument = false) :
    token.isKeyword word = false := by
  simp only [isArgument, Bool.not_eq_false', Bool.or_eq_true, beq_iff_eq] at ends
  cases classified : token.tokenClass <;>
    simp_all [isKeyword, endsStatement, isBlockMarker, marker?]

theorem Token.isArgument_of_isLineSeparator {rune : Char}
    (separates : token.isLineSeparator rune = true) : token.isArgument = false := by
  simp [isArgument, endsStatement, tokenClass_of_isLineSeparator separates]

/-- Behind the arguments of a directive the text goes on as if there had been none. -/
theorem joinedFrom_of_endsArguments (ends : EndsArguments text) :
    joinedFrom true text = joinedFrom false text := by
  cases text with
  | nil => rw [joinedFrom, joinedFrom]
  | cons token text =>
      have ends : token.isArgument = false := ends token rfl
      have apart : token.isKeyword .elseWord = false := Token.isKeyword_eq_false_of_isArgument ends
      rw [joinedFrom_cons_of_apart true (by simp), joinedFrom_cons_of_apart false (by simp [apart]),
        Token.argumentsBehind, Token.argumentsBehind, ends, Bool.and_false, Bool.and_false]

theorem joinedFrom_of_directiveWord (isWord : token.tokenClass = .directiveWord) :
    joinedFrom false (token :: rest) = token :: joinedFrom true rest := by
  rw [joinedFrom_cons_of_apart false (by simp [Token.isKeyword, isWord])]
  simp [Token.argumentsBehind, isWord]

end Joined

/-! ### Texts that are told -/

/-- Whether a token of the source stands where a tree has the entry: the same token, or a dot at a
gap. -/
def Fits : Option Token → Token → Prop
  | some token, other => token = other
  | none, other => other.isOperator .dot = true

structure Retold (text : List Token) (entries : List (Option Token)) : Prop where
  fits : List.Forall₂ Fits entries (wording text)
  quiet : ∀ token ∈ text, token.isQuiet = true

/-- Once its `else if`s are joined the text has the given wording, whatever comes behind it, as long
as a directive would end there. -/
def Recounted (text : List Token) (entries : List (Option Token)) : Prop :=
  ∀ rest, EndsArguments rest → ∃ told, joinedFrom false (text ++ rest) =
    told ++ joinedFrom false rest ∧ List.Forall₂ Fits entries (wording told)

theorem wording_append (text rest : List Token) :
    wording (text ++ rest) = wording text ++ wording rest :=
  List.filter_append ..

theorem fits_map_some (text : List Token) : List.Forall₂ Fits (text.map some) text := by
  induction text with
  | nil => exact .nil
  | cons token text inductionHypothesis => exact .cons rfl inductionHypothesis

namespace Token

variable {token : Token}

theorem isWording_of_class {tokenClass : TokenClass} (classified : token.tokenClass = tokenClass) :
    token.isWording = tokenClass.isWording :=
  congrArg TokenClass.isWording classified

theorem isQuiet_of_class (notKeyword : token.tokenClass ≠ .keyword)
    (notDirective : token.tokenClass ≠ .directiveWord) : token.isQuiet = true := by
  simp [isQuiet, isKeyword, notKeyword, notDirective]

structure IsSpoken (token : Token) : Prop where
  isWording : token.isWording = true
  isQuiet : token.isQuiet = true

theorem isSpoken_of_class {tokenClass : TokenClass} (classified : token.tokenClass = tokenClass)
    (isWording : tokenClass.isWording = true) (notKeyword : tokenClass ≠ .keyword)
    (notDirective : tokenClass ≠ .directiveWord) : token.IsSpoken :=
  ⟨(isWording_of_class classified).trans isWording,
    isQuiet_of_class (classified ▸ notKeyword) (classified ▸ notDirective)⟩

theorem isSpoken_of_operator (isOperator : token.tokenClass = .operator) : token.IsSpoken :=
  isSpoken_of_class isOperator rfl TokenClass.noConfusion TokenClass.noConfusion

theorem isSpoken_of_operator? {operator : Operator} (found : token.operator? = some operator) :
    token.IsSpoken :=
  isSpoken_of_operator (tokenClass_of_operator? found)

theorem isSpoken_of_isOperator {operator : Operator} (is : token.isOperator operator = true) :
    token.IsSpoken :=
  isSpoken_of_operator? (operator?_of_isOperator is)

theorem isSpoken_of_userWord (isWord : token.tokenClass = .userWord) : token.IsSpoken :=
  isSpoken_of_class isWord rfl TokenClass.noConfusion TokenClass.noConfusion

theorem isSpoken_of_literal (isLiteral : token.tokenClass = .literal) : token.IsSpoken :=
  isSpoken_of_class isLiteral rfl TokenClass.noConfusion TokenClass.noConfusion

theorem isSpoken_of_builtinType (isBuiltin : token.tokenClass = .builtinType) : token.IsSpoken :=
  isSpoken_of_class isBuiltin rfl TokenClass.noConfusion TokenClass.noConfusion

theorem isSpoken_of_isKeyword {word : Keyword} (isWord : token.isKeyword word = true)
    (notElse : word ≠ .elseWord) : token.IsSpoken := by
  have classified := tokenClass_of_isKeyword isWord
  have apart : word.spelling ≠ Keyword.elseWord.spelling := by
    cases word <;> first | exact absurd rfl notElse | decide
  exact ⟨isWording_of_class classified,
    by simp [isQuiet, isKeyword, classified, text_of_isKeyword isWord, apart]⟩

/-- Keywords and directive words are wording, so what is none begins nothing that is joined. -/
theorem isQuiet_of_silent (silent : token.isWording = false) : token.isQuiet = true := by
  apply isQuiet_of_class
  · intro isKeyword
    cases silent.symm.trans (isWording_of_class isKeyword)
  · intro isDirective
    cases silent.symm.trans (isWording_of_class isDirective)

theorem isWording_of_opens? {bracket : Bracket} (opens : token.opens? = some bracket) :
    token.isWording = false :=
  isWording_of_class (tokenClass_of_opens? opens)

theorem isWording_of_closes? {bracket : Bracket} (closes : token.closes? = some bracket) :
    token.isWording = false :=
  isWording_of_class (tokenClass_of_closes? closes)

theorem isWording_of_isComma (isComma : token.isComma = true) : token.isWording = false :=
  isWording_of_class (tokenClass_of_isComma isComma)

theorem isWording_of_isLineSeparator {rune : Char} (separates : token.isLineSeparator rune = true) :
    token.isWording = false :=
  isWording_of_class (tokenClass_of_isLineSeparator separates)

end Token

namespace Retold

variable {text rest : List Token} {entries others : List (Option Token)} {token : Token}

theorem nil : Retold [] [] :=
  ⟨.nil, List.forall_mem_nil _⟩

theorem append (first : Retold text entries) (second : Retold rest others) :
    Retold (text ++ rest) (entries ++ others) := by
  refine ⟨?_, List.forall_mem_append.mpr ⟨first.quiet, second.quiet⟩⟩
  rw [wording_append]
  exact List.rel_append first.fits second.fits

/-- A token that is no operator, literal or word leaves no trace. -/
theorem cons_silent (silent : token.isWording = false) (later : Retold rest entries) :
    Retold (token :: rest) entries := by
  refine ⟨?_, List.forall_mem_cons.mpr ⟨Token.isQuiet_of_silent silent, later.quiet⟩⟩
  rw [wording, List.filter_cons, silent, if_neg Bool.false_ne_true]
  exact later.fits

theorem cons (spoken : token.IsSpoken) (later : Retold rest entries) :
    Retold (token :: rest) (some token :: entries) := by
  refine ⟨?_, List.forall_mem_cons.mpr ⟨spoken.isQuiet, later.quiet⟩⟩
  rw [wording, List.filter_cons, if_pos spoken.isWording]
  exact .cons rfl later.fits

/-- The dot behind a path segment fills the gap there. -/
theorem cons_dot (isDot : token.isOperator .dot = true) (later : Retold rest entries) :
    Retold (token :: rest) (none :: entries) := by
  have spoken := Token.isSpoken_of_isOperator isDot
  refine ⟨?_, List.forall_mem_cons.mpr ⟨spoken.isQuiet, later.quiet⟩⟩
  rw [wording, List.filter_cons, if_pos spoken.isWording]
  exact .cons isDot later.fits

theorem singleton (spoken : token.IsSpoken) : Retold [token] [some token] :=
  .cons spoken .nil

theorem own {kind : NodeKind} (spoken : token.IsSpoken) (notSegment : kind ≠ .pathSegment) :
    Retold [token] (Node.ownWording kind token) := by
  rw [Node.ownWording_of_isWording spoken.isWording, if_neg notSegment]
  exact singleton spoken

theorem leaf {kind : NodeKind} (spoken : token.IsSpoken) (notSegment : kind ≠ .pathSegment) :
    Retold [token] (Node.leaf kind token).sourceWording := by
  rw [Node.sourceWording_leaf]
  exact own spoken notSegment

/-- The nodes of a list are told by a node that is made for them. -/
theorem tagged {kind : NodeKind} {anchor : Token} {children : List Node}
    (told : Retold text (Node.sourceWordingAll children)) (notSegment : kind ≠ .pathSegment) :
    Retold text (Node.tagged kind anchor children).sourceWording := by
  rw [Node.sourceWording_tagged notSegment]
  exact told

/-- A node is told as the only one of a list. -/
theorem child {node : Node} (told : Retold text node.sourceWording) :
    Retold text (Node.sourceWordingAll [node]) := by
  rw [Node.sourceWordingAll_cons, Node.sourceWordingAll_nil, List.append_nil]
  exact told

theorem pair {opener closer : Token} {bracket : Bracket} (opens : opener.opens? = some bracket)
    (within : Retold text entries) (closes : closer.closes? = some bracket)
    (later : Retold rest others) :
    Retold (opener :: (text ++ closer :: rest)) (entries ++ others) :=
  .cons_silent (Token.isWording_of_opens? opens)
    (within.append (.cons_silent (Token.isWording_of_closes? closes) later))

theorem bracketed {opener closer : Token} {bracket : Bracket} (opens : opener.opens? = some bracket)
    (within : Retold text entries) (closes : closer.closes? = some bracket) :
    Retold (opener :: (text ++ [closer])) entries := by
  simpa using Retold.pair opens within closes .nil

/-- Where nothing is joined the text is recounted as it is. -/
theorem recounted (retold : Retold text entries) : Recounted text entries :=
  fun _ _ => ⟨text, joinedFrom_append_of_isQuiet retold.quiet, retold.fits⟩

end Retold

namespace Recounted

variable {text rest : List Token} {entries others : List (Option Token)} {token : Token}

theorem append (first : Recounted text entries) (second : Recounted rest others)
    (ends : ∀ {following}, EndsArguments following → EndsArguments (rest ++ following)) :
    Recounted (text ++ rest) (entries ++ others) := by
  intro following boundary
  obtain ⟨told, join, fits⟩ := first (rest ++ following) (ends boundary)
  obtain ⟨later, laterJoin, laterFits⟩ := second following boundary
  refine ⟨told ++ later, ?_, ?_⟩
  · rw [List.append_assoc, join, laterJoin, List.append_assoc]
  · rw [wording_append]
    exact List.rel_append fits laterFits

/-- A text in which nothing is joined may have anything behind it. -/
theorem append_of_retold (first : Retold text entries) (second : Recounted rest others) :
    Recounted (text ++ rest) (entries ++ others) := by
  intro following boundary
  obtain ⟨told, join, fits⟩ := second following boundary
  refine ⟨text ++ told, ?_, ?_⟩
  · rw [List.append_assoc, joinedFrom_append_of_isQuiet first.quiet, join, List.append_assoc]
  · rw [wording_append]
    exact List.rel_append first.fits fits

theorem cons_silent (silent : token.isWording = false) (later : Recounted rest entries) :
    Recounted (token :: rest) entries :=
  append_of_retold (.cons_silent silent .nil) later

/-- The whole of a text is recounted. -/
theorem joined_fits (recounted : Recounted text entries) :
    List.Forall₂ Fits entries (wording (joined text)) := by
  obtain ⟨told, join, fits⟩ := recounted [] (by simp [EndsArguments])
  rw [List.append_nil, joinedFrom, List.append_nil] at join
  rw [joined, join]
  exact fits

end Recounted

end TnslReader
