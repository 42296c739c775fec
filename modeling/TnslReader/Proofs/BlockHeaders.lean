import TnslReader.Proofs.HeaderOrigins

/-!
Contract: the header of a block is unambiguous, and the name of the block is what it names.

A header falls into pieces, which are its children with the tokens that each stands for. What a
header is read with at some place is what the pieces before it show, and that says which piece may
come next. So a flag that is set by pieces of some sort, and that no piece of the sort may find set,
lets one such piece pass.

The name of a block goes by the children of its header alone. It finds the piece that the reading of
the header took for a name.

Owns: the pieces of headers, and which of them there may be together.
-/

set_option autoImplicit false

namespace TnslReader

open Node (Conforms allOf_of_shaped)

/-! ### Children of headers -/

def NodeKind.isList : NodeKind → Bool
  | .parameterList | .typeList | .statementList => true
  | _ => false

def Keyword.takesOperand : Keyword → Bool
  | .operatorWord | .moduleWord | .methodWord => true
  | _ => false

namespace Node

/-- Whether the text of the node is that of a word that has an operand behind it in a header. -/
def takesOperand (node : Node) : Bool :=
  (Keyword.ofSpelling? node.text).any (·.takesOperand)

def isControlWord (node : Node) : Bool :=
  node.kind == .keyword && (Keyword.ofSpelling? node.text).any (·.isControl)

/-- Whether the child of a header names the block: a user word does, and so do a control keyword and
a keyword with an operand. -/
def namesBlock (child : Node) : Bool :=
  child.kind == .identifier || child.isControlWord ||
    (child.kind == .keyword && !child.children.isEmpty)

/-- What a child that names the block has for a name: the text of its operand, or its own. -/
def givenName (child : Node) : String :=
  (child.children.head?.getD child).text

/-- A child that conforms gives its name if it names the block, and none otherwise. -/
theorem Conforms.naming?_eq {child : Node} (conforms : child.Conforms) :
    child.naming? = if child.namesBlock then some child.givenName else none := by
  obtain ⟨kind, token, children⟩ := child
  cases kind
  case identifier =>
    obtain rfl : children = [] := conforms
    rfl
  case keyword =>
    obtain rfl | ⟨operand, rfl, -⟩ := conforms
    · cases found : Keyword.ofSpelling? token.text <;>
        simp [naming?, namesBlock, isControlWord, givenName, Node.text, found]
    · simp [naming?, namesBlock, givenName]
  all_goals rfl

/-- The first name among children that conform is that of the first child that names the block. -/
theorem findSome?_naming? {children : List Node} (conform : ∀ child ∈ children, child.Conforms) :
    children.findSome? naming? = (children.find? (·.namesBlock)).map (·.givenName) := by
  induction children with
  | nil => rfl
  | cons child later inductionHypothesis =>
      obtain ⟨here, conform⟩ := List.forall_mem_cons.mp conform
      rw [List.findSome?_cons, List.find?_cons, here.naming?_eq, inductionHypothesis conform]
      cases child.namesBlock <;> rfl

end Node

/-! ### Pieces of headers -/

structure HeaderPiece where
  text : List Token
  child : Node

def HeaderPiece.isListAt (bracket : Bracket) (piece : HeaderPiece) : Bool :=
  piece.child.kind.isList && piece.text.head?.any fun opener =>
    opener.opens? == some bracket && piece.child.token == .tag piece.child.kind.tag opener

namespace HeaderState

def behind (state : HeaderState) (piece : HeaderPiece) : HeaderState where
  named := state.named || piece.child.namesBlock
  control := state.control || piece.child.isControlWord
  hasRound := state.hasRound || piece.isListAt .round
  hasSquare := state.hasSquare || piece.isListAt .square

structure Admits (state : HeaderState) (piece : HeaderPiece) : Prop where
  unnamed : piece.child.namesBlock = true → state.named = false
  freshRound : piece.isListAt .round = true → state.hasRound = false
  freshSquare : piece.isListAt .square = true → state.hasSquare = false
  anchored : piece.child.kind.isList = true →
    piece.isListAt .round = true ∨ piece.isListAt .square = true
  controlled : piece.child.kind = .valueStatement → state.control = true
  operand : piece.child.kind = .keyword →
    piece.child.children.isEmpty = !piece.child.takesOperand

end HeaderState

/-- `HeaderRun state pieces`: the pieces of a header from some place on. A condition comes last. -/
inductive HeaderRun : HeaderState → List HeaderPiece → Prop where
  | done {state : HeaderState} : HeaderRun state []
  | more {state : HeaderState} {piece : HeaderPiece} {pieces : List HeaderPiece}
      (admits : state.Admits piece) (ends : piece.child.kind = .valueStatement → pieces = [])
      (later : HeaderRun (state.behind piece) pieces) : HeaderRun state (piece :: pieces)

/-- What pieces of a header there may be together. -/
structure Unambiguous (pieces : List HeaderPiece) : Prop where
  /-- At most one child names the block. -/
  names : pieces.countP (·.child.namesBlock) ≤ 1
  /-- At most one list is anchored at a round bracket. -/
  roundLists : pieces.countP (·.isListAt .round) ≤ 1
  /-- At most one list is anchored at a square bracket. -/
  squareLists : pieces.countP (·.isListAt .square) ≤ 1
  /-- Every list is anchored at one or the other. -/
  anchored : ∀ piece ∈ pieces, piece.child.kind.isList = true →
    piece.isListAt .round = true ∨ piece.isListAt .square = true
  /-- A keyword has an operand if it is `operator`, `module` or `method`, and none otherwise. -/
  operands : ∀ piece ∈ pieces, piece.child.kind = .keyword →
    piece.child.children.isEmpty = !piece.child.takesOperand
  /-- There is at most one condition. -/
  conditions : pieces.countP (·.child.kind == .valueStatement) ≤ 1
  /-- A condition stands behind a control keyword, with nothing behind it. -/
  condition : ∀ before piece behind, pieces = before ++ piece :: behind →
    piece.child.kind = .valueStatement →
      behind = [] ∧ ∃ word ∈ before, word.child.isControlWord = true

namespace HeaderRun

variable {state : HeaderState} {pieces : List HeaderPiece}

/-- A flag that pieces of some sort set, and that none of the sort may find set, lets one pass. -/
theorem countP_le {sort : HeaderPiece → Bool} {flag : HeaderState → Bool}
    (needs : ∀ {state : HeaderState} {piece : HeaderPiece}, state.Admits piece →
      sort piece = true → flag state = false)
    (sets : ∀ state piece, flag (state.behind piece) = (flag state || sort piece))
    (run : HeaderRun state pieces) : pieces.countP sort + (flag state).toNat ≤ 1 := by
  induction run with
  | done =>
      rw [List.countP_nil, Nat.zero_add]
      exact Bool.toNat_le _
  | @more state piece pieces admits _ _ inductionHypothesis =>
      rw [sets] at inductionHypothesis
      rw [List.countP_cons]
      cases ofSort : sort piece with
      | true =>
          rw [needs admits ofSort]
          simpa [ofSort] using inductionHypothesis
      | false => simpa [ofSort] using inductionHypothesis

/-- What holds of every piece that is admitted holds of all. -/
theorem forall_mem {property : HeaderPiece → Prop}
    (admitted : ∀ {state : HeaderState} {piece : HeaderPiece}, state.Admits piece → property piece)
    (run : HeaderRun state pieces) : ∀ piece ∈ pieces, property piece := by
  induction run with
  | done => exact List.forall_mem_nil _
  | more admits _ _ inductionHypothesis =>
      exact List.forall_mem_cons.mpr ⟨admitted admits, inductionHypothesis⟩

theorem conditions (run : HeaderRun state pieces) :
    pieces.countP (·.child.kind == .valueStatement) ≤ 1 := by
  induction run with
  | done => exact Nat.zero_le 1
  | @more _ piece _ _ ends _ inductionHypothesis =>
      by_cases isCondition : piece.child.kind = .valueStatement
      · rw [ends isCondition]
        exact List.countP_le_length
      · rwa [List.countP_cons_of_neg (by simpa using isCondition)]

/-- Before a condition there is a control keyword, unless one was found before the pieces. -/
theorem condition (run : HeaderRun state pieces) : ∀ before piece behind,
    pieces = before ++ piece :: behind → piece.child.kind = .valueStatement →
      behind = [] ∧ (state.control = true ∨ ∃ word ∈ before, word.child.isControlWord = true) := by
  induction run with
  | done =>
      intro before piece behind split
      simp at split
  | @more state first pieces admits ends _ inductionHypothesis =>
      intro before piece behind split isCondition
      cases before with
      | nil =>
          obtain ⟨rfl, rfl⟩ := List.cons.inj split
          exact ⟨ends isCondition, .inl (admits.controlled isCondition)⟩
      | cons _ before =>
          obtain ⟨rfl, laterSplit⟩ := List.cons.inj split
          obtain ⟨isLast, found⟩ := inductionHypothesis before piece behind laterSplit isCondition
          refine ⟨isLast, ?_⟩
          -- The first piece may be what the state behind it has the control keyword from.
          simp only [HeaderState.behind, Bool.or_eq_true] at found
          rcases found with (control | isWord) | ⟨word, member, isWord⟩
          · exact .inl control
          · exact .inr ⟨first, List.mem_cons_self, isWord⟩
          · exact .inr ⟨word, List.mem_cons_of_mem _ member, isWord⟩

/-- The pieces of a whole header are unambiguous. -/
theorem unambiguous (run : HeaderRun .empty pieces) : Unambiguous pieces where
  names := run.countP_le HeaderState.Admits.unnamed fun _ _ => rfl
  roundLists := run.countP_le HeaderState.Admits.freshRound fun _ _ => rfl
  squareLists := run.countP_le HeaderState.Admits.freshSquare fun _ _ => rfl
  anchored := run.forall_mem HeaderState.Admits.anchored
  operands := run.forall_mem HeaderState.Admits.operand
  conditions := run.conditions
  condition := by
    intro before piece behind split isCondition
    obtain ⟨isLast, control | found⟩ := run.condition before piece behind split isCondition
    · cases control
    · exact ⟨isLast, found⟩

end HeaderRun

/-! ### Headers fall into pieces -/

def HeaderState.Takes (state : HeaderState) (piece : HeaderPiece) (next : HeaderState) : Prop :=
  state.Admits piece ∧ state.behind piece = next

variable {depth chain : Nat} {state next : HeaderState} {text rest : List Token} {node : Node}

/-- A piece that is no list changes neither flag of lists. -/
theorem HeaderState.takes_of_isList_eq_false (noList : node.kind.isList = false)
    (unnamed : node.namesBlock = true → state.named = false)
    (controlled : node.kind = .valueStatement → state.control = true)
    (operand : node.kind = .keyword → node.children.isEmpty = !node.takesOperand) :
    state.Takes ⟨text, node⟩ { state with
      named := state.named || node.namesBlock
      control := state.control || node.isControlWord } := by
  have nowhere (bracket : Bracket) : HeaderPiece.isListAt bracket ⟨text, node⟩ = false := by
    simp [HeaderPiece.isListAt, noList]
  refine ⟨⟨unnamed, ?_, ?_, ?_, controlled, operand⟩, ?_⟩
  · simp [nowhere]
  · simp [nowhere]
  · simp [noList]
  · simp [HeaderState.behind, nowhere]

/-- A list is taken if none has been found in such brackets. -/
theorem HeaderState.takes_list {kind : NodeKind} {bracket : Bracket} {opener : Token}
    {nodes : List Node} (isList : kind.isList = true) (listable : bracket ≠ .curly)
    (fresh : state.hasList bracket = false) (opens : opener.opens? = some bracket) :
    state.Takes ⟨opener :: text, .tagged kind opener nodes⟩ (state.withList bracket) := by
  have isListAt (other : Bracket) :
      HeaderPiece.isListAt other ⟨opener :: text, .tagged kind opener nodes⟩ =
        (bracket == other) := by
    simp [HeaderPiece.isListAt, Node.tagged, isList, opens]
  have noWord : (Node.tagged kind opener nodes).isControlWord = false := by
    cases kind <;> rfl
  have noName : (Node.tagged kind opener nodes).namesBlock = false := by
    cases kind <;> first | rfl | cases isList
  have noCondition : kind ≠ .valueStatement := by
    rintro rfl
    cases isList
  have noKeyword : kind ≠ .keyword := by
    rintro rfl
    cases isList
  refine ⟨⟨by simp [noName], ?_, ?_, ?_, fun isCondition => absurd isCondition noCondition,
    fun isKeyword => absurd isKeyword noKeyword⟩, ?_⟩
  · rw [isListAt]
    exact fun isRound => by rwa [eq_of_beq isRound] at fresh
  · rw [isListAt]
    exact fun isSquare => by rwa [eq_of_beq isSquare] at fresh
  · simp only [isListAt]
    cases bracket <;> simp at listable ⊢
  · simp only [HeaderState.behind, noName, noWord, isListAt, Bool.or_false]
    cases bracket <;> simp [HeaderState.withList] at listable ⊢

theorem HeaderListText.takes {control : Bool} {bracket : Bracket} {opener closer : Token}
    (listed : HeaderListText depth chain control bracket text opener node)
    (listable : bracket ≠ .curly) (fresh : state.hasList bracket = false)
    (opens : opener.opens? = some bracket) :
    state.Takes ⟨opener :: (text ++ [closer]), node⟩ (state.withList bracket) := by
  cases listed with
  | statements | parameters | types =>
      exact HeaderState.takes_list rfl listable fresh opens

theorem HeaderListText.ne_valueStatement {control : Bool} {bracket : Bracket} {opener : Token}
    (listed : HeaderListText depth chain control bracket text opener node) :
    node.kind ≠ .valueStatement := by
  cases listed <;> exact NodeKind.noConfusion

/-- A keyword names its block if it is a control keyword or has an operand. -/
theorem HeaderState.takes_keyword {token : Token} {word : Keyword} {operands : List Node}
    (spelled : token.text = word.spelling)
    (fits : operands.isEmpty = !word.takesOperand)
    (unnamed : word.isControl = true ∨ operands ≠ [] → state.named = false) :
    state.Takes ⟨text, ⟨.keyword, token, operands⟩⟩ { state with
      named := state.named || (word.isControl || !operands.isEmpty)
      control := state.control || word.isControl } := by
  have controls : Node.isControlWord ⟨.keyword, token, operands⟩ = word.isControl := by
    simp [Node.isControlWord, Node.text, spelled, Keyword.ofSpelling?_spelling]
  have names : Node.namesBlock ⟨.keyword, token, operands⟩ =
      (word.isControl || !operands.isEmpty) := by
    rw [Node.namesBlock, controls]
    rfl
  rw [← names, ← controls]
  apply HeaderState.takes_of_isList_eq_false rfl
  · rw [names]
    simpa using unnamed
  · exact NodeKind.noConfusion
  · intro _
    rw [fits, Node.takesOperand, Node.text, spelled, Keyword.ofSpelling?_spelling, Option.any_some]

/-- A user word names its block. -/
theorem HeaderState.takes_name {token : Token} (unnamed : state.named = false) :
    state.Takes ⟨text, .leaf .identifier token⟩ state.withName := by
  have taken := @HeaderState.takes_of_isList_eq_false state text (.leaf .identifier token) rfl
    (fun _ => unnamed) NodeKind.noConfusion NodeKind.noConfusion
  have names : (Node.leaf .identifier token).namesBlock = true := rfl
  have noWord : (Node.leaf .identifier token).isControlWord = false := rfl
  rwa [names, noWord, Bool.or_true, Bool.or_false] at taken

theorem HeaderWordText.takes (worded : HeaderWordText state text rest node next) :
    state.Takes ⟨text, node⟩ next := by
  cases worded with
  | @modifier token word _ isWord modifies =>
      have plain : word.isControl = false ∧ word.takesOperand = false := by
        cases word <;> first | exact ⟨rfl, rfl⟩ | cases modifies
      simpa [plain, Node.leaf] using @HeaderState.takes_keyword state [token] token word []
        (Token.text_of_isKeyword isWord) (by simp [plain]) (by simp [plain])
  | @elseIf token next _ unnamed isElse isIf =>
      simpa [Keyword.isControl, HeaderState.withControl, Node.leaf] using
        @HeaderState.takes_keyword state [token, next]
          (token.respelled .keyword Keyword.elifWord.spelling) .elifWord [] rfl rfl fun _ => unnamed
  | @control token word _ unnamed isWord controls =>
      have alone : word.takesOperand = false := by
        cases word <;> first | rfl | cases controls
      simpa [controls, HeaderState.withControl, Node.leaf] using
        @HeaderState.takes_keyword state [token] token word [] (Token.text_of_isKeyword isWord)
          (by simp [alone]) fun _ => unnamed
  | @operator token operator _ unnamed isWord =>
      simpa [Keyword.isControl, HeaderState.withName] using
        @HeaderState.takes_keyword state [token, operator] token .operatorWord
          [.leaf .operatorName operator] (Token.text_of_isKeyword isWord) rfl fun _ => unnamed
  | @name token name word _ unnamed isWord names =>
      have plain : word.isControl = false ∧ word.takesOperand = true := by
        obtain rfl | rfl := names <;> exact ⟨rfl, rfl⟩
      simpa [plain, HeaderState.withName] using
        @HeaderState.takes_keyword state [token, name] token word [.leaf .identifier name]
          (Token.text_of_isKeyword isWord) (by simp [plain]) fun _ => unnamed

-- The words of a header take a state of its own as an index, so the cases are gone through here,
-- where the states are variables.
theorem HeaderWordText.kind_eq (worded : HeaderWordText state text rest node next) :
    node.kind = .keyword := by
  cases worded <;> rfl

/-- One more piece in front of those of the rest of a header. -/
theorem HeaderRun.cons {piece : HeaderPiece} {pieces : List HeaderPiece}
    (takes : state.Takes piece next) (goesOn : piece.child.kind ≠ .valueStatement)
    (later : HeaderRun next pieces) : HeaderRun state (piece :: pieces) := by
  obtain ⟨admits, rfl⟩ := takes
  exact .more admits (fun isCondition => absurd isCondition goesOn) later

/-- A header falls into pieces, which are taken one behind the other. -/
theorem HeaderText.exists_pieces {nodes : List Node}
    (headed : HeaderText depth chain state text nodes) :
    ∃ pieces : List HeaderPiece, (pieces.map (·.text)).flatten = text ∧
      pieces.map (·.child) = nodes ∧ HeaderRun state pieces := by
  induction headed with
  | done => exact ⟨[], rfl, rfl, .done⟩
  | @list state bracket opener closer text _ node _ listable fresh opens listed _ _
      inductionHypothesis =>
      obtain ⟨pieces, rfl, rfl, run⟩ := inductionHypothesis
      refine ⟨⟨opener :: (text ++ [closer]), node⟩ :: pieces, by simp, rfl,
        .cons (listed.takes listable fresh opens) ?_ run⟩
      exact listed.ne_valueStatement
  | @name state token _ _ unnamed _ _ _ inductionHypothesis =>
      obtain ⟨pieces, rfl, rfl, run⟩ := inductionHypothesis
      exact ⟨⟨[token], .leaf .identifier token⟩ :: pieces, rfl, rfl,
        .cons (HeaderState.takes_name unnamed) NodeKind.noConfusion run⟩
  | @word state next text _ node _ worded _ inductionHypothesis =>
      obtain ⟨pieces, rfl, rfl, run⟩ := inductionHypothesis
      refine ⟨⟨text, node⟩ :: pieces, rfl, rfl, .cons worded.takes ?_ run⟩
      rw [worded.kind_eq]
      exact NodeKind.noConfusion
  | @condition state anchor _ text node controlled _ begins =>
      refine ⟨[⟨text, .tagged .valueStatement anchor [node]⟩], by simp, rfl, ?_⟩
      obtain ⟨admits, -⟩ := @HeaderState.takes_of_isList_eq_false state text
        (.tagged .valueStatement anchor [node]) rfl Bool.noConfusion (fun _ => controlled)
          NodeKind.noConfusion
      exact .more admits (fun _ => rfl) .done

/-! ### Blocks of a tree -/

theorem Node.header?_eq_some {header : Node} (isBlock : node.kind = .block)
    (isFirst : node.children.head? = some header) (isHeader : header.kind = .header) :
    node.header? = some header := by
  obtain ⟨kind, token, children⟩ := node
  obtain ⟨items, rfl⟩ := List.head?_eq_some_iff.mp isFirst
  obtain rfl : kind = .block := isBlock
  simp [header?, isHeader]

/-- `node.HasHeader tokens header`: the header is that of the node. It was read without ambiguity
from tokens that stand together behind the node's marker, and it names the node. -/
structure Node.HasHeader (tokens : List Token) (node header : Node) : Prop where
  heads : node.header? = some header
  unambiguous : ∃ marker pieces, node.token = .tag node.kind.tag marker ∧
    header.token = .tag header.kind.tag marker ∧ header.children = pieces.map HeaderPiece.child ∧
    marker :: (pieces.map HeaderPiece.text).flatten <:+: tokens ∧ Unambiguous pieces
  name : node.blockName? = (header.children.find? (·.namesBlock)).map (·.givenName)

/-- `node.Headed tokens`: if the node is a block, it has a header. -/
def Node.Headed (tokens : List Token) (node : Node) : Prop :=
  node.kind = .block → ∃ header, node.HasHeader tokens header

variable {tokens : List Token}

/-- A block has the header that is read behind its marker, whatever items it has. -/
theorem HeaderText.headed {marker : Token} {children items : List Node}
    (heading : HeaderText depth chain .empty text children) (within : marker :: text <:+: tokens) :
    (Node.tagged .block marker (.tagged .header marker children :: items)).Headed tokens := by
  intro _
  obtain ⟨pieces, rfl, rfl, run⟩ := heading.exists_pieces
  exact ⟨.tagged .header marker _, rfl, ⟨marker, pieces, rfl, rfl, rfl, within, run.unambiguous⟩,
    Node.findSome?_naming? fun child member => (heading.shaped child member).2.here⟩

theorem heldByHeaders_headed : HeldByHeaders tokens (Node.Headed tokens) where
  block heading within := heading.headed within
  header _ _ := NodeKind.noConfusion
  other notBlock _ isBlock := absurd isBlock notBlock

theorem ItemsText.headed {depth chain : Nat} {text : List Token} {nodes : List Node}
    (within : text <:+: tokens) (items : ItemsText depth chain text nodes) :
    ∀ node ∈ nodes, node.Everywhere (Node.Headed tokens) :=
  items.everywhere heldByHeaders_headed within

/-- No header is a root. Every other header in a tree that is read is that of a block, is
unambiguous, and names the block. -/
theorem readTree_headers {tokens : Array Token} {label : String} {limits : Limits} {root : Node}
    (read : readTree tokens label limits = .ok root) :
    root.kind = .root ∧ ∀ entry ∈ root.preorder, ∀ header ∈ entry.2.children,
      header.kind = .header → entry.2.HasHeader tokens.toList header := by
  obtain ⟨items, rfl, file⟩ := itemsText_of_readTree read
  have conforms : Node.Everywhere Conforms ⟨.root, .root label, items⟩ :=
    Node.everywhere_mk.mpr ⟨allOf_of_shaped file.shaped, fun item member =>
      (file.shaped item member).2⟩
  have headed : Node.Everywhere (Node.Headed tokens.toList) ⟨.root, .root label, items⟩ :=
    Node.everywhere_mk.mpr ⟨NodeKind.noConfusion, file.headed List.infix_rfl⟩
  refine ⟨rfl, fun entry member header child isHeader => ?_⟩
  have entryConforms := Node.everywhere_iff_preorder.mp conforms entry member
  obtain ⟨isBlock, isFirst⟩ := entryConforms.head?_of_header child isHeader
  obtain ⟨other, has⟩ := Node.everywhere_iff_preorder.mp headed entry member isBlock
  have heads := Node.header?_eq_some isBlock isFirst isHeader
  obtain rfl : other = header := Option.some.inj (has.heads.symm.trans heads)
  exact has

/-- The tokens of `/; raw else if (n) m ;/`. -/
def joinedCondition : Array Token :=
  #[⟨.delimiter, "/;", 1, 1, ⟨0, 2⟩⟩, ⟨.keyword, "raw", 1, 4, ⟨3, 6⟩⟩,
    ⟨.keyword, "else", 1, 8, ⟨7, 11⟩⟩, ⟨.keyword, "if", 1, 13, ⟨12, 14⟩⟩,
    ⟨.delimiter, "(", 1, 16, ⟨15, 16⟩⟩, ⟨.userWord, "n", 1, 17, ⟨16, 17⟩⟩,
    ⟨.delimiter, ")", 1, 18, ⟨17, 18⟩⟩, ⟨.userWord, "m", 1, 20, ⟨19, 20⟩⟩,
    ⟨.delimiter, ";/", 1, 22, ⟨21, 23⟩⟩]

def joinedConditionHeader : Node :=
  .tagged .header joinedCondition[0]
    [.leaf .keyword joinedCondition[1],
      .leaf .keyword (joinedCondition[2].respelled .keyword "elif"),
      .tagged .statementList joinedCondition[4]
        [.tagged .valueStatement joinedCondition[5] [.leaf .identifier joinedCondition[5]]],
      .tagged .valueStatement joinedCondition[7] [.leaf .identifier joinedCondition[7]]]

def joinedConditionBlock : Node :=
  .tagged .block joinedCondition[0] [joinedConditionHeader]

/-- A modifier does not name the block, but the keyword behind it does, which two words make up. -/
theorem readTree_headers_joinedCondition :
    readTree joinedCondition "file" .standard =
        .ok ⟨.root, .root "file", [joinedConditionBlock]⟩ ∧
      joinedConditionBlock.HasHeader joinedCondition.toList joinedConditionHeader ∧
      joinedConditionBlock.blockName? = some "elif" := by
  have read : readTree joinedCondition "file" .standard =
      .ok ⟨.root, .root "file", [joinedConditionBlock]⟩ := by decide +kernel
  refine ⟨read, ?_, by decide +kernel⟩
  exact (readTree_headers read).2 (1, joinedConditionBlock) (by decide +kernel)
    joinedConditionHeader List.mem_cons_self rfl

end TnslReader
