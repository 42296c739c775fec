import TnslReader.Proofs.FilePlaces
import TnslReader.Proofs.SectionSoundness
import TnslReader.Proofs.ValueOrder

/-!
Contract: a file that is read is told by its tree, word by word.

Nothing is joined in a statement, so statements are told like values. A header joins its `else if`,
and the arguments of a directive join nothing, so from here on it matters what comes behind a text:
an item begins with a separator or a marker, and so does whatever comes behind a header.

The main result is `readTree_tells`: the wording of the tree is that of the file, with every
`else if` of a header joined and with gaps for the dots of type names.
-/

set_option autoImplicit false

namespace TnslReader

open Node (sourceWordingAll sourceWordingAll_append sourceWording_mk
  sourceWording_mk_cons sourceWording_mk_of_standsBehind)

/-! ### Statements -/

section Statements

variable {depth chain : Nat} {text : List Token} {node : Node} {nodes : List Node}

theorem SimpleText.retold (simple : SimpleText depth chain text node) :
    Retold text node.sourceWording := by
  cases simple with
  | definition typed listed _ _ _ _ =>
      exact (typed.retold.append (listed.retold.tagged (by decide)).child).tagged (by decide)
  | value valued _ => exact valued.retold.child.tagged (by decide)

/-- A name that is the only child of a node. -/
theorem retold_name {name : Token} (isWord : name.tokenClass = .userWord) :
    Retold [name] (sourceWordingAll [.leaf .identifier name]) :=
  (Retold.leaf (Token.isSpoken_of_userWord isWord) (by decide)).child

theorem ParameterText.retold {typed : Bool}
    (parameter : ParameterText depth chain typed text nodes) :
    Retold text (sourceWordingAll nodes) := by
  cases parameter with
  | name _ isWord => exact retold_name isWord
  | typed isType isWord => exact isType.retold.append (retold_name isWord)

theorem ParametersText.retold {typed : Bool}
    (listed : ParametersText depth chain typed text nodes) :
    Retold text (sourceWordingAll nodes) := by
  induction listed with
  | last parameter => exact parameter.retold
  | more parameter isComma _ inductionHypothesis =>
      rw [sourceWordingAll_append]
      exact parameter.retold.append
        (.cons_silent (Token.isWording_of_isComma isComma) inductionHypothesis)

theorem ParameterListText.retold (listed : ParameterListText depth chain text nodes) :
    Retold text (sourceWordingAll nodes) := by
  cases listed with
  | none => exact .nil
  | some listed => exact listed.retold

theorem Token.isWording_of_separatesStatements {token : Token}
    (separates : token.separatesStatements = true) : token.isWording = false := by
  rcases Bool.or_eq_true_iff.mp separates with isComma | isSemicolon
  · exact isWording_of_isComma isComma
  · exact isWording_of_isLineSeparator isSemicolon

theorem StatementsText.retold (listed : StatementsText depth chain text nodes) :
    Retold text (sourceWordingAll nodes) := by
  induction listed with
  | none => exact .nil
  | last simple => exact simple.retold.child
  | missing separates _ inductionHypothesis =>
      exact .cons_silent (Token.isWording_of_separatesStatements separates) inductionHypothesis
  | more simple separates _ inductionHypothesis =>
      exact simple.retold.append
        (.cons_silent (Token.isWording_of_separatesStatements separates) inductionHypothesis)

theorem SuperTypesText.retold (supers : SuperTypesText depth chain text nodes) :
    Retold text (sourceWordingAll nodes) := by
  cases supers with
  | none => exact .nil
  | listed opens values closes =>
      exact ((Retold.bracketed opens values.retold closes).tagged (by decide)).child

theorem BaseTypeText.retold (based : BaseTypeText depth chain text nodes) :
    Retold text (sourceWordingAll nodes) := by
  cases based with
  | none => exact .nil
  | type opens typed closes => exact (Retold.bracketed opens typed.retold closes).child

/-- A keyword with what belongs to it is told by a node that stands before all of its children. -/
theorem retold_keyword {keyword : Token} {word : Keyword} {kind : NodeKind} {rest : List Token}
    {children : List Node} (isKeyword : keyword.isKeyword word = true) (notElse : word ≠ .elseWord)
    (before : ∀ first, Node.standsBehind kind first = false) (notSegment : kind ≠ .pathSegment)
    (later : Retold rest (sourceWordingAll children)) :
    Retold (keyword :: rest) (Node.mk kind keyword children).sourceWording := by
  rw [sourceWording_mk before]
  exact (Retold.own (Token.isSpoken_of_isKeyword isKeyword notElse) notSegment).append later

/-- Quoted texts are literals, and are told by their leaves. -/
theorem retold_quoted {texts : List Token} (quoted : ∀ text ∈ texts, text.isQuotedText = true) :
    Retold texts (sourceWordingAll (texts.map (.leaf .literal))) := by
  induction texts with
  | nil => exact .nil
  | cons text texts inductionHypothesis =>
      obtain ⟨here, later⟩ := List.forall_mem_cons.mp quoted
      have isLiteral := Token.tokenClass_of_isQuotedText here
      exact (Retold.leaf (Token.isSpoken_of_literal isLiteral) (by decide)).append
        (inductionHypothesis later)

theorem KeywordText.retold (worded : KeywordText depth chain text node) :
    Retold text node.sourceWording := by
  cases worded with
  | @struct keyword name opener closer _ _ memberText superNodes members modified isStruct isWord supers opens
      listed closes =>
      have own : Retold [keyword] (Node.ownWording .structStatement keyword) :=
        .own (Token.isSpoken_of_isKeyword isStruct (by decide)) (by decide)
      have list : Retold (opener :: (memberText ++ [closer]))
          (Node.tagged .parameterList opener members).sourceWording :=
        (Retold.bracketed opens listed.retold closes).tagged (by decide)
      have later := (retold_name isWord).append (supers.retold.append list.child)
      rw [← sourceWordingAll_append, ← sourceWordingAll_append] at later
      rcases modified with rfl | ⟨raw, isRaw, rfl⟩
      · simp only [List.map_nil, List.nil_append, List.cons_append]
        rw [sourceWording_mk_cons rfl]
        exact own.append later
      · have isModifier : Retold [raw] (Node.leaf .keyword raw).sourceWording :=
          .leaf (Token.isSpoken_of_isKeyword isRaw (by decide)) (by decide)
        simp only [List.map_singleton, List.cons_append, List.nil_append]
        rw [sourceWording_mk_of_standsBehind rfl, List.append_assoc]
        exact isModifier.append (own.append later)
  | @enum keyword name opener closer _ valueText _ values isEnum isWord based opens listed closes =>
      have list : Retold (opener :: (valueText ++ [closer]))
          (Node.tagged .valueList opener values).sourceWording :=
        (Retold.bracketed opens listed.retold closes).tagged (by decide)
      have later := (retold_name isWord).append (based.retold.append list.child)
      rw [← sourceWordingAll_append, ← sourceWordingAll_append] at later
      exact retold_keyword isEnum (by decide) (fun _ => rfl) (by decide) later
  | @naming _ _ word _ isKeyword names isWord =>
      cases word <;> cases names <;>
        exact retold_keyword isKeyword (by decide) (fun _ => rfl) (by decide) (retold_name isWord)
  | @looping _ word _ isKeyword loops =>
      cases word <;> cases loops <;>
        exact retold_keyword isKeyword (by decide) (fun _ => rfl) (by decide) .nil
  | @loopingTimes _ count word _ isKeyword loops isLiteral _ =>
      have countTold : Retold [count] (Node.leaf .literal count).sourceWording :=
        .leaf (Token.isSpoken_of_literal isLiteral) (by decide)
      cases word <;> cases loops <;>
        exact retold_keyword isKeyword (by decide) (fun _ => rfl) (by decide) countTold.child
  | returning isReturn => exact retold_keyword isReturn (by decide) (fun _ => rfl) (by decide) .nil
  | returningValue isReturn valued =>
      exact retold_keyword isReturn (by decide) (fun _ => rfl) (by decide) valued.retold.child
  | @memory _ anchor word _ text node nodes isKeyword isMemory listed _ =>
      have list : Retold text (Node.tagged .valueList anchor (node :: nodes)).sourceWording :=
        listed.retold.tagged (by decide)
      cases word <;> cases isMemory <;>
        exact retold_keyword isKeyword (by decide) (fun _ => rfl) (by decide) list.child
  | asm isAsm quoted _ =>
      exact retold_keyword isAsm (by decide) (fun _ => rfl) (by decide) (retold_quoted quoted)

theorem StatementText.retold (stated : StatementText depth chain text node) :
    Retold text node.sourceWording := by
  cases stated with
  | keyword worded => exact worded.retold
  | simple simple => exact simple.retold

end Statements

/-! ### Headers -/

theorem HeaderListText.retold {depth chain : Nat} {control : Bool} {bracket : Bracket}
    {text : List Token} {opener : Token} {node : Node}
    (listed : HeaderListText depth chain control bracket text opener node) :
    Retold text node.sourceWording := by
  cases listed with
  | statements listed => exact listed.retold.tagged (by decide)
  | parameters listed => exact listed.retold.tagged (by decide)
  | types listed => exact listed.retold.tagged (by decide)

/-- A keyword of a header is told as long as what it is not to be joined with does not begin what is
behind the header. -/
theorem HeaderWordText.told {state next : HeaderState} {text rest following : List Token}
    {node : Node} (ends : EndsArguments following) (worded : HeaderWordText state text rest node next) :
    ∃ told, joinedFrom false (text ++ (rest ++ following)) =
      told ++ joinedFrom false (rest ++ following) ∧
        List.Forall₂ Fits node.sourceWording (wording told) := by
  cases worded with
  | @modifier token word _ isWord modifies =>
      have notElse : word ≠ .elseWord := by
        intro equal
        subst equal
        cases modifies
      have retold : Retold [token] (Node.leaf .keyword token).sourceWording :=
        .leaf (Token.isSpoken_of_isKeyword isWord notElse) (by decide)
      exact ⟨_, joinedFrom_append_of_isQuiet retold.quiet, retold.fits⟩
  | @elseIf token follower _ _ isElse isIf =>
      refine ⟨[token.respelled .keyword Keyword.elifWord.spelling], joinedFrom_elseIf isElse isIf, ?_⟩
      exact .cons rfl .nil
  | @control token word _ _ isWord _ apart =>
      have classified := Token.tokenClass_of_isKeyword isWord
      refine ⟨[token], ?_, ?_⟩
      · by_cases isElse : word = .elseWord
        · -- What is behind the header ends arguments, so it is no `if` either.
          have noIf : (rest ++ following).head?.any (·.isKeyword .ifWord) = false := by
            cases rest with
            | nil =>
                rw [List.nil_append, Option.any_eq_false]
                exact fun token first => Token.isKeyword_eq_false_of_isArgument (ends token first)
            | cons token rest => exact apart isElse
          rw [List.singleton_append, joinedFrom_cons_of_apart false (by rw [noIf, Bool.and_false]),
            Token.argumentsBehind, classified, Bool.false_and]
          rfl
        · have spoken := Token.isSpoken_of_isKeyword isWord isElse
          exact joinedFrom_append_of_isQuiet (List.forall_mem_singleton.mpr spoken.isQuiet)
      · rw [Node.sourceWording_leaf, Node.ownWording, if_neg (by decide), List.append_nil]
        exact fits_map_some _
  | @operator token operator _ _ isWord isOperator =>
      have retold : Retold [token, operator] 
          (Node.mk .keyword token [.leaf .operatorName operator]).sourceWording :=
        retold_keyword isWord (by decide) (fun _ => rfl) (by decide)
          (Retold.leaf (Token.isSpoken_of_operator isOperator) (by decide)).child
      exact ⟨_, joinedFrom_append_of_isQuiet retold.quiet, retold.fits⟩
  | @name token name word _ _ isWord names isName =>
      have notElse : word ≠ .elseWord := by
        intro equal
        subst equal
        rcases names with names | names <;> cases names
      have retold : Retold [token, name]
          (Node.mk .keyword token [.leaf .identifier name]).sourceWording :=
        retold_keyword isWord notElse (fun _ => rfl) (by decide) (retold_name isName)
      exact ⟨_, joinedFrom_append_of_isQuiet retold.quiet, retold.fits⟩

theorem HeaderText.recounted {depth chain : Nat} {state : HeaderState} {text : List Token}
    {nodes : List Node} (headed : HeaderText depth chain state text nodes) :
    Recounted text (sourceWordingAll nodes) := by
  induction headed with
  | done => exact Retold.nil.recounted
  | @list _ _ opener closer text _ _ _ _ _ opens listed closes _ inductionHypothesis =>
      have bracketed : Retold (opener :: (text ++ [closer])) _ :=
        .bracketed opens listed.retold closes
      simpa using Recounted.append_of_retold bracketed inductionHypothesis
  | name _ _ isWord _ inductionHypothesis =>
      exact .append_of_retold (.leaf (Token.isSpoken_of_userWord isWord) (by decide))
        inductionHypothesis
  | word worded _ inductionHypothesis =>
      intro following ends
      obtain ⟨told, join, fits⟩ := worded.told ends
      obtain ⟨later, laterJoin, laterFits⟩ := inductionHypothesis following ends
      refine ⟨told ++ later, ?_, ?_⟩
      · rw [List.append_assoc, join, laterJoin, List.append_assoc]
      · rw [wording_append]
        exact List.rel_append fits laterFits
  | condition _ valued _ => exact (valued.retold.child.tagged (by decide)).child.recounted

/-! ### Directives -/

theorem DirectiveText.recounted {text : List Token} {node : Node}
    (directive : DirectiveText text node) : Recounted text node.sourceWording := by
  cases directive with
  | @directive word arguments isWord areArguments =>
      intro following ends
      refine ⟨word :: arguments, ?_, ?_⟩
      · rw [List.cons_append, joinedFrom_of_directiveWord isWord,
          joinedFrom_append_of_isArgument areArguments, joinedFrom_of_endsArguments ends,
          List.cons_append]
      · rw [sourceWording_mk (fun _ => rfl), Node.sourceWordingAll_map_leaf _ (by decide),
          Node.ownWording, if_neg (by decide), List.append_nil, ← List.map_append,
          ← wording_append]
        exact fits_map_some _

/-- A directive ends where directives go on. -/
theorem DirectivesText.endsArguments {text following : List Token} {nodes : List Node}
    (directives : DirectivesText text nodes) (ends : EndsArguments following) :
    EndsArguments (text ++ following) := by
  cases directives with
  | done => exact ends
  | colon isColon _ =>
      intro token held
      cases held
      exact Token.isArgument_of_isLineSeparator isColon
  | directive directive _ =>
      cases directive with
      | directive isWord _ =>
          intro token held
          cases held
          simp [Token.isArgument, isWord]

theorem DirectivesText.recounted {text : List Token} {nodes : List Node}
    (directives : DirectivesText text nodes) : Recounted text (sourceWordingAll nodes) := by
  induction directives with
  | done => exact Retold.nil.recounted
  | colon isColon _ inductionHypothesis =>
      exact .cons_silent (Token.isWording_of_isLineSeparator isColon) inductionHypothesis
  | directive directive later inductionHypothesis =>
      exact directive.recounted.append inductionHypothesis later.endsArguments

/-! ### Sections and files -/

theorem Token.Turns.isWording {token : Token} {closed? opened? : Option Section}
    (turns : token.Turns closed? opened?) : token.isWording = false := by
  obtain ⟨marker, found, -⟩ := turns
  unfold Token.marker? at found
  split at found
  next classified => exact Token.isWording_of_class classified
  next => cases found

theorem Token.Turns.isArgument {token : Token} {closed? opened? : Option Section}
    (turns : token.Turns closed? opened?) : token.isArgument = false := by
  simp [Token.isArgument, Token.endsStatement, turns.isBlockMarker]

/-- A directive ends where an item begins. -/
theorem ItemText.endsArguments {depth chain : Nat} {text : List Token} {node? : Option Node}
    (item : ItemText depth chain text node?) (following : List Token) :
    EndsArguments (text ++ following) := by
  cases item with
  | empty isSemicolon | statement isSemicolon _ =>
      intro token held
      cases held
      exact Token.isArgument_of_isLineSeparator isSemicolon
  | directive isColon _ =>
      intro token held
      cases held
      exact Token.isArgument_of_isLineSeparator isColon
  | sections sections =>
      cases sections with
      | sections _ opens _ _ =>
          intro token held
          cases held
          exact opens.isArgument

theorem ItemsText.endsArguments {depth chain : Nat} {text following : List Token}
    {nodes : List Node} (items : ItemsText depth chain text nodes)
    (ends : EndsArguments following) : EndsArguments (text ++ following) := by
  cases items with
  | done => exact ends
  | more item later =>
      rw [List.append_assoc]
      exact item.endsArguments _

/-- A directive and a statement end where a chain goes on. -/
theorem LaterText.endsArguments {depth chain : Nat} {kind : Section} {text : List Token}
    {nodes : List Node} (later : LaterText depth chain kind text nodes) (following : List Token) :
    EndsArguments (text ++ following) := by
  cases later with
  | done turns | more turns _ _ =>
      intro token held
      cases held
      exact turns.isArgument

/-- A section is told by what is below its node, and later sections by what is put behind that. -/
theorem SectionText.sourceWording_append {depth chain : Nat} {kind : Section} {marker : Token}
    {text : List Token} {node : Node} (here : SectionText depth chain kind marker text node)
    (others : List Node) :
    ({ node with children := node.children ++ others } : Node).sourceWording =
      sourceWordingAll node.children ++ sourceWordingAll others := by
  rw [← sourceWordingAll_append]
  cases here with
  | code => exact Node.sourceWording_tagged (show NodeKind.block ≠ .pathSegment by decide)
  | preprocessor =>
      exact Node.sourceWording_tagged (show NodeKind.directives ≠ .pathSegment by decide)

theorem SectionText.sourceWording {depth chain : Nat} {kind : Section} {marker : Token}
    {text : List Token} {node : Node} (here : SectionText depth chain kind marker text node) :
    node.sourceWording = sourceWordingAll node.children := by
  cases here with
  | code => exact Node.sourceWording_tagged (by decide)
  | preprocessor => exact Node.sourceWording_tagged (by decide)

mutual

theorem ItemText.recounted {depth chain : Nat} {text : List Token} {node? : Option Node} :
    ItemText depth chain text node? → Recounted text (sourceWordingAll node?.toList)
  | .empty isSemicolon =>
      (Retold.nil.cons_silent (Token.isWording_of_isLineSeparator isSemicolon)).recounted
  | .statement isSemicolon stated =>
      (stated.retold.cons_silent (Token.isWording_of_isLineSeparator isSemicolon)).child.recounted
  | .directive isColon directive => by
      rw [Option.toList_some, Node.sourceWordingAll_cons, Node.sourceWordingAll_nil,
        List.append_nil]
      exact directive.recounted.cons_silent (Token.isWording_of_isLineSeparator isColon)
  | .sections sections => by
      rw [Option.toList_some, Node.sourceWordingAll_cons, Node.sourceWordingAll_nil,
        List.append_nil]
      exact sections.recounted

theorem ItemsText.recounted {depth chain : Nat} {text : List Token} {nodes : List Node} :
    ItemsText depth chain text nodes → Recounted text (sourceWordingAll nodes)
  | .done => Retold.nil.recounted
  | .more item later => by
      rw [sourceWordingAll_append]
      exact item.recounted.append later.recounted later.endsArguments

theorem ChainedText.recounted {depth chain : Nat} {text : List Token} {node : Node} :
    ChainedText depth chain text node → Recounted text node.sourceWording
  | .sections _ opens first later => by
      rw [first.sourceWording_append]
      exact (first.recounted.append later.recounted fun _ => later.endsArguments _).cons_silent
        opens.isWording

theorem LaterText.recounted {depth chain : Nat} {kind : Section} {text : List Token}
    {nodes : List Node} : LaterText depth chain kind text nodes →
      Recounted text (sourceWordingAll nodes)
  | .done closes => (Retold.nil.cons_silent closes.isWording).recounted
  | .more turns here later => by
      rw [Node.sourceWordingAll_cons, here.sourceWording]
      exact (here.recounted.append later.recounted fun _ => later.endsArguments _).cons_silent
        turns.isWording

theorem SectionText.recounted {depth chain : Nat} {kind : Section} {marker : Token}
    {text : List Token} {node : Node} : SectionText depth chain kind marker text node →
      Recounted text (sourceWordingAll node.children)
  | .code heading body => by
      rw [Node.tagged, Node.sourceWordingAll_cons, Node.sourceWording_tagged (by decide)]
      exact heading.recounted.append body.recounted body.endsArguments
  | .preprocessor directives => directives.recounted

end

/-- The wording of a tree that is read is that of its file, nothing lost, doubled or moved: but every
`else if` of a header is one `elif` where the `else` stands, and the dots of type names are gaps. And
whatever node the tree has made a token for stands where a token of the file does. -/
theorem readTree_tells {tokens : Array Token} {label : String} {limits : Limits} {root : Node}
    (read : readTree tokens label limits = .ok root) :
    List.Forall₂ Fits root.sourceWording (wording (joined tokens.toList)) ∧
      ∀ entry ∈ root.preorder, entry.2.token.tokenClass = .tag →
        entry.2.token.PlacedAmong tokens.toList := by
  obtain ⟨items, rfl, file⟩ := itemsText_of_readTree read
  constructor
  · rw [sourceWording_mk (fun _ => rfl)]
    exact file.recounted.joined_fits
  · have placed : Node.Everywhere (fun node => node.token.tokenClass = .tag →
        node.token.PlacedAmong tokens.toList) ⟨.root, .root label, items⟩ := by
      refine Node.everywhere_mk.mpr ⟨nofun, fun item member => ?_⟩
      refine Node.Everywhere.mono ?_ item (file.placed item member)
      exact fun _ here _ => here
    exact Node.everywhere_iff_preorder.mp placed

/-- The tokens of `/; else if x ;a.b c = d ;/`. -/
def dottedBranch : Array Token :=
  #[⟨.delimiter, "/;", 1, 1, ⟨0, 2⟩⟩, ⟨.keyword, "else", 1, 4, ⟨3, 7⟩⟩,
    ⟨.keyword, "if", 1, 9, ⟨8, 10⟩⟩, ⟨.userWord, "x", 1, 12, ⟨11, 12⟩⟩,
    ⟨.lineSeparator, ";", 1, 14, ⟨13, 14⟩⟩, ⟨.userWord, "a", 1, 15, ⟨14, 15⟩⟩,
    ⟨.operator, ".", 1, 16, ⟨15, 16⟩⟩, ⟨.userWord, "b", 1, 17, ⟨16, 17⟩⟩,
    ⟨.userWord, "c", 1, 19, ⟨18, 19⟩⟩, ⟨.operator, "=", 1, 21, ⟨20, 21⟩⟩,
    ⟨.userWord, "d", 1, 23, ⟨22, 23⟩⟩, ⟨.delimiter, ";/", 1, 25, ⟨24, 26⟩⟩]

def dottedBranchTree : Node :=
  ⟨.root, .root "file", [.tagged .block dottedBranch[0]
    [.tagged .header dottedBranch[0]
      [.leaf .keyword ⟨.keyword, "elif", 1, 4, ⟨3, 7⟩⟩,
        .tagged .valueStatement dottedBranch[3] [.leaf .identifier dottedBranch[3]]],
      .tagged .definition dottedBranch[5]
        [.tagged .type dottedBranch[5]
          [.leaf .pathSegment dottedBranch[5], .leaf .typeName dottedBranch[7]],
          .tagged .valueList dottedBranch[8]
            [⟨.binary, dottedBranch[9],
              [.leaf .identifier dottedBranch[8], .leaf .identifier dottedBranch[10]]⟩]]]]⟩

/-- The two keywords of the branch are told by one, the dot by a gap, and the operator between its
operands. -/
theorem readTree_tells_dottedBranch :
    List.Forall₂ Fits
      [some ⟨.keyword, "elif", 1, 4, ⟨3, 7⟩⟩, some dottedBranch[3], some dottedBranch[5], none,
        some dottedBranch[7], some dottedBranch[8], some dottedBranch[9], some dottedBranch[10]]
      (wording (joined dottedBranch.toList)) := by
  have read : readTree dottedBranch "file" .standard = .ok dottedBranchTree := by
    decide +kernel
  exact (readTree_tells read).1

/-- The tokens of `;a.b c`. -/
def dottedDefinition : Array Token :=
  #[⟨.lineSeparator, ";", 1, 1, ⟨0, 1⟩⟩, ⟨.userWord, "a", 1, 2, ⟨1, 2⟩⟩,
    ⟨.operator, ".", 1, 3, ⟨2, 3⟩⟩, ⟨.userWord, "b", 1, 4, ⟨3, 4⟩⟩,
    ⟨.userWord, "c", 1, 6, ⟨5, 6⟩⟩]

def dottedDefinitionTree : Node :=
  ⟨.root, .root "file", [.tagged .definition dottedDefinition[1]
    [.tagged .type dottedDefinition[1]
      [.leaf .pathSegment dottedDefinition[1], .leaf .typeName dottedDefinition[3]],
      .tagged .valueList dottedDefinition[4] [.leaf .identifier dottedDefinition[4]]]]⟩

/-- A dot of a type name is in no node, so without the gaps a tree tells too little. -/
theorem dottedDefinition_loses_dot :
    readTree dottedDefinition "file" .standard = .ok dottedDefinitionTree ∧
      dottedDefinitionTree.sourceWording.reduceOption ≠
        wording (joined dottedDefinition.toList) := by
  constructor <;> decide +kernel

end TnslReader
