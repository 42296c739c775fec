import TnslReader.Proofs.BlockHeaders

/-!
Contract: what the lists of a header hold.

A header is read from left to right, and what a list in it holds is settled where the list is read:
statements if a control keyword has been found by then, and parameters or types otherwise. So the
kind of a list goes by what stands before it and not by the whole header. The two agree wherever the
control keyword, if there is one, stands before all lists. They need not where a list comes first.

Owns: the lists of headers, and a header with a control keyword that has a list of parameters.
-/

set_option autoImplicit false

namespace TnslReader

variable {depth chain : Nat} {state next : HeaderState} {text rest : List Token} {node : Node}

/-! ### What stands before a list -/

/-- Whether each list among the children of a header holds statements exactly if a control keyword
stands before it, either among the children or, if `control` says so, before all of them. -/
def ListsFollowControl (control : Bool) (children : List Node) : Prop :=
  ∀ before list behind, children = before ++ list :: behind → list.kind.isList = true →
    (list.kind = .statementList ↔ control = true ∨ ∃ word ∈ before, word.isControlWord = true)

namespace ListsFollowControl

variable {control : Bool} {first : Node} {children : List Node}

theorem nil : ListsFollowControl control [] := by
  intro before list behind split
  simp at split

/-- One more child in front. The lists behind it find it before them. -/
theorem cons
    (here : first.kind.isList = true → (first.kind = .statementList ↔ control = true))
    (later : ListsFollowControl (control || first.isControlWord) children) :
    ListsFollowControl control (first :: children) := by
  intro before list behind split isList
  cases before with
  | nil =>
      obtain ⟨rfl, rfl⟩ := List.cons.inj split
      simpa using here isList
  | cons _ before =>
      obtain ⟨rfl, laterSplit⟩ := List.cons.inj split
      rw [later before list behind laterSplit isList, Bool.or_eq_true, or_assoc,
        List.exists_mem_cons_iff]

/-- Any child that is no list may stand in front. -/
theorem cons_of_isList_eq_false (noList : first.kind.isList = false)
    (later : ListsFollowControl (control || first.isControlWord) children) :
    ListsFollowControl control (first :: children) :=
  cons (fun isList => by rw [noList] at isList; cases isList) later

end ListsFollowControl

/-! ### The lists of a header that is read -/

theorem HeaderListText.kind_iff {control : Bool} {bracket : Bracket} {opener : Token}
    (listed : HeaderListText depth chain control bracket text opener node) :
    node.kind = .statementList ↔ control = true := by
  cases listed <;> simp [Node.tagged]

theorem HeaderListText.isControlWord_eq {control : Bool} {bracket : Bracket} {opener : Token}
    (listed : HeaderListText depth chain control bracket text opener node) :
    node.isControlWord = false := by
  cases listed <;> rfl

theorem HeaderState.control_withList (bracket : Bracket) :
    (state.withList bracket).control = state.control := by
  cases bracket <;> rfl

/-- Behind a keyword a control keyword has been found if there was one before or this is one. -/
theorem HeaderWordText.control_eq (worded : HeaderWordText state text rest node next) :
    next.control = (state.control || node.isControlWord) := by
  obtain ⟨-, rfl⟩ := worded.takes
  rfl

/-- From any place on, the lists of a header follow what has been found of control keywords. -/
theorem HeaderText.listsFollowControl {children : List Node}
    (headed : HeaderText depth chain state text children) :
    ListsFollowControl state.control children := by
  induction headed with
  | done => exact .nil
  | list _ _ _ listed _ _ inductionHypothesis =>
      apply ListsFollowControl.cons (fun _ => listed.kind_iff)
      rwa [listed.isControlWord_eq, Bool.or_false, ← HeaderState.control_withList]
  | name _ _ _ _ inductionHypothesis =>
      apply ListsFollowControl.cons_of_isList_eq_false rfl
      rwa [show (Node.leaf .identifier _).isControlWord = false from rfl, Bool.or_false]
  | word worded _ inductionHypothesis =>
      apply ListsFollowControl.cons_of_isList_eq_false
      · rw [worded.kind_eq]
        rfl
      · rwa [← worded.control_eq]
  | condition => exact .cons_of_isList_eq_false rfl .nil

structure Node.HoldsLists (header : Node) : Prop where
  /-- A list holds statements exactly if a control keyword stands before it. -/
  follows : ListsFollowControl false header.children
  /-- In a header without a control keyword no list holds statements. -/
  uncontrolled : (∀ child ∈ header.children, child.isControlWord = false) →
    ∀ child ∈ header.children, child.kind ≠ .statementList
  /-- In a header whose control keyword stands before all lists, every list holds statements. -/
  controlled : ∀ before word behind, header.children = before ++ word :: behind →
    word.isControlWord = true → (∀ child ∈ before, child.kind.isList = false) →
      ∀ child ∈ header.children, child.kind.isList = true → child.kind = .statementList

/-- The other two laws come of the first. -/
theorem ListsFollowControl.holdsLists {header : Node}
    (follows : ListsFollowControl false header.children) : header.HoldsLists where
  follows := follows
  uncontrolled := by
    intro uncontrolled child member isStatements
    obtain ⟨before, behind, split⟩ := List.append_of_mem member
    have isList : child.kind.isList = true := by rw [isStatements]; rfl
    obtain ⟨⟨⟩⟩ | ⟨word, inFront, isWord⟩ :=
      (follows before child behind split isList).mp isStatements
    rw [uncontrolled word (by simp [split, inFront])] at isWord
    cases isWord
  controlled := by
    intro before word behind split isWord unlisted child member isList
    -- Neither what stands before the word nor the word itself is a list.
    rw [split] at member
    rcases List.mem_append.mp member with inFront | inRest
    · rw [unlisted child inFront] at isList
      cases isList
    · rcases List.mem_cons.mp inRest with rfl | isBehind
      · cases kind : child.kind <;> simp [Node.isControlWord, NodeKind.isList, kind] at isWord isList
      · obtain ⟨between, last, rfl⟩ := List.append_of_mem isBehind
        apply (follows (before ++ word :: between) child last (by simp [split]) isList).mpr
        exact .inr ⟨word, by simp, isWord⟩

theorem heldByHeaders_holdsLists (tokens : List Token) :
    HeldByHeaders tokens fun node => node.kind = .header → node.HoldsLists where
  block _ _ := NodeKind.noConfusion
  header {_ _ marker _ children} heading _ _ :=
    @ListsFollowControl.holdsLists (.tagged .header marker children) heading.listsFollowControl
  other _ notHeader isHeader := absurd isHeader notHeader

/-- In every header of a tree that is read, a list holds statements exactly if a control keyword
stands before it. -/
theorem readTree_headerLists {tokens : Array Token} {label : String} {limits : Limits}
    {root : Node} (read : readTree tokens label limits = .ok root) :
    ∀ entry ∈ root.preorder, entry.2.kind = .header → entry.2.HoldsLists :=
  Node.everywhere_iff_preorder.mp ((heldByHeaders_holdsLists tokens.toList).of_readTree read)

/-- The tokens of `/; () loop [m] ;/`. -/
def splitLoop : Array Token :=
  #[⟨.delimiter, "/;", 1, 1, ⟨0, 2⟩⟩, ⟨.delimiter, "(", 1, 4, ⟨3, 4⟩⟩,
    ⟨.delimiter, ")", 1, 5, ⟨4, 5⟩⟩, ⟨.keyword, "loop", 1, 7, ⟨6, 10⟩⟩,
    ⟨.delimiter, "[", 1, 12, ⟨11, 12⟩⟩, ⟨.userWord, "m", 1, 13, ⟨12, 13⟩⟩,
    ⟨.delimiter, "]", 1, 14, ⟨13, 14⟩⟩, ⟨.delimiter, ";/", 1, 16, ⟨15, 17⟩⟩]

def splitLoopHeader : Node :=
  .tagged .header splitLoop[0]
    [.tagged .parameterList splitLoop[1] [],
      .leaf .keyword splitLoop[3],
      .tagged .statementList splitLoop[4]
        [.tagged .valueStatement splitLoop[5] [.leaf .identifier splitLoop[5]]]]

theorem readTree_splitLoop : readTree splitLoop "file" .standard =
    .ok ⟨.root, .root "file", [.tagged .block splitLoop[0] [splitLoopHeader]]⟩ := by
  decide +kernel

/-- The keyword stands between two lists, of which only the one behind it holds statements. -/
theorem readTree_headerLists_splitLoop :
    readTree splitLoop "file" .standard =
        .ok ⟨.root, .root "file", [.tagged .block splitLoop[0] [splitLoopHeader]]⟩ ∧
      splitLoopHeader.HoldsLists :=
  ⟨readTree_splitLoop, readTree_headerLists readTree_splitLoop (2, splitLoopHeader)
    (by decide +kernel) rfl⟩

/-- The tokens of `/; () if ;/`. -/
def trailingCondition : Array Token :=
  #[⟨.delimiter, "/;", 1, 1, ⟨0, 2⟩⟩, ⟨.delimiter, "(", 1, 4, ⟨3, 4⟩⟩,
    ⟨.delimiter, ")", 1, 5, ⟨4, 5⟩⟩, ⟨.keyword, "if", 1, 7, ⟨6, 8⟩⟩,
    ⟨.delimiter, ";/", 1, 10, ⟨9, 11⟩⟩]

/-- A header with a control keyword is read that has a list of parameters. -/
theorem trailingCondition_keeps_parameters :
    lex "/; () if ;/" = trailingCondition ∧
      readTree trailingCondition "file" .standard =
        .ok ⟨.root, .root "file", [.tagged .block trailingCondition[0]
          [.tagged .header trailingCondition[0]
            [.tagged .parameterList trailingCondition[1] [],
              .leaf .keyword trailingCondition[3]]]]⟩ ∧
      (Node.leaf .keyword trailingCondition[3]).isControlWord = true := by
  refine ⟨?_, ?_, ?_⟩ <;> decide +kernel

end TnslReader
