import TnslReader.Proofs.FileShape
import TnslReader.Proofs.SectionMachine
import TnslReader.Proofs.UnmarkedTexts

/-!
Contract: a file that is read has the sections that its block markers alone describe.

Statements, headers and directives hold no block marker, so the machine of `SectionMachine` passes
over them. What is left of an item is its chain of sections. Behind the chain's opener the machine has
one open chain more, and behind its closer it has added one node to the section that was current
before, which is the node that the tree has there.

The main result is `readTree_sections`: the machine never fails on a file that is read, and it ends
with nothing open and with the sections of the tree.
-/

set_option autoImplicit false

namespace TnslReader

/-! ### Texts without block markers -/

theorem blockMarkers_append (text rest : List Token) :
    blockMarkers (text ++ rest) = blockMarkers text ++ blockMarkers rest :=
  List.filterMap_append

theorem blockMarkers_eq_nil {text : List Token}
    (unmarked : ∀ token ∈ text, token.isBlockMarker = false) : blockMarkers text = [] := by
  rw [blockMarkers, List.filterMap_eq_nil_iff]
  intro token member
  have unmarked := unmarked token member
  cases marker : token.marker? with
  | none => rfl
  | some marker =>
      simp only [Token.isBlockMarker, marker, Option.any_some] at unmarked
      simp [unmarked]

theorem Token.isBlockMarker_of_marker?_eq_none {token : Token} (unmarked : token.marker? = none) :
    token.isBlockMarker = false := by
  simp [isBlockMarker, unmarked]

theorem Unmarked.blockMarkers_eq_nil {text : List Token} (unmarked : Unmarked text) :
    blockMarkers text = [] :=
  TnslReader.blockMarkers_eq_nil fun token member =>
    Token.isBlockMarker_of_marker?_eq_none (unmarked token member)

/-- A line separator leaves the block markers behind it as they are. -/
theorem blockMarkers_cons_of_isLineSeparator {token : Token} {rune : Char} {text : List Token}
    (separates : token.isLineSeparator rune = true) :
    blockMarkers (token :: text) = blockMarkers text := by
  rw [← List.singleton_append, blockMarkers_append, blockMarkers_eq_nil, List.nil_append]
  simpa using Token.isBlockMarker_of_marker?_eq_none
    (Token.marker?_eq_none_of_isLineSeparator separates)

theorem DirectiveText.blockMarkers_eq_nil {text : List Token} {node : Node}
    (directive : DirectiveText text node) : blockMarkers text = [] :=
  TnslReader.blockMarkers_eq_nil directive.isBlockMarker_eq_false

theorem DirectivesText.blockMarkers_eq_nil {text : List Token} {nodes : List Node}
    (directives : DirectivesText text nodes) : blockMarkers text = [] := by
  induction directives with
  | done => rfl
  | colon isColon _ inductionHypothesis =>
      rw [blockMarkers_cons_of_isLineSeparator isColon,
        inductionHypothesis]
  | directive directive _ inductionHypothesis =>
      rw [blockMarkers_append, directive.blockMarkers_eq_nil, inductionHypothesis, List.nil_append]

/-! ### What leaves no section -/

namespace Node

/-- What has the shape of something within a header or an item has no section. -/
theorem Shaped.sections_eq_nil {test : NodeKind → Bool} {node : Node} (shaped : node.Shaped test)
    (implies : ∀ {kind : NodeKind}, test kind = true → kind.isPart = true) : node.sections = [] :=
  Node.sections_eq_nil node (shaped.everywhere_isPart implies)

theorem sectionsAmong_singleton (node : Node) : sectionsAmong [node] = node.sections := by
  rw [sectionsAmong, sectionsAmong, List.append_nil]

theorem sections_tagged (opened : Section) (marker : Token) (children : List Node) :
    (tagged opened.nodeKind marker children).sections =
      [.tagged opened.nodeKind marker (sectionsAmong children)] := by
  rw [tagged, sections, if_pos opened.isSection_nodeKind, tagged]

end Node

open Node (sectionsAmong sectionsAmong_append sectionsAmong_singleton sections_tagged)

/-- A header has no section. -/
theorem HeaderText.sections_eq_nil {depth chain : Nat} {state : HeaderState} {marker : Token}
    {text : List Token} {children : List Node} (heading : HeaderText depth chain state text children) :
    (Node.tagged .header marker children).sections = [] := by
  rw [Node.tagged, Node.sections, if_neg (by decide)]
  exact Node.sectionsAmong_eq_nil fun child member =>
    (heading.shaped child member).sections_eq_nil NodeKind.isPart_of_isHeaderChild

/-! ### The run over a file -/

namespace SectionMachine

/-- At a block marker the machine turns as the marker says. -/
theorem run_of_turns {token : Token} {closed? opened? : Option Section}
    (turns : token.Turns closed? opened?) (machine : SectionMachine) (text : List Token) :
    machine.run (blockMarkers (token :: text)) =
      (machine.turn token closed? opened?).bind (·.run (blockMarkers text)) := by
  have isBlockMarker := turns.isBlockMarker
  obtain ⟨marker, found, rfl, rfl, -, -⟩ := turns
  rw [Token.isBlockMarker, found, Option.any_some] at isBlockMarker
  have entry : blockMarkers (token :: text) = (token, marker) :: blockMarkers text := by
    simp [blockMarkers, found, isBlockMarker]
  rw [entry, run_cons, step]

end SectionMachine

theorem SectionText.eq_tagged {depth chain : Nat} {kind : Section} {marker : Token}
    {text : List Token} {node : Node} (here : SectionText depth chain kind marker text node) :
    node = .tagged kind.nodeKind marker node.children := by
  cases here <;> rfl

mutual

theorem ItemText.run {depth chain : Nat} {text : List Token} {node? : Option Node}
    (machine : SectionMachine) : ItemText depth chain text node? →
      machine.run (blockMarkers text) = some (machine.extend (sectionsAmong node?.toList))
  | .empty isSemicolon => by
      rw [blockMarkers_cons_of_isLineSeparator isSemicolon]
      exact congrArg some machine.extend_nil.symm
  | .statement isSemicolon stated => by
      rw [blockMarkers_cons_of_isLineSeparator isSemicolon,
        stated.nested.unmarked.blockMarkers_eq_nil, Option.toList_some, sectionsAmong_singleton,
        stated.shaped.sections_eq_nil NodeKind.isPart_of_isStatement]
      exact congrArg some machine.extend_nil.symm
  | .directive isColon directive => by
      rw [blockMarkers_cons_of_isLineSeparator isColon,
        directive.blockMarkers_eq_nil, Option.toList_some, sectionsAmong_singleton,
        directive.shaped.sections_eq_nil NodeKind.isPart_of_directive]
      exact congrArg some machine.extend_nil.symm
  | .sections sections => by
      rw [Option.toList_some, sectionsAmong_singleton]
      exact sections.run machine

theorem ItemsText.run {depth chain : Nat} {text : List Token} {nodes : List Node}
    (machine : SectionMachine) : ItemsText depth chain text nodes →
      machine.run (blockMarkers text) = some (machine.extend (sectionsAmong nodes))
  | .done => congrArg some machine.extend_nil.symm
  | .more item later => by
      rw [blockMarkers_append, SectionMachine.run_append, item.run machine, Option.bind_some,
        later.run _, SectionMachine.extend_extend, sectionsAmong_append]

/-- A chain adds its node to what is current before it. -/
theorem ChainedText.run {depth chain : Nat} {text : List Token} {node : Node}
    (machine : SectionMachine) : ChainedText depth chain text node →
      machine.run (blockMarkers text) = some (machine.extend node.sections)
  | @ChainedText.sections _ _ _ kind opener text rest head nodes _ opens first later => by
      have whole : ({ head with children := head.children ++ nodes } : Node).sections =
          [.tagged kind.nodeKind opener (sectionsAmong head.children ++ sectionsAmong nodes)] := by
        rw [first.eq_tagged]
        exact (sections_tagged ..).trans (by rw [sectionsAmong_append])
      rw [SectionMachine.run_of_turns opens, blockMarkers_append, SectionMachine.turn,
        Option.bind_some, SectionMachine.run_append, first.run _, Option.bind_some,
        SectionMachine.extend_cons, OpenChain.extend_head, later.run rfl, whole]
      simp [OpenChain.finished, openedSection, Node.tagged]

/-- The rest of a chain adds its later sections to the head, and the head to what is current before
the chain. -/
theorem LaterText.run {depth chain : Nat} {kind : Section} {text : List Token} {nodes : List Node}
    {roots : List Node} {innermost : OpenChain} {outer : List OpenChain}
    (isCurrent : innermost.current.kind = kind.nodeKind) : LaterText depth chain kind text nodes →
      SectionMachine.run ⟨roots, innermost :: outer⟩ (blockMarkers text) =
        some (SectionMachine.extend ⟨roots, outer⟩
          [{ innermost.finished with
            children := innermost.finished.children ++ sectionsAmong nodes }])
  | .done closes => by
      rw [SectionMachine.run_of_turns closes, SectionMachine.turn_close isCurrent, Option.bind_some]
      simp [sectionsAmong, SectionMachine.run, blockMarkers, OpenChain.finished]
  | @LaterText.more _ _ _ opened marker _ _ node nodes turns here later => by
      have added : node.sections = [.tagged opened.nodeKind marker (sectionsAmong node.children)] := by
        conv_lhs => rw [here.eq_tagged]
        exact sections_tagged ..
      rw [SectionMachine.run_of_turns turns, SectionMachine.turn_redefine isCurrent,
        Option.bind_some, blockMarkers_append, SectionMachine.run_append, here.run _,
        Option.bind_some, SectionMachine.extend_cons, OpenChain.extend_later, later.run rfl]
      simp [OpenChain.finished, openedSection, Node.tagged, sectionsAmong, added]

/-- A section adds what it holds to what is current, which is itself. -/
theorem SectionText.run {depth chain : Nat} {kind : Section} {marker : Token} {text : List Token}
    {node : Node} (machine : SectionMachine) : SectionText depth chain kind marker text node →
      machine.run (blockMarkers text) = some (machine.extend (sectionsAmong node.children))
  | .code heading body => by
      rw [blockMarkers_append, heading.unmarked.blockMarkers_eq_nil, List.nil_append, body.run machine,
        Node.tagged, sectionsAmong, heading.sections_eq_nil, List.nil_append]
  | .preprocessor directives => by
      have bare : sectionsAmong _ = [] := Node.sectionsAmong_eq_nil fun node member =>
        (directives.shaped node member).sections_eq_nil NodeKind.isPart_of_directive
      rw [directives.blockMarkers_eq_nil, Node.tagged, bare]
      exact congrArg some machine.extend_nil.symm

end

section File

variable {tokens : Array Token} {label : String} {limits : Limits} {root : Node}

theorem run_of_readTree (read : readTree tokens label limits = .ok root) :
    SectionMachine.empty.run (blockMarkers tokens.toList) = some ⟨root.sections, []⟩ := by
  obtain ⟨items, rfl, file⟩ := itemsText_of_readTree read
  exact file.run .empty

/-- A file at whose markers the machine fails, or which leaves a chain open, is rejected. -/
theorem readTree_error_of_run
    (failed : ∀ roots, SectionMachine.empty.run (blockMarkers tokens.toList) ≠ some ⟨roots, []⟩) :
    ∃ error, readTree tokens label limits = .error error := by
  cases read : readTree tokens label limits with
  | error error => exact ⟨error, rfl⟩
  | ok root => exact absurd (run_of_readTree read) (failed root.sections)

/-- The sections of a tree that is read are those that the machine builds from the block markers
alone, and each marker that opens a section has made just one section node, in the same order. -/
theorem readTree_sections (read : readTree tokens label limits = .ok root) :
    SectionMachine.empty.run (blockMarkers tokens.toList) = some ⟨root.sections, []⟩ ∧
      ((root.preorder.map (·.2)).filter (·.kind.isSection)).map
          (fun node => (node.kind, node.token)) =
        (openedSections (blockMarkers tokens.toList)).map fun node => (node.kind, node.token) := by
  have ran := run_of_readTree read
  refine ⟨ran, ?_⟩
  have made := SectionMachine.labels_run ran
  rw [Node.map_preorder, ← sectionLabels_openedSections]
  apply (Node.sectionLabels_sections root).symm.trans
  simpa [SectionMachine.labels, SectionMachine.nodes, SectionMachine.empty, Node.inOrderAll,
    Node.sectionLabels_nil] using made

end File

/-- The tokens of `/; /: :; ;/ ;; ;/`. -/
def chainWithinChain : Array Token :=
  #[⟨.delimiter, "/;", 1, 1, ⟨0, 2⟩⟩, ⟨.delimiter, "/:", 1, 4, ⟨3, 5⟩⟩,
    ⟨.delimiter, ":;", 1, 7, ⟨6, 8⟩⟩, ⟨.delimiter, ";/", 1, 10, ⟨9, 11⟩⟩,
    ⟨.delimiter, ";;", 1, 13, ⟨12, 14⟩⟩, ⟨.delimiter, ";/", 1, 16, ⟨15, 17⟩⟩]

/-- The head of a chain holds the chain within it, and then its own later section. -/
theorem readTree_sections_chainWithinChain :
    SectionMachine.empty.run (blockMarkers chainWithinChain.toList) =
      some ⟨[.tagged .block chainWithinChain[0]
        [.tagged .directives chainWithinChain[1] [.tagged .block chainWithinChain[2] []],
          .tagged .block chainWithinChain[4] []]], []⟩ := by
  have read : readTree chainWithinChain "file" .standard =
      .ok ⟨.root, .root "file", [.tagged .block chainWithinChain[0]
        [.tagged .header chainWithinChain[0] [],
          .tagged .directives chainWithinChain[1]
            [.tagged .block chainWithinChain[2] [.tagged .header chainWithinChain[2] []]],
          .tagged .block chainWithinChain[4] [.tagged .header chainWithinChain[4] []]]]⟩ := by
    decide +kernel
  exact (readTree_sections read).1

end TnslReader
