import TnslReader.Proofs.TreeShape

/-!
Contract: the forest of sections that block markers alone describe.

The machine knows nothing of statements or headers. It keeps the finished chains at the top of the
file, and a stack of open ones. A marker that only opens a section begins a chain, one that only
closes a section ends the innermost chain, and one that does both appends a section to the head of
that chain. A section is a child of whatever section is current when its chain begins, so the head of
a chain holds the chains within it and then its own later sections.

Owns:
- the machine, and the section that a marker opens;
- the sections of a tree, with everything between them left out;
- that a run makes one section for each marker that opens one, in order.

Does not own: that a tree which is read has the sections that the machine builds.
-/

set_option autoImplicit false

namespace TnslReader

/-! ### The sections of a tree -/

def Section.nodeKind : Section → NodeKind
  | .preprocessor => .directives
  | _ => .block

theorem Section.isSection_nodeKind (opened : Section) : opened.nodeKind.isSection = true := by
  cases opened <;> rfl

namespace Node

mutual

/-- The sections of a tree that are in no other, each with the sections in it and nothing else. -/
def sections : Node → List Node
  | ⟨kind, token, children⟩ =>
      if kind.isSection then [⟨kind, token, sectionsAmong children⟩] else sectionsAmong children

def sectionsAmong : List Node → List Node
  | [] => []
  | node :: nodes => sections node ++ sectionsAmong nodes

end

theorem sectionsAmong_append (nodes others : List Node) :
    sectionsAmong (nodes ++ others) = sectionsAmong nodes ++ sectionsAmong others := by
  induction nodes with
  | nil => rfl
  | cons node nodes inductionHypothesis =>
      rw [List.cons_append, sectionsAmong, sectionsAmong, inductionHypothesis, List.append_assoc]

theorem sectionsAmong_eq_nil {nodes : List Node} (bare : ∀ node ∈ nodes, node.sections = []) :
    sectionsAmong nodes = [] := by
  induction nodes with
  | nil => rfl
  | cons node nodes inductionHypothesis =>
      obtain ⟨here, later⟩ := List.forall_mem_cons.mp bare
      rw [sectionsAmong, here, inductionHypothesis later, List.nil_append]

mutual

/-- A tree has no section if all of it stands within a header or an item. -/
theorem sections_eq_nil : (node : Node) →
    node.Everywhere (fun inner => inner.kind.isPart = true) → node.sections = []
  | ⟨kind, token, children⟩, parts => by
      have noSection : kind.isSection = false := by
        have part : kind.isPart = true := parts.1
        cases kind <;> first | rfl | cases part
      rw [sections, noSection, if_neg Bool.false_ne_true]
      exact sectionsAmong_eq_nil_of_part children parts.2

theorem sectionsAmong_eq_nil_of_part : (nodes : List Node) →
    EverywhereAll (fun inner => inner.kind.isPart = true) nodes → sectionsAmong nodes = []
  | [], _ => rfl
  | node :: nodes, parts => by
      rw [sectionsAmong, sections_eq_nil node parts.1, sectionsAmong_eq_nil_of_part nodes parts.2,
        List.nil_append]

end

/-- What the nodes of sections in a list of nodes are, and where they stand. -/
def sectionLabels (nodes : List Node) : List (NodeKind × Token) :=
  (nodes.filter (·.kind.isSection)).map fun node => (node.kind, node.token)

theorem sectionLabels_nil : sectionLabels [] = [] :=
  rfl

theorem sectionLabels_append (nodes others : List Node) :
    sectionLabels (nodes ++ others) = sectionLabels nodes ++ sectionLabels others := by
  rw [sectionLabels, List.filter_append, List.map_append, sectionLabels, sectionLabels]

theorem sectionLabels_cons {kind : NodeKind} {token : Token} {children nodes : List Node} :
    sectionLabels (⟨kind, token, children⟩ :: nodes) =
      (if kind.isSection then [(kind, token)] else []) ++ sectionLabels nodes := by
  cases isSection : kind.isSection <;> simp [sectionLabels, isSection]

mutual

/-- The sections of a tree lose no section node. -/
theorem sectionLabels_sections : (node : Node) →
    sectionLabels (inOrderAll node.sections) = sectionLabels node.inOrder
  | ⟨kind, token, children⟩ => by
      have below := sectionLabels_sectionsAmong children
      cases isSection : kind.isSection with
      | true =>
          simp only [sections, isSection, if_true, inOrderAll, inOrder, List.append_nil]
          simpa [sectionLabels, isSection] using below
      | false =>
          simp only [sections, isSection, Bool.false_eq_true, if_false, inOrder]
          simpa [sectionLabels, isSection] using below

theorem sectionLabels_sectionsAmong : (nodes : List Node) →
    sectionLabels (inOrderAll (sectionsAmong nodes)) = sectionLabels (inOrderAll nodes)
  | [] => rfl
  | node :: nodes => by
      rw [sectionsAmong, inOrderAll_append, sectionLabels_append, sectionLabels_sections node,
        sectionLabels_sectionsAmong nodes, inOrderAll, sectionLabels_append]

end

end Node

/-! ### The machine -/

def blockMarkers (text : List Token) : List (Token × Marker) :=
  text.filterMap fun token => (token.marker?.filter (·.isBlockMarker)).map (token, ·)

/-- The node of the section that a marker opens, with nothing in it. -/
def openedSection (token : Token) (opened : Section) : Node :=
  .tagged opened.nodeKind token []

def openedSections (markers : List (Token × Marker)) : List Node :=
  markers.filterMap fun entry => entry.2.opens?.map (openedSection entry.1)

theorem sectionLabels_openedSections (markers : List (Token × Marker)) :
    Node.sectionLabels (openedSections markers) =
      (openedSections markers).map fun node => (node.kind, node.token) := by
  rw [Node.sectionLabels, List.filter_eq_self.mpr]
  intro node member
  obtain ⟨entry, -, opens⟩ := List.mem_filterMap.mp member
  obtain ⟨opened, -, rfl⟩ := Option.map_eq_some_iff.mp opens
  exact opened.isSection_nodeKind

/-- A chain whose last section is not closed yet. -/
structure OpenChain where
  /-- The first section, with what has been found of its children. -/
  head : Node
  /-- The current section, if it is not the first. -/
  later? : Option Node

namespace OpenChain

def current (chain : OpenChain) : Node :=
  chain.later?.getD chain.head

def finished (chain : OpenChain) : Node :=
  { chain.head with children := chain.head.children ++ chain.later?.toList }

def extend (chain : OpenChain) (nodes : List Node) : OpenChain :=
  match chain.later? with
  | none => ⟨{ chain.head with children := chain.head.children ++ nodes }, none⟩
  | some later => ⟨chain.head, some { later with children := later.children ++ nodes }⟩

theorem extend_head (head : Node) (nodes : List Node) :
    extend ⟨head, none⟩ nodes = ⟨{ head with children := head.children ++ nodes }, none⟩ :=
  rfl

theorem extend_later (head later : Node) (nodes : List Node) :
    extend ⟨head, some later⟩ nodes =
      ⟨head, some { later with children := later.children ++ nodes }⟩ :=
  rfl

/-- The current section comes last in a chain, so what is added to it comes last as well. -/
theorem sectionLabels_extend (chain : OpenChain) (nodes : List Node) :
    Node.sectionLabels (chain.extend nodes).finished.inOrder =
      Node.sectionLabels chain.finished.inOrder ++
        Node.sectionLabels (Node.inOrderAll nodes) := by
  rcases chain with ⟨⟨kind, token, children⟩, _ | ⟨laterKind, later, others⟩⟩ <;>
    simp [extend, finished, Node.inOrder, Node.inOrderAll, Node.inOrderAll_append,
      Node.sectionLabels_cons, Node.sectionLabels_append]

end OpenChain

/-- The nodes of the chains at the top of the file that are finished, and the chains that are open,
the innermost first. -/
structure SectionMachine where
  roots : List Node
  chains : List OpenChain

namespace SectionMachine

def empty : SectionMachine := ⟨[], []⟩

def extend (machine : SectionMachine) (nodes : List Node) : SectionMachine :=
  match machine.chains with
  | [] => ⟨machine.roots ++ nodes, []⟩
  | chain :: outer => ⟨machine.roots, chain.extend nodes :: outer⟩

/-- The machine behind a marker that closes and opens sections as given. There is none if the marker
closes no section, or one of another kind than the current one. -/
def turn (machine : SectionMachine) (token : Token) :
    Option Section → Option Section → Option SectionMachine
  | none, none => none
  | none, some opened => some ⟨machine.roots, ⟨openedSection token opened, none⟩ :: machine.chains⟩
  | some closed, opened? =>
      match machine.chains with
      | [] => none
      | chain :: outer =>
          if chain.current.kind = closed.nodeKind then
            match opened? with
            | none => some (extend ⟨machine.roots, outer⟩ [chain.finished])
            | some opened =>
                some ⟨machine.roots, ⟨chain.finished, some (openedSection token opened)⟩ :: outer⟩
          else
            none

def step (machine : SectionMachine) (entry : Token × Marker) : Option SectionMachine :=
  machine.turn entry.1 entry.2.closes? entry.2.opens?

/-- The machine behind some markers, if it does not fail at one of them. -/
def run (machine : SectionMachine) (markers : List (Token × Marker)) : Option SectionMachine :=
  markers.foldlM step machine

variable {machine next : SectionMachine} {token : Token}

theorem run_cons (machine : SectionMachine) (entry : Token × Marker)
    (markers : List (Token × Marker)) :
    machine.run (entry :: markers) = (machine.step entry).bind (·.run markers) :=
  rfl

theorem run_append (machine : SectionMachine) (first second : List (Token × Marker)) :
    machine.run (first ++ second) = (machine.run first).bind (·.run second) :=
  List.foldlM_append

theorem extend_cons (roots : List Node) (chain : OpenChain) (outer : List OpenChain)
    (nodes : List Node) :
    extend ⟨roots, chain :: outer⟩ nodes = ⟨roots, chain.extend nodes :: outer⟩ :=
  rfl

theorem extend_nil (machine : SectionMachine) : machine.extend [] = machine := by
  rcases machine with ⟨roots, _ | ⟨⟨⟨kind, token, children⟩, _ | ⟨otherKind, other, others⟩⟩, outer⟩⟩ <;>
    simp [extend, OpenChain.extend]

theorem extend_extend (machine : SectionMachine) (nodes others : List Node) :
    (machine.extend nodes).extend others = machine.extend (nodes ++ others) := by
  rcases machine with ⟨roots, _ | ⟨⟨head, _ | later⟩, outer⟩⟩ <;>
    simp [extend, OpenChain.extend]

theorem turn_close {roots : List Node} {chain : OpenChain} {outer : List OpenChain}
    {closed : Section} (isCurrent : chain.current.kind = closed.nodeKind) :
    turn ⟨roots, chain :: outer⟩ token (some closed) none =
      some (extend ⟨roots, outer⟩ [chain.finished]) :=
  if_pos isCurrent

theorem turn_redefine {roots : List Node} {chain : OpenChain} {outer : List OpenChain}
    {closed opened : Section} (isCurrent : chain.current.kind = closed.nodeKind) :
    turn ⟨roots, chain :: outer⟩ token (some closed) (some opened) =
      some ⟨roots, ⟨chain.finished, some (openedSection token opened)⟩ :: outer⟩ :=
  if_pos isCurrent

/-! ### What a run makes -/

/-- The nodes that the machine has so far: the finished ones, then those still open, the outermost
first, each with what has been found of it. -/
def nodes (machine : SectionMachine) : List Node :=
  machine.roots ++ (machine.chains.map (·.finished)).reverse

def labels (machine : SectionMachine) : List (NodeKind × Token) :=
  Node.sectionLabels (Node.inOrderAll machine.nodes)

theorem labels_extend (machine : SectionMachine) (nodes : List Node) :
    (machine.extend nodes).labels =
      machine.labels ++ Node.sectionLabels (Node.inOrderAll nodes) := by
  rcases machine with ⟨roots, _ | ⟨chain, outer⟩⟩ <;>
    simp [labels, extend, SectionMachine.nodes, Node.inOrderAll, Node.inOrderAll_append,
      Node.sectionLabels_append, OpenChain.sectionLabels_extend]

/-- A marker adds the section that it opens, behind all that are there. -/
theorem labels_turn {closed? opened? : Option Section}
    (turned : machine.turn token closed? opened? = some next) :
    next.labels = machine.labels ++
      Node.sectionLabels (opened?.map (openedSection token)).toList := by
  rcases machine with ⟨roots, chains⟩
  cases closed? with
  | none =>
      cases opened? with
      | none => cases turned
      | some opened =>
          cases turned
          simp [labels, SectionMachine.nodes, Node.inOrderAll, Node.inOrderAll_append,
            Node.sectionLabels_append, OpenChain.finished, openedSection, Node.tagged, Node.inOrder]
  | some closed =>
      cases chains with
      | nil => cases turned
      | cons chain outer =>
          by_cases isCurrent : chain.current.kind = closed.nodeKind
          · cases opened? with
            | none =>
                rw [turn_close isCurrent] at turned
                cases turned
                rw [labels_extend]
                simp [labels, SectionMachine.nodes, Node.inOrderAll, Node.inOrderAll_append,
                  Node.sectionLabels_append, Node.sectionLabels_nil]
            | some opened =>
                rw [turn_redefine isCurrent] at turned
                cases turned
                simp [labels, SectionMachine.nodes, Node.inOrderAll, Node.inOrderAll_append,
                  Node.sectionLabels_append, Node.sectionLabels_cons, OpenChain.finished,
                  openedSection, Node.tagged, Node.inOrder]
          · simp [turn, isCurrent] at turned

theorem labels_run {markers : List (Token × Marker)} (ran : machine.run markers = some next) :
    next.labels = machine.labels ++ Node.sectionLabels (openedSections markers) := by
  induction markers generalizing machine with
  | nil =>
      cases ran
      rw [openedSections, List.filterMap_nil, Node.sectionLabels_nil, List.append_nil]
  | cons entry markers inductionHypothesis =>
      rw [run_cons, Option.bind_eq_some_iff] at ran
      obtain ⟨between, stepped, ran⟩ := ran
      rw [inductionHypothesis ran, labels_turn stepped, List.append_assoc,
        ← Node.sectionLabels_append]
      cases opened : entry.2.opens? <;> simp [openedSections, opened]

end SectionMachine

end TnslReader
