import TnslReader.Proofs.FileOrder
import TnslReader.Proofs.FileSections
import TnslReader.Tree.Include

/-!
Contract: the files that a file includes, by its tokens alone.

The tree gives them by a recursion that goes down into some sections and not into others. The tokens
give them from left to right: quoted text counts if an `include` is the last directive word, line
separator or block marker before it, and if the sections that are open there are none, or just one
chain that began with a preprocessor section and is in one. What is open is what the machine of
`SectionMachine` says.

Within any other chain nothing counts, however deep, because what is open there stays open below
what is opened later. So the two only have to be compared at the top of a file and in the
preprocessor sections of the chains there.

Owns: what the tokens tell, and that the tree of a file that is read tells the same.
Does not own: where a path leads.
-/

set_option autoImplicit false

namespace TnslReader

/-! ### Included files by the tokens -/

def Token.isInclude (token : Token) : Bool :=
  token.tokenClass == .directiveWord && token.text == DirectiveWord.includeWord.spelling

/-- Whether the last directive word, line separator or block marker among the tokens is an
`include`. -/
def endsInInclude (before : List Token) : Bool :=
  (before.reverse.find? (!·.isArgument)).any (·.isInclude)

/-- The kinds of the first and of the current section of each open chain, the innermost first. -/
def SectionMachine.openKinds (machine : SectionMachine) : List (NodeKind × NodeKind) :=
  machine.chains.map fun chain => (chain.head.kind, chain.current.kind)

/-- Whether directives include files where chains with such sections are open: at the top of a file,
or in a preprocessor section of a chain there that began with one. -/
def countsAmong (kinds : List (NodeKind × NodeKind)) : Bool :=
  kinds == [] || kinds == [(.directives, .directives)]

def countsBehind (before : List Token) : Bool :=
  (SectionMachine.empty.run (blockMarkers before)).any fun machine => countsAmong machine.openKinds

/-- The paths that the text includes where it stands behind the given tokens. -/
def includedPaths (before : List Token) : List Token → List String
  | [] => []
  | token :: rest =>
      (if token.isQuotedText && endsInInclude before && countsBehind before then
        [unquote token.text]
      else
        []) ++ includedPaths (before ++ [token]) rest

theorem includedPaths_append (before text rest : List Token) :
    includedPaths before (text ++ rest) =
      includedPaths before text ++ includedPaths (before ++ text) rest := by
  induction text generalizing before with
  | nil => simp [includedPaths]
  | cons token text inductionHypothesis =>
      rw [List.cons_append, includedPaths, includedPaths, inductionHypothesis, List.append_assoc,
        List.append_assoc, List.singleton_append]

theorem includedPaths_cons_of_not_isQuotedText {before text : List Token} {token : Token}
    (unquoted : token.isQuotedText = false) :
    includedPaths before (token :: text) = includedPaths (before ++ [token]) text := by
  rw [includedPaths, unquoted, Bool.false_and, Bool.false_and, if_neg Bool.false_ne_true,
    List.nil_append]

theorem Token.isQuotedText_eq_false_of_class {token : Token} (other : token.tokenClass ≠ .literal) :
    token.isQuotedText = false := by
  simp [isQuotedText, other]

theorem Token.isQuotedText_eq_false_of_isLineSeparator {token : Token} {rune : Char}
    (separates : token.isLineSeparator rune = true) : token.isQuotedText = false := by
  apply Token.isQuotedText_eq_false_of_class
  rw [Token.tokenClass_of_isLineSeparator separates]
  exact TokenClass.noConfusion

theorem Token.Turns.isQuotedText {token : Token} {closed? opened? : Option Section}
    (turns : token.Turns closed? opened?) : token.isQuotedText = false := by
  apply Token.isQuotedText_eq_false_of_class
  intro isLiteral
  cases turns.isWording.symm.trans (Token.isWording_of_class isLiteral)

/-! ### Open chains -/

/-- `Opens before kinds`: the machine passes the tokens and leaves such chains open. -/
def Opens (before : List Token) (kinds : List (NodeKind × NodeKind)) : Prop :=
  ∃ machine, SectionMachine.empty.run (blockMarkers before) = some machine ∧
    machine.openKinds = kinds

theorem SectionMachine.openKinds_extend (machine : SectionMachine) (nodes : List Node) :
    (machine.extend nodes).openKinds = machine.openKinds := by
  rcases machine with ⟨roots, _ | ⟨⟨head, _ | later⟩, outer⟩⟩ <;> rfl

namespace Opens

variable {before text : List Token} {kinds next : List (NodeKind × NodeKind)} {marker : Token}

theorem nil : Opens [] [] :=
  ⟨.empty, rfl, rfl⟩

theorem countsBehind_eq (opens : Opens before kinds) : countsBehind before = countsAmong kinds := by
  obtain ⟨machine, ran, rfl⟩ := opens
  rw [countsBehind, ran, Option.any_some]

theorem append (opens : Opens before kinds)
    (passes : ∀ machine : SectionMachine, machine.openKinds = kinds →
      ∃ after, machine.run (blockMarkers text) = some after ∧ after.openKinds = next) :
    Opens (before ++ text) next := by
  obtain ⟨machine, ran, held⟩ := opens
  obtain ⟨after, passed, left⟩ := passes machine held
  refine ⟨after, ?_, left⟩
  rw [blockMarkers_append, SectionMachine.run_append, ran, Option.bind_some, passed]

/-- Text without block markers leaves open what is. -/
theorem append_unmarked (opens : Opens before kinds) (unmarked : blockMarkers text = []) :
    Opens (before ++ text) kinds := by
  apply opens.append
  intro machine held
  rw [unmarked]
  exact ⟨machine, rfl, held⟩

/-- An item closes what it opens. -/
theorem append_item {depth chain : Nat} {node? : Option Node} (opens : Opens before kinds)
    (item : ItemText depth chain text node?) : Opens (before ++ text) kinds :=
  opens.append fun machine held =>
    ⟨_, item.run machine, (machine.openKinds_extend _).trans held⟩

/-- A section closes what it opens, but not itself. -/
theorem append_section {depth chain : Nat} {kind : Section} {node : Node}
    (opens : Opens before kinds) (here : SectionText depth chain kind marker text node) :
    Opens (before ++ text) kinds :=
  opens.append fun machine held =>
    ⟨_, here.run machine, (machine.openKinds_extend _).trans held⟩

theorem append_opener {kind : Section} (opens : Opens before kinds)
    (turns : marker.Turns none (some kind)) :
    Opens (before ++ [marker]) ((kind.nodeKind, kind.nodeKind) :: kinds) := by
  apply opens.append
  rintro machine rfl
  rw [SectionMachine.run_of_turns turns, SectionMachine.turn, Option.bind_some]
  exact ⟨_, rfl, rfl⟩

theorem append_redefinition {kind opened : Section} {head : NodeKind}
    (opens : Opens before ((head, kind.nodeKind) :: kinds))
    (turns : marker.Turns (some kind) (some opened)) :
    Opens (before ++ [marker]) ((head, opened.nodeKind) :: kinds) := by
  apply opens.append
  rintro ⟨roots, _ | ⟨innermost, outer⟩⟩ held
  · cases held
  · obtain ⟨top, rfl⟩ := List.cons.inj held
    obtain ⟨rfl, isCurrent⟩ := Prod.mk.inj top
    rw [SectionMachine.run_of_turns turns, SectionMachine.turn_redefine isCurrent,
      Option.bind_some]
    exact ⟨_, rfl, rfl⟩

end Opens

/-! ### Chains in which nothing counts -/

/-- Whether nothing counts where such chains are open, whatever is opened within them. -/
def Buried (kinds : List (NodeKind × NodeKind)) : Prop :=
  ∀ inner, countsAmong (inner ++ kinds) = false

namespace Buried

variable {kinds : List (NodeKind × NodeKind)}

theorem countsAmong_eq (buried : Buried kinds) : countsAmong kinds = false :=
  buried []

theorem cons (buried : Buried kinds) (top : NodeKind × NodeKind) : Buried (top :: kinds) := by
  intro inner
  simpa using buried (inner ++ [top])

/-- A chain that did not begin with a preprocessor section buries what is in it. -/
theorem of_head {head current : NodeKind} (other : head ≠ .directives) :
    Buried ((head, current) :: kinds) := by
  intro inner
  cases inner <;> simp [countsAmong, other]

/-- A chain that is not in a preprocessor section buries what is in it. -/
theorem of_current {head current : NodeKind} (other : current ≠ .directives) :
    Buried ((head, current) :: kinds) := by
  intro inner
  cases inner <;> simp [countsAmong, other]

end Buried

/-- Nothing is included before a block marker if nothing counts there. -/
theorem Opens.includedPaths_eq_nil {before text : List Token}
    {kinds : List (NodeKind × NodeKind)} (opens : Opens before kinds)
    (uncounted : countsAmong kinds = false) (unmarked : blockMarkers text = []) :
    includedPaths before text = [] := by
  induction text generalizing before with
  | nil => rfl
  | cons token text inductionHypothesis =>
      rw [← List.singleton_append, blockMarkers_append, List.append_eq_nil_iff] at unmarked
      rw [includedPaths, opens.countsBehind_eq, uncounted, Bool.and_false,
        if_neg Bool.false_ne_true, List.nil_append]
      exact inductionHypothesis (opens.append_unmarked unmarked.1) unmarked.2

mutual

theorem ItemText.includedPaths_of_buried {depth chain : Nat} {before text : List Token}
    {node? : Option Node} {kinds : List (NodeKind × NodeKind)} (opens : Opens before kinds)
    (buried : Buried kinds) : ItemText depth chain text node? → includedPaths before text = []
  | .empty isSemicolon =>
      opens.includedPaths_eq_nil buried.countsAmong_eq
        (blockMarkers_cons_of_isLineSeparator isSemicolon)
  | .statement isSemicolon stated =>
      opens.includedPaths_eq_nil buried.countsAmong_eq
        ((blockMarkers_cons_of_isLineSeparator isSemicolon).trans
          stated.nested.unmarked.blockMarkers_eq_nil)
  | .directive isColon directive =>
      opens.includedPaths_eq_nil buried.countsAmong_eq
        ((blockMarkers_cons_of_isLineSeparator isColon).trans directive.blockMarkers_eq_nil)
  | .sections sections => sections.includedPaths_of_buried opens buried

theorem ItemsText.includedPaths_of_buried {depth chain : Nat} {before text : List Token}
    {nodes : List Node} {kinds : List (NodeKind × NodeKind)} (opens : Opens before kinds)
    (buried : Buried kinds) : ItemsText depth chain text nodes → includedPaths before text = []
  | .done => rfl
  | .more item later => by
      rw [includedPaths_append, item.includedPaths_of_buried opens buried,
        later.includedPaths_of_buried (opens.append_item item) buried, List.nil_append]

theorem ChainedText.includedPaths_of_buried {depth chain : Nat} {before text : List Token}
    {node : Node} {kinds : List (NodeKind × NodeKind)} (opens : Opens before kinds)
    (buried : Buried kinds) : ChainedText depth chain text node → includedPaths before text = []
  | .sections _ turns first later => by
      have within := opens.append_opener turns
      rw [includedPaths_cons_of_not_isQuotedText turns.isQuotedText, includedPaths_append,
        first.includedPaths_of_buried within (buried.cons _),
        later.includedPaths_of_buried (within.append_section first) fun _ => buried.cons _,
        List.nil_append]

/-- The rest of a chain includes nothing if the chain is buried whatever its current section is. -/
theorem LaterText.includedPaths_of_buried {depth chain : Nat} {kind : Section}
    {before text : List Token} {nodes : List Node} {head : NodeKind}
    {kinds : List (NodeKind × NodeKind)} (opens : Opens before ((head, kind.nodeKind) :: kinds))
    (buried : ∀ current, Buried ((head, current) :: kinds)) :
    LaterText depth chain kind text nodes → includedPaths before text = []
  | .done turns => includedPaths_cons_of_not_isQuotedText turns.isQuotedText
  | .more turns here later => by
      have within := opens.append_redefinition turns
      rw [includedPaths_cons_of_not_isQuotedText turns.isQuotedText, includedPaths_append,
        here.includedPaths_of_buried within (buried _),
        later.includedPaths_of_buried (within.append_section here) buried, List.nil_append]

theorem SectionText.includedPaths_of_buried {depth chain : Nat} {kind : Section} {marker : Token}
    {before text : List Token} {node : Node} {kinds : List (NodeKind × NodeKind)}
    (opens : Opens before kinds) (buried : Buried kinds) :
    SectionText depth chain kind marker text node → includedPaths before text = []
  | .code heading body => by
      have unmarked := heading.unmarked.blockMarkers_eq_nil
      rw [includedPaths_append, opens.includedPaths_eq_nil buried.countsAmong_eq unmarked,
        body.includedPaths_of_buried (opens.append_unmarked unmarked) buried, List.nil_append]
  | .preprocessor directives =>
      opens.includedPaths_eq_nil buried.countsAmong_eq directives.blockMarkers_eq_nil

end

/-! ### Directives that count -/

section Counted

variable {before text : List Token} {token : Token}

theorem countsBehind_append (unmarked : blockMarkers text = []) :
    countsBehind (before ++ text) = countsBehind before := by
  rw [countsBehind, blockMarkers_append, unmarked, List.append_nil, countsBehind]

theorem endsInInclude_concat :
    endsInInclude (before ++ [token]) =
      if token.isArgument then endsInInclude before else token.isInclude := by
  rw [endsInInclude, List.reverse_append, List.reverse_singleton, List.singleton_append,
    List.find?_cons]
  cases token.isArgument <;> rfl

theorem Token.isInclude_eq_false_of_class (other : token.tokenClass ≠ .directiveWord) :
    token.isInclude = false := by
  simp [isInclude, other]

/-- All of the arguments behind an `include` that counts are included, or none. -/
theorem includedPaths_of_isArgument (arguments : ∀ token ∈ text, token.isArgument = true) :
    includedPaths before text =
      if endsInInclude before && countsBehind before then
        (text.filter (·.isQuotedText)).map fun argument => unquote argument.text
      else
        [] := by
  induction text generalizing before with
  | nil => simp [includedPaths]
  | cons token text inductionHypothesis =>
      obtain ⟨here, later⟩ := List.forall_mem_cons.mp arguments
      have unmarked : blockMarkers [token] = [] := blockMarkers_eq_nil
        (List.forall_mem_singleton.mpr (Token.isBlockMarker_eq_false_of_isArgument here))
      rw [includedPaths, inductionHypothesis later, endsInInclude_concat, if_pos here,
        countsBehind_append unmarked, Bool.and_assoc]
      by_cases counts : (endsInInclude before && countsBehind before) = true
      · by_cases quoted : token.isQuotedText = true <;> simp [counts, quoted]
      · simp [counts]

theorem Token.isInclude_eq {token : Token} (isWord : token.tokenClass = .directiveWord) :
    token.isInclude = (DirectiveWord.ofSpelling? token.text == some .includeWord) := by
  rw [isInclude, isWord, beq_self_eq_true, Bool.true_and, Bool.eq_iff_iff, beq_iff_eq, beq_iff_eq]
  constructor
  · intro spelled
    rw [spelled]
    decide
  · intro found
    exact (DirectiveWord.spelling_of_ofSpelling? found).symm

/-- A directive that counts includes what its node does. -/
theorem DirectiveText.includedPaths_eq {node : Node} (counts : countsBehind before = true)
    (directive : DirectiveText text node) : includedPaths before text = node.includedHere := by
  have unmarked := directive.isBlockMarker_eq_false
  cases directive with
  | @directive word text isWord arguments =>
      have here : blockMarkers [word] = [] :=
        TnslReader.blockMarkers_eq_nil (List.forall_mem_singleton.mpr (unmarked word (by simp)))
      have ends : word.isArgument = false := by simp [Token.isArgument, isWord]
      rw [includedPaths_cons_of_not_isQuotedText
          (Token.isQuotedText_eq_false_of_class (by simp [isWord])),
        includedPaths_of_isArgument arguments, endsInInclude_concat, ends,
        if_neg Bool.false_ne_true, countsBehind_append here, counts, Bool.and_true,
        Token.isInclude_eq isWord]
      simp [Node.includedHere, Node.text, Node.leaf, List.filter_map, Function.comp_def]

end Counted

namespace Node

theorem includePathsAmong_append (nodes others : List Node) :
    includePathsAmong (nodes ++ others) = includePathsAmong nodes ++ includePathsAmong others := by
  induction nodes with
  | nil => rfl
  | cons node nodes inductionHypothesis =>
      rw [List.cons_append, includePathsAmong, includePathsAmong, inductionHypothesis,
        List.append_assoc]

/-- A statement includes nothing. -/
theorem includePathsAmong_singleton_eq_nil {node : Node}
    (isStatement : node.kind.isStatement = true) : includePathsAmong [node] = [] := by
  rcases node with ⟨kind, token, children⟩
  cases kind <;> first | rfl | cases isStatement

theorem includePathsAmong_tagged_directives {marker : Token} {children : List Node} :
    includePathsAmong [.tagged .directives marker children] = includePathsAmong children := by
  rw [tagged, includePathsAmong, includePaths, includePathsAmong, List.append_nil]

end Node

open Node (includePathsAmong includePathsAmong_append includePathsAmong_singleton_eq_nil
  includePathsAmong_tagged_directives)

theorem DirectiveText.includePathsAmong_cons {text : List Token} {node : Node}
    (directive : DirectiveText text node) (nodes : List Node) :
    includePathsAmong (node :: nodes) = node.includedHere ++ includePathsAmong nodes := by
  cases directive
  rfl

theorem DirectivesText.includedPaths_eq {before text : List Token} {nodes : List Node}
    (counts : countsBehind before = true) (directives : DirectivesText text nodes) :
    includedPaths before text = includePathsAmong nodes := by
  induction directives generalizing before with
  | done => rfl
  | colon isColon _ inductionHypothesis =>
      have unquoted := Token.isQuotedText_eq_false_of_isLineSeparator isColon
      rw [includedPaths_cons_of_not_isQuotedText unquoted, inductionHypothesis]
      rwa [countsBehind_append (blockMarkers_cons_of_isLineSeparator isColon)]
  | directive directive _ inductionHypothesis =>
      rw [includedPaths_append, directive.includedPaths_eq counts, inductionHypothesis,
        directive.includePathsAmong_cons]
      rwa [countsBehind_append directive.blockMarkers_eq_nil]

/-! ### Whole files -/

/-- A section of a chain that began with a preprocessor section includes what its node does. -/
theorem SectionText.includedPaths_eq {depth chain : Nat} {kind : Section} {marker : Token}
    {before text : List Token} {node : Node} (opens : Opens before [(.directives, kind.nodeKind)])
    (here : SectionText depth chain kind marker text node) :
    includedPaths before text = includePathsAmong [node] := by
  have whenBuried := here.includedPaths_of_buried opens
  cases here with
  | code => exact whenBuried (.of_current NodeKind.noConfusion)
  | preprocessor directives =>
      rw [directives.includedPaths_eq opens.countsBehind_eq, includePathsAmong_tagged_directives]

theorem LaterText.includedPaths_eq {depth chain : Nat} {kind : Section} {before text : List Token}
    {nodes : List Node} (opens : Opens before [(.directives, kind.nodeKind)]) :
    LaterText depth chain kind text nodes → includedPaths before text = includePathsAmong nodes
  | .done turns => includedPaths_cons_of_not_isQuotedText turns.isQuotedText
  | @LaterText.more _ _ _ _ _ _ _ node nodes turns here later => by
      have within := opens.append_redefinition turns
      rw [includedPaths_cons_of_not_isQuotedText turns.isQuotedText, includedPaths_append,
        here.includedPaths_eq within, later.includedPaths_eq (within.append_section here),
        ← includePathsAmong_append, List.singleton_append]

/-- A chain at the top of a file includes what its node does. -/
theorem ChainedText.includedPaths_eq {depth chain : Nat} {before text : List Token} {node : Node}
    (opens : Opens before []) (sections : ChainedText depth chain text node) :
    includedPaths before text = includePathsAmong [node] := by
  cases sections with
  | sections _ turns first later =>
      have within := opens.append_opener turns
      rw [includedPaths_cons_of_not_isQuotedText turns.isQuotedText, includedPaths_append]
      have behind := within.append_section first
      have whenBuried := first.includedPaths_of_buried within
      cases first with
      | code =>
          -- Code at the front buries the later sections of the chain as well.
          rw [whenBuried (.of_head NodeKind.noConfusion),
            later.includedPaths_of_buried behind fun _ => .of_head NodeKind.noConfusion]
          rfl
      | preprocessor directives =>
          rw [directives.includedPaths_eq within.countsBehind_eq, later.includedPaths_eq behind,
            ← includePathsAmong_append]
          exact includePathsAmong_tagged_directives.symm

/-- Text without directive words includes nothing behind a separator. -/
theorem includedPaths_of_isQuiet {before text : List Token}
    (ends : endsInInclude before = false) (quiet : ∀ token ∈ text, token.isQuiet = true) :
    includedPaths before text = [] := by
  induction text generalizing before with
  | nil => rfl
  | cons token text inductionHypothesis =>
      obtain ⟨here, later⟩ := List.forall_mem_cons.mp quiet
      simp only [Token.isQuiet, Bool.and_eq_true, bne_iff_ne] at here
      rw [includedPaths, ends, Bool.and_false, Bool.false_and, if_neg Bool.false_ne_true,
        List.nil_append]
      apply inductionHypothesis _ later
      rw [endsInInclude_concat, ends, Token.isInclude_eq_false_of_class here.2, ite_self]

theorem ItemText.includedPaths_eq {depth chain : Nat} {before text : List Token}
    {node? : Option Node} (opens : Opens before []) (item : ItemText depth chain text node?) :
    includedPaths before text = includePathsAmong node?.toList := by
  cases item with
  | empty isSemicolon =>
      have unquoted := Token.isQuotedText_eq_false_of_isLineSeparator isSemicolon
      exact includedPaths_cons_of_not_isQuotedText unquoted
  | @statement _ _ semicolon text node isSemicolon stated =>
      have ends : endsInInclude (before ++ [semicolon]) = false := by
        rw [endsInInclude_concat, Token.isArgument_of_isLineSeparator isSemicolon,
          if_neg Bool.false_ne_true]
        apply Token.isInclude_eq_false_of_class
        rw [Token.tokenClass_of_isLineSeparator isSemicolon]
        exact TokenClass.noConfusion
      have unquoted := Token.isQuotedText_eq_false_of_isLineSeparator isSemicolon
      rw [includedPaths_cons_of_not_isQuotedText unquoted,
        includedPaths_of_isQuiet ends stated.retold.quiet, Option.toList_some,
        includePathsAmong_singleton_eq_nil stated.shaped.1]
  | @directive _ _ colon text node isColon directive =>
      have counts : countsBehind (before ++ [colon]) = true := by
        rw [countsBehind_append (blockMarkers_cons_of_isLineSeparator isColon)]
        exact opens.countsBehind_eq
      have unquoted := Token.isQuotedText_eq_false_of_isLineSeparator isColon
      rw [includedPaths_cons_of_not_isQuotedText unquoted,
        directive.includedPaths_eq counts, Option.toList_some, directive.includePathsAmong_cons,
        includePathsAmong, List.append_nil]
  | sections sections => exact sections.includedPaths_eq opens

theorem ItemsText.includedPaths_eq {depth chain : Nat} {before text : List Token}
    {nodes : List Node} (opens : Opens before []) :
    ItemsText depth chain text nodes → includedPaths before text = includePathsAmong nodes
  | .done => rfl
  | .more item later => by
      rw [includedPaths_append, item.includedPaths_eq opens,
        later.includedPaths_eq (opens.append_item item), includePathsAmong_append]

/-- The files that a tree includes are those that the tokens alone tell, in the same order. -/
theorem readTree_includePaths {tokens : Array Token} {label : String} {limits : Limits}
    {root : Node} (read : readTree tokens label limits = .ok root) :
    root.includePaths = includedPaths [] tokens.toList := by
  obtain ⟨items, rfl, file⟩ := itemsText_of_readTree read
  rw [file.includedPaths_eq Opens.nil, Node.includePaths]

/-- The tokens of `/: include "a" :; : include "b" ;: include "c" :/ /; ;: include "d" :/`. -/
def mixedChains : Array Token :=
  #[⟨.delimiter, "/:", 1, 1, ⟨0, 2⟩⟩, ⟨.directiveWord, "include", 1, 4, ⟨3, 10⟩⟩,
    ⟨.literal, "\"a\"", 1, 12, ⟨11, 14⟩⟩, ⟨.delimiter, ":;", 1, 16, ⟨15, 17⟩⟩,
    ⟨.lineSeparator, ":", 1, 19, ⟨18, 19⟩⟩, ⟨.directiveWord, "include", 1, 21, ⟨20, 27⟩⟩,
    ⟨.literal, "\"b\"", 1, 29, ⟨28, 31⟩⟩, ⟨.delimiter, ";:", 1, 33, ⟨32, 34⟩⟩,
    ⟨.directiveWord, "include", 1, 36, ⟨35, 42⟩⟩, ⟨.literal, "\"c\"", 1, 44, ⟨43, 46⟩⟩,
    ⟨.delimiter, ":/", 1, 48, ⟨47, 49⟩⟩, ⟨.delimiter, "/;", 1, 51, ⟨50, 52⟩⟩,
    ⟨.delimiter, ";:", 1, 54, ⟨53, 55⟩⟩, ⟨.directiveWord, "include", 1, 57, ⟨56, 63⟩⟩,
    ⟨.literal, "\"d\"", 1, 65, ⟨64, 67⟩⟩, ⟨.delimiter, ":/", 1, 69, ⟨68, 70⟩⟩]

/-- Neither the directive in a code section counts, nor the one in a chain that began with a code
section. -/
theorem readTree_includePaths_mixedChains :
    lex "/: include \"a\" :; : include \"b\" ;: include \"c\" :/ /; ;: include \"d\" :/" =
        mixedChains ∧
      includedPaths [] mixedChains.toList = ["a", "c"] := by
  refine ⟨by decide +kernel, ?_⟩
  have read : readTree mixedChains "file" .standard =
      .ok ⟨.root, .root "file",
        [.tagged .directives mixedChains[0]
          [⟨.directive, mixedChains[1], [.leaf .argument mixedChains[2]]⟩,
            .tagged .block mixedChains[3]
              [.tagged .header mixedChains[3] [],
                ⟨.directive, mixedChains[5], [.leaf .argument mixedChains[6]]⟩],
            .tagged .directives mixedChains[7]
              [⟨.directive, mixedChains[8], [.leaf .argument mixedChains[9]]⟩]],
          .tagged .block mixedChains[11]
            [.tagged .header mixedChains[11] [],
              .tagged .directives mixedChains[12]
                [⟨.directive, mixedChains[13], [.leaf .argument mixedChains[14]]⟩]]]⟩ := by
    decide +kernel
  rw [← readTree_includePaths read]
  decide +kernel

end TnslReader
