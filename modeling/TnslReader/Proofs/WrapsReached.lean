import TnslReader.Proofs.DefinitionsApart
import TnslReader.Proofs.FileWraps
import TnslReader.Proofs.ValueCompleteness

/-!
Contract: files with as many wraps on a path as there may be.

A group is a word, or a smaller group in brackets, with operators behind it, one more than the
smaller group has. Each group is a value within one level more than the smaller one. On the one path
of its tree it has as many wraps as `readTree_wraps` allows, so that bound is the best there is.
-/

set_option autoImplicit false

namespace TnslReader

/-! ### Values as files -/

theorem statementEnd_eq_size {tokens : Array Token} {index : Nat} (bound : index ≤ tokens.size)
    (inside : ∀ token ∈ slice tokens index tokens.size, token.endsStatement = false) :
    statementEnd tokens index = tokens.size := by
  fun_induction statementEnd tokens index with
  | case1 index within ends =>
      rw [slice_eq_cons (Array.getElem?_eq_getElem within) within] at inside
      rw [(List.forall_mem_cons.mp inside).1] at ends
      cases ends
  | case2 index within _ inductionHypothesis =>
      rw [slice_eq_cons (Array.getElem?_eq_getElem within) within] at inside
      exact inductionHypothesis within (List.forall_mem_cons.mp inside).2
  | case3 => exact Nat.max_eq_right bound

/-- A value is read as a statement, whatever it begins with but a qualifier. -/
theorem statement_eq_of_value {tokens : Array Token} {low high order : Nat} {usage : Usage}
    {node : Node} {first : Token} (size : high ≤ tokens.size)
    (valued : ValueText usage.depthLeft usage.chainLeft order (slice tokens low high) node)
    (present : tokens[low]? = some first) (notKeyword : first.tokenClass ≠ .keyword)
    (unqualified : first.isQualifierWord = false) :
    statement tokens low high usage = .ok (.tagged .valueStatement first [node]) usage := by
  have answered : value tokens low high usage = .ok node usage :=
    (value_answers rfl size valued).resolve_right fun scarce =>
      scarce.1 ⟨Nat.le_refl _, Nat.le_refl _⟩
  rw [statement, Sound.tokenAt_eq_ok present, Reading.lift_ok_bind, if_neg (by simp [notKeyword]),
    simpleStatement_eq_valueStatement (valued.isDefinitionAt_eq size usage) present unqualified,
    valueStatement, Sound.tokenAt_eq_ok present, Reading.lift_ok_bind,
    Reading.bind_eq_of_ok answered]
  rfl

/-- At a semicolon an item is a statement. -/
theorem item_eq_statementItem {tokens : Array Token} {stray : Violation} {index : Nat}
    (inside : index < tokens.size) (isSemicolon : tokens[index].isLineSeparator ';' = true) :
    item tokens stray index = statementItem tokens (index + 1) := by
  have noMarker := Token.marker?_eq_none_of_isLineSeparator isSemicolon
  rw [item, dif_pos inside]
  simp only [noMarker, isSemicolon, ↓reduceIte]

theorem statementItem_eq_of_statement {tokens : Array Token} {index stop : Nat} {usage : Usage}
    {node : Node} (ended : statementEnd tokens index = stop) (advances : index < stop)
    (stated : statement tokens index stop usage = .ok node usage) :
    statementItem tokens index usage = .ok ⟨some node, stop, Nat.le_of_lt advances⟩ usage := by
  subst ended
  rw [statementItem]
  change (if _ then _ else _ : Reading (Advance (Option Node) index)) usage = _
  rw [if_neg (by omega), Reading.bind_eq_of_ok stated]
  rfl

/-- A value behind a semicolon is a file, whatever it begins with but a qualifier. -/
theorem readTree_of_value {semicolon first : Token} {rest : List Token} {label : String}
    {limits : Limits} {order : Nat} {node : Node}
    (isSemicolon : semicolon.isLineSeparator ';' = true)
    (valued : ValueText limits.maxDepth limits.maxChain order (first :: rest) node)
    (notKeyword : first.tokenClass ≠ .keyword) (unqualified : first.isQualifierWord = false) :
    readTree (semicolon :: first :: rest).toArray label limits =
      .ok ⟨.root, .root label, [.tagged .valueStatement first [node]]⟩ := by
  generalize equal : (semicolon :: first :: rest).toArray = tokens
  have size : tokens.size = rest.length + 2 := by simp [← equal]
  have here : tokens[0] = semicolon := by simp [← equal]
  have next : tokens[1]? = some first := by simp [← equal]
  have text : slice tokens 1 tokens.size = first :: rest := by simp [slice, ← equal]
  have ended : statementEnd tokens 1 = tokens.size :=
    statementEnd_eq_size (by omega) (text ▸ valued.nested.endsStatement_eq_false)
  have stated := @statement_eq_of_value tokens 1 tokens.size order (.none limits) node first
    (Nat.le_refl _) (text ▸ valued) next notKeyword unqualified
  have itemRead : item tokens .tokenInRoot 0 (.none limits) =
      .ok ⟨some (.tagged .valueStatement first [node]), tokens.size, by omega⟩ (.none limits) := by
    rw [item_eq_statementItem (by omega) (here ▸ isSemicolon)]
    exact statementItem_eq_of_statement ended (by omega) stated
  have ending : rootItemsFrom tokens tokens.size (.none limits) = .ok [] (.none limits) := by
    rw [rootItemsFrom, dif_neg (Nat.lt_irrefl _)]
    rfl
  rw [readTree, Reading.answer, rootItemsFrom, dif_pos (by omega), Reading.bind_eq_of_ok itemRead]
  dsimp only
  rw [Reading.bind_eq_of_ok ending]
  rfl

/-! ### Groups -/

def groupWord : Token :=
  ⟨.userWord, "a", 1, 2, ⟨1, 2⟩⟩

def groupStep : Token :=
  ⟨.operator, "++", 1, 3, ⟨2, 4⟩⟩

def groupOpener : Token :=
  ⟨.delimiter, "(", 1, 2, ⟨1, 2⟩⟩

def groupCloser : Token :=
  ⟨.delimiter, ")", 1, 5, ⟨4, 5⟩⟩

def groupSemicolon : Token :=
  ⟨.lineSeparator, ";", 1, 1, ⟨0, 1⟩⟩

/-- A word, or a smaller group in brackets and one operator more behind it than that group has. -/
def groupText : Nat → List Token
  | 0 => [groupWord]
  | count + 1 =>
      groupOpener :: (groupText count ++ groupCloser :: List.replicate (count + 1) groupStep)

def stepped : Nat → Node → Node
  | 0, base => base
  | count + 1, base => stepped count ⟨.followingOperator, groupStep, [base]⟩

def groupTree : Nat → Node
  | 0 => .leaf .identifier groupWord
  | count + 1 => stepped (count + 1) (groupTree count)

/-- Each operator behind an operand takes a level. -/
theorem followedText_stepped {chain count depth : Nat} (base : Node) (room : count ≤ depth) :
    FollowedText depth chain base (List.replicate count groupStep) (stepped count base) := by
  induction count generalizing base depth with
  | zero => exact .done
  | succ count inductionHypothesis =>
      rw [List.replicate_succ]
      have level : depth - 1 < depth := by omega
      exact .operator level (by decide) (inductionHypothesis _ (by omega))

/-- A group is a value within one level more than it has operators behind it. -/
theorem valueText_group (chain count : Nat) :
    ValueText (count + 1) chain 0 (groupText count) (groupTree count) := by
  induction count with
  | zero => exact .unary Nat.zero_lt_one (.followed (.leaf (by decide)) .done)
  | succ count inductionHypothesis =>
      have grouped : PrimaryText (count + 1) chain
          (groupOpener :: (groupText count ++ [groupCloser])) (groupTree count) :=
        .grouped (by decide) inductionHypothesis (by decide)
      have whole := UnaryText.followed grouped
        (followedText_stepped (groupTree count) (Nat.le_refl (count + 1)))
      rw [List.cons_append, List.append_assoc] at whole
      exact .unary (Nat.lt_succ_self _) whole

/-- Each operator behind an operand is one wrap more on every path. -/
theorem exists_isPath_stepped {base : Node} {path : List Node} (isPath : base.IsPath path)
    (count : Nat) : ∃ longer, (stepped count base).IsPath longer ∧
      Node.wrapsOn longer = Node.wrapsOn path + count := by
  induction count generalizing base path with
  | zero => exact ⟨path, isPath, rfl⟩
  | succ count inductionHypothesis =>
      have wrapped : Node.IsPath ⟨.followingOperator, groupStep, [base]⟩ (_ :: path) :=
        .down (List.mem_singleton_self base) isPath
      obtain ⟨longer, isLonger, wraps⟩ := inductionHypothesis wrapped
      refine ⟨longer, isLonger, wraps.trans ?_⟩
      simp only [Node.wrapsOn, List.countP_cons, NodeKind.wraps, ↓reduceIte]
      omega

theorem exists_isPath_group (count : Nat) :
    ∃ path, (groupTree count).IsPath path ∧ Node.wrapsOn path = wrapRoom (count + 1) := by
  induction count with
  | zero => exact ⟨_, .leaf, rfl⟩
  | succ count inductionHypothesis =>
      obtain ⟨path, isPath, wraps⟩ := inductionHypothesis
      obtain ⟨longer, isLonger, longerWraps⟩ := exists_isPath_stepped isPath (count + 1)
      exact ⟨longer, isLonger, by rw [longerWraps, wraps, wrapRoom_succ (count + 1)]⟩

/-- Whatever the greatest depth, some file has a path with as many wraps as the sum of all numbers
below it. -/
theorem exists_readTree_wraps_eq (limits : Limits) (label : String) :
    ∃ tokens root path, readTree tokens label limits = .ok root ∧ root.IsPath path ∧
      Node.wrapsOn path = limits.maxDepth * (limits.maxDepth - 1) / 2 := by
  obtain ⟨maxDepth, maxChain⟩ := limits
  cases maxDepth with
  | zero =>
      have read : readTree #[] label ⟨0, maxChain⟩ = .ok ⟨.root, .root label, []⟩ := by
        rw [readTree, rootItemsFrom]
        rfl
      exact ⟨#[], _, _, read, .leaf, by simp [Node.wrapsOn, NodeKind.wraps]⟩
  | succ count =>
      have isSemicolon : groupSemicolon.isLineSeparator ';' = true := by decide
      have valued := valueText_group maxChain count
      obtain ⟨path, isPath, wraps⟩ := exists_isPath_group count
      obtain ⟨first, rest, begins, notKeyword, unqualified⟩ : ∃ first rest,
          groupText count = first :: rest ∧ first.tokenClass ≠ .keyword ∧
            first.isQualifierWord = false := by
        cases count with
        | zero => exact ⟨groupWord, [], rfl, by decide, by decide⟩
        | succ count => exact ⟨groupOpener, _, rfl, by decide, by decide⟩
      rw [begins] at valued
      refine ⟨_, _, _, readTree_of_value isSemicolon valued notKeyword unqualified,
        .down (List.mem_singleton_self _) (.down (List.mem_singleton_self _) isPath), ?_⟩
      simpa [Node.wrapsOn, NodeKind.wraps, wrapRoom] using wraps

end TnslReader
