import TnslReader.Grammar.Value
import TnslReader.Proofs.BalancedCuts
import TnslReader.Proofs.TreeWalk
import TnslReader.Proofs.ValueExtents

/-!
Contract: in a balanced range no value or type fails for its brackets.

Primaries, what follows them, types and lists look at one bracket at a time, and each of them can
find one without its counterpart. None of them does in a balanced range, and every range that they
read next is balanced again: what is within a pair, what is behind one, the operands of a chain and
the parts of a list. The end that is found for a value leaves such a range.

As for `Ensures` and `Settles`, each way to build a reading has one rule here. Limits play no part:
a limit that is reached is no error about brackets.

Owns: the rules for `Reading.Spares`, and that the end found for a value rules out such errors.
-/

set_option autoImplicit false

namespace TnslReader

/-- Whether the error is about a bracket that has no counterpart, or one of another kind. -/
def ParseError.IsBracketError : ParseError → Prop
  | .violation .unexpectedCloser _ => True
  | .violation .mismatchedCloser _ => True
  | .violation .unclosedBracket _ => True
  | _ => False

def Spared {α : Type} (answer : Except ParseError α) (property : α → Prop) : Prop :=
  match answer with
  | .ok result => property result
  | .error error => ¬error.IsBracketError

/-- Under any limits, and whatever is in use of them, the reading answers with the property or fails
for something else than brackets. -/
def Reading.Spares {α : Type} (reading : Reading α) (property : α → Prop) : Prop :=
  ∀ usage, Spared (reading.answer usage) property

namespace ParseError

variable {tokens : Array Token} {index : Nat}

theorem not_isBracketError_violationAt {cause : Violation}
    (other : ∀ token, ¬IsBracketError (.violation cause token)) :
    ¬(violationAt tokens index cause).IsBracketError := by
  unfold violationAt
  split
  · exact other _
  · exact id

theorem not_isBracketError_expected {expectation : Expectation} :
    ¬(expected tokens index expectation).IsBracketError := by
  unfold expected
  split <;> exact id

theorem not_isBracketError_limitAt {make : Token → ParseError}
    (other : ∀ token, ¬(make token).IsBracketError) :
    ¬(limitAt tokens index make).IsBracketError := by
  unfold limitAt
  split
  · exact other _
  · exact id

end ParseError

/-! ### Rules -/

namespace Spared

variable {α β : Type} {tokens : Array Token} {property : α → Prop} {other : β → Prop}
  {answer : Except ParseError α}

theorem bind {next : α → Except ParseError β} (first : Spared answer property)
    (second : ∀ result, property result → Spared (next result) other) :
    Spared (answer >>= next) other := by
  cases answer with
  | ok result => exact second result first
  | error error => exact first

theorem tokenAt (tokens : Array Token) (index : Nat) :
    Spared (Reading.tokenAt tokens index) fun token => tokens[index]? = some token := by
  unfold Reading.tokenAt
  split
  next token present => exact present
  next => exact id

end Spared

namespace Reading

variable {α β : Type} {tokens : Array Token} {property : α → Prop} {other : β → Prop}
  {reading : Reading α} {next : α → Reading β}

theorem spares_pure {result : α} (holds : property result) :
    (pure result : Reading α).Spares property :=
  fun _ => holds

theorem spares_throw {error : ParseError} (free : ¬error.IsBracketError) :
    (throw error : Reading α).Spares property :=
  fun _ => free

theorem spares_lift {answer : Except ParseError α} (spared : Spared answer property) :
    (liftM answer : Reading α).Spares property := by
  intro usage
  cases answer <;> exact spared

theorem Spares.bind (spares : reading.Spares property)
    (later : ∀ result, property result → (next result).Spares other) :
    (reading >>= next).Spares other := by
  intro usage
  have held := spares usage
  unfold Reading.answer at held ⊢
  cases ran : reading usage with
  | ok result after =>
      rw [ran] at held
      rw [bind_eq_of_ok ran]
      exact later result held after
  | error error after =>
      rw [ran] at held
      rw [bind_eq_of_error ran]
      exact held

/-- Behind an answer that is known, the reading goes on with it. -/
theorem spares_answered_bind {answer : Except ParseError α} {result : α}
    (answered : answer = .ok result) (later : (next result).Spares other) :
    (liftM answer >>= next : Reading β).Spares other := by
  subst answered
  exact later

theorem spares_tokenAt (index : Nat) :
    (liftM (tokenAt tokens index) : Reading Token).Spares fun token =>
      tokens[index]? = some token :=
  spares_lift (.tokenAt tokens index)

/-- To give back what a body took adds no error about brackets. -/
theorem spared_giveBack {release? : Usage → Option Usage} {inner : Usage}
    (spared : Spared (reading.answer inner) property) :
    Spared (answer (fun _ => giveBack release? (reading inner)) inner) property := by
  unfold answer giveBack at *
  cases ran : reading inner with
  | ok result after =>
      rw [ran] at spared
      cases released : release? after <;> simp only [released]
      · exact id
      · exact spared
  | error error after =>
      rw [ran] at spared
      cases released : release? after <;> simp only [released]
      · exact id
      · exact spared

theorem Spares.nested {index : Nat} (spares : reading.Spares property) :
    (Reading.nested tokens index reading).Spares property := by
  intro usage
  unfold Reading.nested Reading.answer
  by_cases room : usage.depth < usage.limits.maxDepth
  · simp only [room, ↓reduceDIte]
    exact spared_giveBack (spares (usage.enter room))
  · simp only [room, ↓reduceDIte]
    exact ParseError.not_isBracketError_limitAt fun _ => id

theorem Spares.chained {index count : Nat} (spares : reading.Spares property) :
    (Reading.chained tokens index count reading).Spares property := by
  intro usage
  unfold Reading.chained Reading.answer
  by_cases room : usage.chain + count ≤ usage.limits.maxChain
  · simp only [room, ↓reduceDIte]
    exact spared_giveBack (spares (usage.link count room))
  · simp only [room, ↓reduceDIte]
    exact ParseError.not_isBracketError_limitAt fun _ => id

theorem spares_mapM {step : α → Reading β} (items : List α)
    (each : ∀ item ∈ items, (step item).Spares fun _ => True) :
    (items.mapM step).Spares fun _ => True := by
  induction items with
  | nil => exact spares_pure trivial
  | cons item items inductionHypothesis =>
      rw [List.mapM_cons]
      refine (each item (by simp)).bind fun result _ => ?_
      refine (inductionHypothesis fun later member => each later (by simp [member])).bind
        fun results _ => spares_pure trivial

theorem spares_foldlM {step : β → α → Reading β} (items : List α) (initial : β)
    (each : ∀ before, ∀ item ∈ items, (step before item).Spares fun _ => True) :
    (items.foldlM step initial).Spares fun _ => True := by
  induction items generalizing initial with
  | nil => exact spares_pure trivial
  | cons item items inductionHypothesis =>
      rw [List.foldlM_cons]
      refine (each initial item (by simp)).bind fun result _ => ?_
      exact inductionHypothesis result fun before later member =>
        each before later (by simp [member])

end Reading

variable {tokens : Array Token} {low high : Nat}

/-! ### Readings without state -/

/-- A token that is no delimiter is taken off a balanced range. -/
theorem Balanced.of_present {index : Nat} {token : Token}
    (balanced : Balanced true (slice tokens index high)) (present : tokens[index]? = some token)
    (inside : index < high) (notDelimiter : token.tokenClass ≠ .delimiter) :
    Balanced true (slice tokens (index + 1) high) := by
  rw [slice_eq_cons present inside] at balanced
  refine balanced.tail ?_
  cases opens : token.opens? with
  | none => rfl
  | some bracket => exact absurd (Token.tokenClass_of_opens? opens) notDelimiter

theorem spared_operandStart {index : Nat} (bound : index ≤ high)
    (balanced : Balanced true (slice tokens index high)) :
    Spared (operandStart tokens index high bound) fun start =>
      Balanced true (slice tokens start high) := by
  rw [operandStart]
  split
  next inside =>
    refine (Spared.tokenAt tokens index).bind fun token present => ?_
    split
    next precedes =>
      obtain ⟨operator, found, -⟩ := Token.exists_operator_of_mayPrecedeOperand precedes
      have later := balanced.of_present present inside
        (by simp [Token.tokenClass_of_operator? found])
      refine (spared_operandStart inside later).bind fun found held => ?_
      rcases found with ⟨start, index_lt_start, start_le_high⟩
      exact held
    next => exact balanced
  next => exact balanced
termination_by high - index

theorem spared_qualifiers {inParameter : Bool} {index : Nat}
    (balanced : Balanced true (slice tokens index high)) :
    Spared (qualifiers tokens inParameter index high) fun found =>
      Balanced true (slice tokens found.next high) := by
  rw [qualifiers]
  split
  next inside =>
    refine (Spared.tokenAt tokens index).bind fun token present => ?_
    split
    next => exact ParseError.not_isBracketError_violationAt fun _ => id
    next =>
      split
      next qualifies =>
        simp only [Bool.and_eq_true, beq_iff_eq] at qualifies
        have later := balanced.of_present present inside (by simp [qualifies.1])
        exact (spared_qualifiers later).bind fun found held => held
      next => exact balanced
  next => exact balanced
termination_by high - index

theorem spared_dottedName {index : Nat} {word : Token}
    (balanced : Balanced true (slice tokens index high)) (inside : index < high)
    (present : tokens[index]? = some word) (isWord : word.tokenClass = .userWord) :
    Spared (dottedName tokens index high) fun found =>
      Balanced true (slice tokens found.next high) := by
  have behind := balanced.of_present present inside (by simp [isWord])
  rw [dottedName, Sound.tokenAt_eq_ok present, Sound.ok_bind]
  split
  next further =>
    refine (Spared.tokenAt tokens (index + 1)).bind fun dot dotPresent => ?_
    split
    next isDot =>
      refine (Spared.tokenAt tokens (index + 2)).bind fun second secondPresent => ?_
      split
      next isSecond =>
        have later := behind.of_present dotPresent (Nat.lt_of_succ_lt further)
          (by simp [Token.tokenClass_of_operator? (Token.operator?_of_isOperator isDot)])
        exact (spared_dottedName later further secondPresent (by simpa using isSecond)).bind
          fun found held => held
      next => exact behind
    next => exact behind
  next => exact behind
termination_by high - index

theorem spared_baseName {index : Nat} {base : Token}
    (balanced : Balanced true (slice tokens index high)) (inside : index < high)
    (present : tokens[index]? = some base) :
    Spared (baseName tokens index high base) fun found =>
      Balanced true (slice tokens found.next high) := by
  unfold baseName
  split
  next isBuiltin => exact balanced.of_present present inside (by simp [isBuiltin])
  next isWord => exact spared_dottedName balanced inside present isWord
  all_goals exact ParseError.not_isBracketError_violationAt fun _ => id

theorem spared_backReference {inParameter : Bool} {index : Nat} :
    Spared (backReference tokens inParameter index high) fun _ => True := by
  unfold backReference
  split
  next =>
    refine (Spared.tokenAt tokens index).bind fun token _ => ?_
    split <;> trivial
  next => trivial

/-! ### The readings of values and types -/

open Reading (Spares spares_pure spares_throw spares_lift spares_tokenAt spares_answered_bind
  spares_mapM spares_foldlM)

theorem spares_violationAt {α : Type} {property : α → Prop} {index : Nat} {cause : Violation}
    (other : ∀ token, ¬ParseError.IsBracketError (.violation cause token)) :
    (throw (.violationAt tokens index cause) : Reading α).Spares property :=
  spares_throw (ParseError.not_isBracketError_violationAt other)

theorem spares_expected {α : Type} {property : α → Prop} {index : Nat} {expectation : Expectation} :
    (throw (.expected tokens index expectation) : Reading α).Spares property :=
  spares_throw ParseError.not_isBracketError_expected

mutual

theorem value_spares {tokens : Array Token} {low high : Nat} (size : high ≤ tokens.size)
    (balanced : Balanced true (slice tokens low high)) :
    (value tokens low high).Spares fun _ => True := by
  rw [value]
  split
  next nonempty =>
    refine Spares.nested ?_
    obtain ⟨points, split, cut⟩ := exists_splitPoints_of_balanced size balanced
    refine spares_answered_bind split ?_
    cases points with
    | nil => exact unary_spares size (Nat.le_of_lt nonempty) balanced
    | cons first later =>
        have operands := balanced_of_mem_links balanced cut
        have first_lt_high := first.index_lt_high
        refine Spares.chained ?_
        refine (value_spares (by omega) (cut first (by simp)).1).bind fun leftmost _ => ?_
        refine spares_foldlM _ leftmost fun left link member => ?_
        have := link.extent_lt nonempty
        refine (rightOperand_spares (link.stop_le_high.trans size) (operands link member)).bind
          fun right _ => ?_
        exact (spares_tokenAt _).bind fun token _ => spares_pure trivial
  next => exact spares_expected
termination_by 16 * (high - low) + 7
decreasing_by all_goals omega

theorem rightOperand_spares {tokens : Array Token} {operator stop : Nat}
    (size : stop ≤ tokens.size) (balanced : Balanced true (slice tokens (operator + 1) stop)) :
    (rightOperand tokens operator stop).Spares fun _ => True := by
  rw [rightOperand]
  refine (spares_tokenAt operator).bind fun token _ => ?_
  split
  next =>
    refine (typeAt_spares size balanced).bind fun found _ => ?_
    rcases found with ⟨type, next, le_next⟩
    dsimp only
    split
    · exact spares_pure trivial
    · exact spares_violationAt fun _ => id
  next => exact value_spares size balanced
termination_by 16 * (stop - operator) + 8
decreasing_by all_goals omega

theorem unary_spares {tokens : Array Token} {low high : Nat} (size : high ≤ tokens.size)
    (bound : low ≤ high) (balanced : Balanced true (slice tokens low high)) :
    (unary tokens low high bound).Spares fun _ => True := by
  rw [unary]
  refine (spares_lift (spared_operandStart bound balanced)).bind fun found behind => ?_
  rcases found with ⟨start, low_le_start, start_le_high⟩
  dsimp only at behind ⊢
  split
  next opens =>
    simp only [Bool.and_eq_true, decide_eq_true_eq, beq_iff_eq] at opens
    exact composite_spares size low_le_start opens.1 opens.2 behind
  next => exact preceded_spares size low_le_start start_le_high behind
termination_by 16 * (high - low) + 6
decreasing_by all_goals omega

theorem composite_spares {tokens : Array Token} {low brace high : Nat} (size : high ≤ tokens.size)
    (low_le_brace : low ≤ brace) (inside : brace < high)
    (opens : tokens[brace]?.bind Token.opens? = some .curly)
    (balanced : Balanced true (slice tokens brace high)) :
    (composite tokens low brace high low_le_brace).Spares fun _ => True := by
  rw [composite]
  split
  next =>
    obtain ⟨opener, present, opens⟩ := Option.bind_eq_some_iff.mp opens
    obtain ⟨close, brace_lt_close, close_lt_high, closed, within, -, -⟩ :=
      exists_closing present opens inside size balanced
    refine spares_answered_bind closed ?_
    dsimp only
    split
    next =>
      refine (spares_tokenAt brace).bind fun anchor _ => ?_
      obtain ⟨items, cut, each⟩ := exists_parts_of_balanced (by omega) within
      refine spares_answered_bind cut ?_
      refine (spares_mapM items fun part member => ?_).bind fun values _ => spares_pure trivial
      have := part.extent_le
      have := part.stop_le_high
      exact value_spares (by omega) (each part member)
    next => exact spares_violationAt fun _ => id
  next => exact spares_violationAt fun _ => id
termination_by 16 * (high - low) + 5
decreasing_by all_goals omega

theorem preceded_spares {tokens : Array Token} {low start high : Nat} (size : high ≤ tokens.size)
    (low_le_start : low ≤ start) (start_le_high : start ≤ high)
    (balanced : Balanced true (slice tokens start high)) :
    (preceded tokens low start high low_le_start start_le_high).Spares fun _ => True := by
  rw [preceded]
  split
  next another =>
    refine Spares.nested ?_
    refine (preceded_spares size another start_le_high balanced).bind fun operand _ => ?_
    exact (spares_tokenAt low).bind fun token _ => spares_pure trivial
  next =>
    refine (primary_spares size balanced).bind fun found behind => ?_
    rcases found with ⟨node, next, le_next⟩
    exact followed_spares size behind
termination_by 16 * (high - low) + 4
decreasing_by all_goals omega

theorem primary_spares {tokens : Array Token} {index high : Nat} (size : high ≤ tokens.size)
    (balanced : Balanced true (slice tokens index high)) :
    (primary tokens index high).Spares fun found =>
      Balanced true (slice tokens found.next high) := by
  rw [primary]
  split
  next inside =>
    split
    next => exact spares_expected
    next token present =>
      have classified (notDelimiter : token.tokenClass ≠ .delimiter) :=
        balanced.of_present present inside notDelimiter
      split
      next isLiteral => exact spares_pure (classified (by simp [isLiteral]))
      next isWord => exact spares_pure (classified (by simp [isWord]))
      next isType => exact spares_pure (classified (by simp [isType]))
      next => exact spares_violationAt fun _ => id
      next =>
        split
        next opens =>
          obtain ⟨close, index_lt_close, close_lt_high, closed, within, -, behind⟩ :=
            exists_closing present (by simpa using opens) inside size balanced
          refine spares_answered_bind closed ?_
          exact (value_spares (by omega) within).bind fun node _ => spares_pure behind
        next =>
          rw [slice_eq_cons present inside] at balanced
          rw [if_neg (by simp [Token.isCloser, balanced.closes?_head])]
          exact spares_expected
  next => exact spares_expected
termination_by 16 * (high - index) + 3
decreasing_by all_goals omega

theorem followed_spares {tokens : Array Token} {node : Node} {index high : Nat}
    (size : high ≤ tokens.size) (balanced : Balanced true (slice tokens index high)) :
    (followed tokens node index high).Spares fun _ => True := by
  rw [followed]
  split
  next inside =>
    refine (spares_tokenAt index).bind fun token present => ?_
    have notCloser : token.closes? = none := by
      rw [slice_eq_cons present inside] at balanced
      exact balanced.closes?_head
    rw [if_neg (by simp [Token.isCloser, notCloser])]
    refine Spares.nested ?_
    split
    next opens =>
      obtain ⟨close, index_lt_close, close_lt_high, closed, within, -, behind⟩ :=
        exists_closing present opens inside size balanced
      refine spares_answered_bind closed ?_
      refine (valueList_spares (by omega) within).bind fun arguments _ => ?_
      exact followed_spares size behind
    next opens =>
      obtain ⟨close, index_lt_close, close_lt_high, closed, within, -, behind⟩ :=
        exists_closing present opens inside size balanced
      refine spares_answered_bind closed ?_
      refine (value_spares (by omega) within).bind fun position _ => ?_
      exact followed_spares size behind
    next opens =>
      obtain ⟨close, index_lt_close, close_lt_high, closed, within, -, behind⟩ :=
        exists_closing present opens inside size balanced
      refine spares_answered_bind closed ?_
      refine (typeList_spares (by omega) within).bind fun types _ => ?_
      exact followed_spares size behind
    next opens =>
      split
      next =>
        rw [slice_eq_cons present inside] at balanced
        exact followed_spares size (balanced.tail opens)
      next => exact spares_violationAt fun _ => id
  next => exact spares_pure trivial
termination_by 16 * (high - index) + 2
decreasing_by all_goals omega

theorem valueList_spares {tokens : Array Token} {opener low high : Nat}
    (size : high ≤ tokens.size) (balanced : Balanced true (slice tokens low high)) :
    (valueList tokens opener low high).Spares fun _ => True := by
  rw [valueList]
  refine (spares_tokenAt opener).bind fun anchor _ => ?_
  obtain ⟨items, cut, each⟩ := exists_parts_of_balanced size balanced
  refine spares_answered_bind cut ?_
  refine (spares_mapM items fun part member => ?_).bind fun values _ => spares_pure trivial
  have := part.extent_le
  exact value_spares (part.stop_le_high.trans size) (each part member)
termination_by 16 * (high - low) + 8
decreasing_by all_goals omega

theorem typeList_spares {tokens : Array Token} {opener low high : Nat}
    (size : high ≤ tokens.size) (balanced : Balanced true (slice tokens low high)) :
    (typeList tokens opener low high).Spares fun _ => True := by
  rw [typeList]
  refine (spares_tokenAt opener).bind fun anchor _ => ?_
  obtain ⟨items, cut, each⟩ := exists_parts_of_balanced size balanced
  refine spares_answered_bind cut ?_
  refine (spares_mapM items fun part member => ?_).bind fun types _ => spares_pure trivial
  have := part.extent_le
  refine (typeAt_spares (part.stop_le_high.trans size) (each part member)).bind fun found _ => ?_
  rcases found with ⟨type, next, le_next⟩
  dsimp only
  split
  · exact spares_pure trivial
  · exact spares_violationAt fun _ => id
termination_by 16 * (high - low) + 8
decreasing_by all_goals omega

theorem typeAt_spares {tokens : Array Token} {inParameter : Bool} {low high : Nat}
    (size : high ≤ tokens.size) (balanced : Balanced true (slice tokens low high)) :
    (typeAt tokens inParameter low high).Spares fun _ => True := by
  rw [typeAt]
  split
  next inside =>
    split
    next => exact spares_expected
    next =>
      refine Spares.nested ?_
      refine (spares_lift (spared_qualifiers balanced)).bind fun found behindQualifiers => ?_
      rcases found with ⟨qualifying, afterQualifiers, le_afterQualifiers⟩
      dsimp only at behindQualifiers ⊢
      refine (typeMarks_spares size behindQualifiers).bind fun found behindMarks => ?_
      rcases found with ⟨marks, baseIndex, le_baseIndex⟩
      dsimp only at behindMarks ⊢
      split
      next baseInside =>
        split
        next => exact spares_expected
        next base present =>
          refine (spares_lift (spared_baseName behindMarks baseInside present)).bind
            fun found behindName => ?_
          rcases found with ⟨path, name, afterName, lt_afterName⟩
          dsimp only at behindName ⊢
          refine (typeArguments_spares size behindName).bind fun found _ => ?_
          exact (spares_lift spared_backReference).bind fun reference _ => spares_pure trivial
      next => exact spares_expected
  next => exact spares_expected
termination_by 16 * (high - low) + 7
decreasing_by all_goals omega

theorem typeMarks_spares {tokens : Array Token} {index high : Nat} (size : high ≤ tokens.size)
    (balanced : Balanced true (slice tokens index high)) :
    (typeMarks tokens index high).Spares fun found =>
      Balanced true (slice tokens found.next high) := by
  rw [typeMarks]
  split
  next inside =>
    refine (spares_tokenAt index).bind fun token present => ?_
    split
    next points =>
      have behind := balanced.of_present present inside
        (by simp [Token.tokenClass_of_operator? (Token.operator?_of_isOperator points)])
      exact (typeMarks_spares size behind).bind fun found held => spares_pure held
    next =>
      split
      next opens =>
        obtain ⟨close, index_lt_close, close_lt_high, closed, within, -, behind⟩ :=
          exists_closing present (by simpa using opens) inside size balanced
        refine spares_answered_bind closed ?_
        dsimp only
        split
        next =>
          refine (value_spares (by omega) within).bind fun length _ => ?_
          rw [pure_bind]
          exact (typeMarks_spares size behind).bind fun later held => spares_pure held
        next =>
          rw [pure_bind]
          exact (typeMarks_spares size behind).bind fun later held => spares_pure held
      next => exact spares_pure balanced
  next => exact spares_pure balanced
termination_by 16 * (high - index) + 6
decreasing_by all_goals omega

theorem typeArguments_spares {tokens : Array Token} {base : Token} {index high : Nat}
    (size : high ≤ tokens.size) (balanced : Balanced true (slice tokens index high)) :
    (typeArguments tokens base index high).Spares fun _ => True := by
  rw [typeArguments]
  split
  next inside =>
    refine (spares_tokenAt index).bind fun token present => ?_
    split
    next opens =>
      obtain ⟨close, index_lt_close, close_lt_high, closed, within, -, behind⟩ :=
        exists_closing present (by simpa using opens) inside size balanced
      refine spares_answered_bind closed ?_
      refine (typeList_spares (by omega) within).bind fun types _ => ?_
      split
      next further =>
        refine (spares_tokenAt (close + 1)).bind fun second secondPresent => ?_
        split
        next opensResults =>
          simp only [Bool.and_eq_true, beq_iff_eq] at opensResults
          obtain ⟨secondClose, close_lt_secondClose, secondClose_lt_high, closed, within, -, -⟩ :=
            exists_closing secondPresent opensResults.2 further size behind
          refine spares_answered_bind closed ?_
          exact (typeList_spares (by omega) within).bind fun results _ => spares_pure trivial
        next => exact spares_pure trivial
      next => exact spares_pure trivial
    next => exact spares_pure trivial
  next => exact spares_pure trivial
termination_by 16 * (high - index) + 6
decreasing_by all_goals omega

end

/-! ### What is found to be a value -/

/-- The end found for a value leaves no line separator and no marker of blocks in it, pairs all its
brackets by kind, and has its commas inside them. And then the value has no error about brackets,
whatever the limits are. -/
theorem valueExtent_balances {start limit stop : Nat}
    (found : valueExtent tokens start limit = .ok stop) (nonempty : start < stop) :
    Balanced false (slice tokens start stop) ∧
      (∀ token ∈ slice tokens start stop,
        token.tokenClass ≠ .lineSeparator ∧ token.isBlockMarker = false) ∧
      ∀ usage error, (value tokens start stop).answer usage = .error error →
        ¬error.IsBracketError := by
  have size : min limit tokens.size ≤ tokens.size := Nat.min_le_right ..
  have bound : start ≤ min limit tokens.size := by
    by_contra beyond
    rw [valueExtent, valueExtentFrom, dif_neg (by omega)] at found
    cases found
    omega
  have ends := @sound_valueExtentFrom tokens _ start [] size bound
  rw [← valueExtent, found] at ends
  have balanced : Balanced false (slice tokens start stop) := ends.closes
  refine ⟨balanced, fun token member => ?_, fun usage error failed => ?_⟩
  · simpa [Token.endsStatement] using ends.unended token member
  · have spared := value_spares (ends.stop_le_limit.trans size) balanced.toSeparated usage
    rw [failed] at spared
    exact spared

/-- The tokens of `f({a, b}[int])) ;/`. -/
def closedCall : Array Token :=
  #[⟨.userWord, "f", 1, 1, ⟨0, 1⟩⟩, ⟨.delimiter, "(", 1, 2, ⟨1, 2⟩⟩,
    ⟨.delimiter, "\x7b", 1, 3, ⟨2, 3⟩⟩, ⟨.userWord, "a", 1, 4, ⟨3, 4⟩⟩,
    ⟨.inlineSeparator, ",", 1, 5, ⟨4, 5⟩⟩, ⟨.userWord, "b", 1, 7, ⟨6, 7⟩⟩,
    ⟨.delimiter, "\x7d", 1, 8, ⟨7, 8⟩⟩, ⟨.delimiter, "[", 1, 9, ⟨8, 9⟩⟩,
    ⟨.builtinType, "int", 1, 10, ⟨9, 12⟩⟩, ⟨.delimiter, "]", 1, 13, ⟨12, 13⟩⟩,
    ⟨.delimiter, ")", 1, 14, ⟨13, 14⟩⟩, ⟨.delimiter, ")", 1, 15, ⟨14, 15⟩⟩,
    ⟨.delimiter, ";/", 1, 17, ⟨16, 18⟩⟩]

/-- The call ends before the closer that it did not open. It is refused, since a composite takes no
cast, but not for its brackets. -/
theorem valueExtent_balances_closedCall :
    valueExtent closedCall 0 13 = .ok 11 ∧ Balanced false (slice closedCall 0 11) ∧
      (value closedCall 0 11).answer (.none .standard) =
        .error (.violation .tokenAfterComposite closedCall[7]) ∧
      ¬(ParseError.violation .tokenAfterComposite closedCall[7]).IsBracketError := by
  have found : valueExtent closedCall 0 13 = .ok 11 := by decide +kernel
  have failed : (value closedCall 0 11).answer (.none .standard) =
      .error (.violation .tokenAfterComposite closedCall[7]) := by decide +kernel
  obtain ⟨balanced, -, free⟩ := valueExtent_balances found (by decide)
  exact ⟨found, balanced, failed, free _ _ failed⟩

end TnslReader
