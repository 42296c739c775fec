import TnslReader.Grammar.Statement
import TnslReader.Proofs.Ensures

/-!
Contract: a reading gives back all that it takes of the limits, however it ends.

A probe may fail and the reading go on, so what a reading that fails has in use matters as much as
what one that answers has. `Reading.Passes` follows a run from one way to build a reading to the
next and says what is in use on the way. By induction on it, whatever a run takes it has given back
at its end, and all along it the limits are the same, nothing is given back that was in use before,
and no limit is exceeded. That there is such a run for each reading of values, types, lists and
statements follows these in their recursion; it needs no assumption about the range, which may reach
beyond the tokens.

Where a reading stands is no part of what it accounts for: ranges are arguments, and a reading
cannot move those of its caller.

Owns: the usages that a run passes through, and that it ends as it began.
-/

set_option autoImplicit false

namespace TnslReader

/-- The usage is one that a reading may reach from another: the limits are the same, nothing of what
was in use is given back, and the limits are kept. -/
structure Usage.ReachedFrom (usage start : Usage) : Prop where
  limits_eq : usage.limits = start.limits
  le_depth : start.depth ≤ usage.depth
  depth_le : usage.depth ≤ start.limits.maxDepth
  le_chain : start.chain ≤ usage.chain
  chain_le : usage.chain ≤ start.limits.maxChain

namespace Usage

variable {usage start : Usage}

theorem reachedFrom_self (usage : Usage) : usage.ReachedFrom usage :=
  ⟨rfl, Nat.le_refl _, usage.depth_le, Nat.le_refl _, usage.chain_le⟩

theorem ReachedFrom.of_enter {room : start.depth < start.limits.maxDepth}
    (reached : usage.ReachedFrom (start.enter room)) : usage.ReachedFrom start :=
  ⟨reached.limits_eq, (Nat.le_succ _).trans reached.le_depth, reached.depth_le, reached.le_chain,
    reached.chain_le⟩

theorem ReachedFrom.of_link {count : Nat} {room : start.chain + count ≤ start.limits.maxChain}
    (reached : usage.ReachedFrom (start.link count room)) : usage.ReachedFrom start :=
  ⟨reached.limits_eq, reached.le_depth, reached.depth_le,
    (Nat.le_add_right _ _).trans reached.le_chain, reached.chain_le⟩

end Usage

namespace Reading

/-- `reading.Passes usage passed`: what is in use on the way when the reading runs from `usage`,
step by step. -/
inductive Passes : {α : Type} → Reading α → Usage → List Usage → Prop where
  | lift {α : Type} (answer : Except ParseError α) (usage : Usage) :
      Passes (ofExcept answer) usage [usage]
  | bindAnswered {α β : Type} {reading : Reading α} {next : α → Reading β} {usage after : Usage}
      {result : α} {passed later : List Usage} (first : Passes reading usage passed)
      (answered : reading usage = .ok result after) (second : Passes (next result) after later) :
      Passes (reading >>= next) usage (passed ++ later)
  | bindFailed {α β : Type} {reading : Reading α} {next : α → Reading β} {usage after : Usage}
      {error : ParseError} {passed : List Usage} (first : Passes reading usage passed)
      (failed : reading usage = .error error after) : Passes (reading >>= next) usage passed
  | nested {α : Type} {tokens : Array Token} {index : Nat} {body : Reading α} {usage : Usage}
      {passed : List Usage} (room : usage.depth < usage.limits.maxDepth)
      (inner : Passes body (usage.enter room) passed) :
      Passes (nested tokens index body) usage
        (usage :: passed ++ [(nested tokens index body).usageAfter usage])
  | tooDeep {α : Type} {tokens : Array Token} {index : Nat} {body : Reading α} {usage : Usage}
      (full : ¬usage.depth < usage.limits.maxDepth) :
      Passes (nested tokens index body) usage [usage]
  | chained {α : Type} {tokens : Array Token} {index count : Nat} {body : Reading α} {usage : Usage}
      {passed : List Usage} (room : usage.chain + count ≤ usage.limits.maxChain)
      (inner : Passes body (usage.link count room) passed) :
      Passes (chained tokens index count body) usage
        (usage :: passed ++ [(chained tokens index count body).usageAfter usage])
  | tooLong {α : Type} {tokens : Array Token} {index count : Nat} {body : Reading α} {usage : Usage}
      (full : ¬usage.chain + count ≤ usage.limits.maxChain) :
      Passes (chained tokens index count body) usage [usage]
  | probed {α : Type} {probe : Reading α} {accepts : α → Reading Bool} {usage after : Usage}
      {result : α} {passed later : List Usage} (first : Passes probe usage passed)
      (answered : probe usage = .ok result after) (second : Passes (accepts result) after later) :
      Passes (probe.succeeds accepts) usage (passed ++ later)
  | refused {α : Type} {probe : Reading α} {accepts : α → Reading Bool} {usage after : Usage}
      {error : ParseError} {passed : List Usage} (first : Passes probe usage passed)
      (failed : probe usage = .error error after) : Passes (probe.succeeds accepts) usage passed

variable {α β : Type} {tokens : Array Token} {reading : Reading α} {usage after : Usage}

theorem usageAfter_of_ok {result : α} (answered : reading usage = .ok result after) :
    reading.usageAfter usage = after := by
  rw [usageAfter, answered]

theorem usageAfter_of_error {error : ParseError} (failed : reading usage = .error error after) :
    reading.usageAfter usage = after := by
  rw [usageAfter, failed]

/-- What a reading is given back at its end is what its body had in use. -/
theorem usageAfter_giveBack {release? : Usage → Option Usage} {taken released : Usage}
    (restores : reading.usageAfter taken = taken) (gives : release? taken = some released) :
    (match giveBack release? (reading taken) with
      | .ok _ after => after
      | .error _ after => after) = released := by
  unfold usageAfter at restores
  cases ran : reading taken <;> rw [ran] at restores <;> dsimp only at restores <;>
    subst restores <;> simp [giveBack, gives]

theorem usageAfter_nested {index : Nat} (room : usage.depth < usage.limits.maxDepth)
    (restores : reading.usageAfter (usage.enter room) = usage.enter room) :
    (nested tokens index reading).usageAfter usage = usage := by
  rw [usageAfter, nested, dif_pos room]
  exact usageAfter_giveBack restores (usage.leave?_enter room)

theorem usageAfter_chained {index count : Nat}
    (room : usage.chain + count ≤ usage.limits.maxChain)
    (restores : reading.usageAfter (usage.link count room) = usage.link count room) :
    (chained tokens index count reading).usageAfter usage = usage := by
  rw [usageAfter, chained, dif_pos room]
  exact usageAfter_giveBack restores (usage.unlink?_link count room)

theorem reachedFrom_around {passed : List Usage} {last : Usage} (restored : last = usage)
    (within : ∀ state ∈ passed, state.ReachedFrom usage) :
    ∀ state ∈ usage :: passed ++ [last], state.ReachedFrom usage := by
  rw [restored, List.forall_mem_append, List.forall_mem_cons, List.forall_mem_singleton]
  exact ⟨⟨usage.reachedFrom_self, within⟩, usage.reachedFrom_self⟩

/-- A run ends with what was in use at its start, and keeps to what may be reached from there. -/
theorem Passes.restores {passed : List Usage} (passes : reading.Passes usage passed) :
    reading.usageAfter usage = usage ∧ ∀ state ∈ passed, state.ReachedFrom usage := by
  induction passes with
  | lift answer usage =>
      refine ⟨?_, by simpa using usage.reachedFrom_self⟩
      cases answer <;> rfl
  | bindAnswered first answered second firstRestores secondRestores =>
      rw [usageAfter_of_ok answered] at firstRestores
      obtain ⟨rfl, reached⟩ := firstRestores
      refine ⟨?_, List.forall_mem_append.mpr ⟨reached, secondRestores.2⟩⟩
      rw [usageAfter, bind_eq_of_ok answered]
      exact secondRestores.1
  | bindFailed first failed firstRestores =>
      rw [usageAfter_of_error failed] at firstRestores
      exact ⟨(usageAfter_of_error (bind_eq_of_error failed)).trans firstRestores.1, firstRestores.2⟩
  | @nested α tokens index body usage passed room inner innerRestores =>
      have restored : (Reading.nested tokens index body).usageAfter usage = usage :=
        usageAfter_nested room innerRestores.1
      exact ⟨restored, reachedFrom_around restored fun state member =>
        (innerRestores.2 state member).of_enter⟩
  | @tooDeep α tokens index body usage full =>
      refine ⟨?_, by simpa using usage.reachedFrom_self⟩
      rw [usageAfter, Reading.nested, dif_neg full]
  | @chained α tokens index count body usage passed room inner innerRestores =>
      have restored : (Reading.chained tokens index count body).usageAfter usage = usage :=
        usageAfter_chained room innerRestores.1
      exact ⟨restored, reachedFrom_around restored fun state member =>
        (innerRestores.2 state member).of_link⟩
  | @tooLong α tokens index count body usage full =>
      refine ⟨?_, by simpa using usage.reachedFrom_self⟩
      rw [usageAfter, Reading.chained, dif_neg full]
  | probed first answered second firstRestores secondRestores =>
      rw [usageAfter_of_ok answered] at firstRestores
      obtain ⟨rfl, reached⟩ := firstRestores
      refine ⟨?_, List.forall_mem_append.mpr ⟨reached, secondRestores.2⟩⟩
      rw [usageAfter, succeeds, answered]
      exact secondRestores.1
  | @refused α probe accepts usage after error passed first failed firstRestores =>
      rw [usageAfter_of_error failed] at firstRestores
      obtain ⟨rfl, reached⟩ := firstRestores
      refine ⟨?_, reached⟩
      rw [usageAfter, succeeds, failed]
      cases error <;> rfl

/-! ### Rules for runs -/

def Runs (reading : Reading α) : Prop :=
  ∀ usage, ∃ passed, reading.Passes usage passed

theorem runs_lift (answer : Except ParseError α) : Runs (liftM answer) :=
  fun usage => ⟨_, .lift answer usage⟩

theorem runs_pure (result : α) : Runs (pure result) :=
  runs_lift (.ok result)

theorem runs_throw (error : ParseError) : Runs (throw error : Reading α) :=
  runs_lift (.error error)

theorem Runs.bind {next : α → Reading β} (runs : reading.Runs)
    (runsLater : ∀ result, (next result).Runs) : (reading >>= next).Runs := by
  intro usage
  obtain ⟨passed, first⟩ := runs usage
  cases ran : reading usage with
  | ok result after =>
      obtain ⟨later, second⟩ := runsLater result after
      exact ⟨_, .bindAnswered first ran second⟩
  | error error after => exact ⟨_, .bindFailed first ran⟩

theorem runs_lift_bind {answer : Except ParseError α} {next : α → Reading β}
    (runsLater : ∀ result, (next result).Runs) : (liftM answer >>= next : Reading β).Runs :=
  (runs_lift answer).bind runsLater

theorem Runs.nested {index : Nat} (runs : reading.Runs) : (nested tokens index reading).Runs := by
  intro usage
  by_cases room : usage.depth < usage.limits.maxDepth
  · obtain ⟨passed, inner⟩ := runs (usage.enter room)
    exact ⟨_, .nested room inner⟩
  · exact ⟨_, .tooDeep room⟩

theorem Runs.chained {index count : Nat} (runs : reading.Runs) :
    (chained tokens index count reading).Runs := by
  intro usage
  by_cases room : usage.chain + count ≤ usage.limits.maxChain
  · obtain ⟨passed, inner⟩ := runs (usage.link count room)
    exact ⟨_, .chained room inner⟩
  · exact ⟨_, .tooLong room⟩

theorem Runs.succeeds {accepts : α → Reading Bool} (runs : reading.Runs)
    (runsLater : ∀ result, (accepts result).Runs) : (reading.succeeds accepts).Runs := by
  intro usage
  obtain ⟨passed, first⟩ := runs usage
  cases ran : reading usage with
  | ok result after =>
      obtain ⟨later, second⟩ := runsLater result after
      exact ⟨_, .probed first ran second⟩
  | error error after => exact ⟨_, .refused first ran⟩

theorem runs_mapM {step : α → Reading β} (items : List α)
    (each : ∀ item ∈ items, (step item).Runs) : (items.mapM step).Runs := by
  induction items with
  | nil => exact runs_pure []
  | cons item items inductionHypothesis =>
      rw [List.mapM_cons]
      refine (each item (by simp)).bind fun result => ?_
      refine (inductionHypothesis fun later member => each later (by simp [member])).bind
        fun results => runs_pure _

theorem runs_foldlM {step : β → α → Reading β} (items : List α) (initial : β)
    (each : ∀ before, ∀ item ∈ items, (step before item).Runs) :
    (items.foldlM step initial).Runs := by
  induction items generalizing initial with
  | nil => exact runs_pure initial
  | cons item items inductionHypothesis =>
      rw [List.foldlM_cons]
      refine (each initial item (by simp)).bind fun result => ?_
      exact inductionHypothesis result fun before later member =>
        each before later (by simp [member])

end Reading

/-! ### Values and types -/

open Reading (Runs runs_pure runs_throw runs_lift_bind runs_mapM runs_foldlM)

variable {tokens : Array Token}

mutual

theorem value_runs (low high : Nat) : (value tokens low high).Runs := by
  rw [value]
  split
  next nonempty =>
    refine Runs.nested (runs_lift_bind fun points => ?_)
    cases points with
    | nil => exact unary_runs low high _
    | cons first later =>
        refine Runs.chained ?_
        have := first.index_lt_high
        refine Runs.bind (value_runs low first.index) fun leftmost => ?_
        refine runs_foldlM _ leftmost fun left link member => ?_
        have := link.extent_lt nonempty
        refine Runs.bind (rightOperand_runs link.operator link.stop) fun right => ?_
        exact runs_lift_bind fun token => runs_pure _
  next => exact runs_throw _
termination_by 16 * (high - low) + 7

theorem rightOperand_runs (operator stop : Nat) : (rightOperand tokens operator stop).Runs := by
  rw [rightOperand]
  refine runs_lift_bind fun token => ?_
  split
  next =>
    refine Runs.bind (typeAt_runs false (operator + 1) stop) fun ⟨type, next, _⟩ => ?_
    dsimp only
    split
    · exact runs_pure _
    · exact runs_throw _
  next => exact value_runs (operator + 1) stop
termination_by 16 * (stop - operator) + 8

theorem unary_runs (low high : Nat) (bound : low ≤ high) : (unary tokens low high bound).Runs := by
  rw [unary]
  refine runs_lift_bind fun ⟨start, low_le_start, start_le_high⟩ => ?_
  dsimp only
  split
  · exact composite_runs low start high low_le_start
  · exact preceded_runs low start high low_le_start start_le_high
termination_by 16 * (high - low) + 6

theorem composite_runs (low brace high : Nat) (low_le_brace : low ≤ brace) :
    (composite tokens low brace high low_le_brace).Runs := by
  rw [composite]
  split
  next =>
    refine runs_lift_bind fun ⟨close, brace_lt_close, close_lt_high⟩ => ?_
    dsimp only
    split
    next =>
      refine runs_lift_bind fun anchor => runs_lift_bind fun items => ?_
      refine Runs.bind (runs_mapM items fun part _ => ?_) fun values => runs_pure _
      have := part.extent_le
      exact value_runs part.start part.stop
    next => exact runs_throw _
  next => exact runs_throw _
termination_by 16 * (high - low) + 5

theorem preceded_runs (low start high : Nat) (low_le_start : low ≤ start)
    (start_le_high : start ≤ high) :
    (preceded tokens low start high low_le_start start_le_high).Runs := by
  rw [preceded]
  split
  next another =>
    refine Runs.nested (Runs.bind (preceded_runs (low + 1) start high another start_le_high)
      fun operand => ?_)
    exact runs_lift_bind fun token => runs_pure _
  next =>
    exact Runs.bind (primary_runs start high) fun ⟨node, next, _⟩ => followed_runs node next high
termination_by 16 * (high - low) + 4

theorem primary_runs (index high : Nat) : (primary tokens index high).Runs := by
  rw [primary]
  split
  next =>
    split
    next => exact runs_throw _
    next =>
      split
      next => exact runs_pure _
      next => exact runs_pure _
      next => exact runs_pure _
      next => exact runs_throw _
      next =>
        split
        next =>
          refine runs_lift_bind fun ⟨close, index_lt_close, close_lt_high⟩ => ?_
          exact Runs.bind (value_runs (index + 1) close) fun node => runs_pure _
        next => split <;> exact runs_throw _
  next => exact runs_throw _
termination_by 16 * (high - index) + 3

theorem followed_runs (node : Node) (index high : Nat) :
    (followed tokens node index high).Runs := by
  rw [followed]
  split
  next =>
    refine runs_lift_bind fun token => ?_
    split
    next => exact runs_throw _
    next =>
      refine Runs.nested ?_
      split
      next =>
        refine runs_lift_bind fun ⟨close, index_lt_close, close_lt_high⟩ => ?_
        exact Runs.bind (valueList_runs index (index + 1) close) fun arguments =>
          followed_runs _ (close + 1) high
      next =>
        refine runs_lift_bind fun ⟨close, index_lt_close, close_lt_high⟩ => ?_
        exact Runs.bind (value_runs (index + 1) close) fun position =>
          followed_runs _ (close + 1) high
      next =>
        refine runs_lift_bind fun ⟨close, index_lt_close, close_lt_high⟩ => ?_
        exact Runs.bind (typeList_runs index (index + 1) close) fun types =>
          followed_runs _ (close + 1) high
      next =>
        split
        · exact followed_runs _ (index + 1) high
        · exact runs_throw _
  next => exact runs_pure _
termination_by 16 * (high - index) + 2

theorem valueList_runs (opener low high : Nat) : (valueList tokens opener low high).Runs := by
  rw [valueList]
  refine runs_lift_bind fun anchor => runs_lift_bind fun items => ?_
  refine Runs.bind (runs_mapM items fun part _ => ?_) fun values => runs_pure _
  have := part.extent_le
  exact value_runs part.start part.stop
termination_by 16 * (high - low) + 8

theorem typeList_runs (opener low high : Nat) : (typeList tokens opener low high).Runs := by
  rw [typeList]
  refine runs_lift_bind fun anchor => runs_lift_bind fun items => ?_
  refine Runs.bind (runs_mapM items fun part _ => ?_) fun types => runs_pure _
  have := part.extent_le
  refine Runs.bind (typeAt_runs false part.start part.stop) fun ⟨type, next, _⟩ => ?_
  dsimp only
  split
  · exact runs_pure _
  · exact runs_throw _
termination_by 16 * (high - low) + 8

theorem typeAt_runs (inParameter : Bool) (low high : Nat) :
    (typeAt tokens inParameter low high).Runs := by
  rw [typeAt]
  split
  next =>
    split
    next => exact runs_throw _
    next =>
      refine Runs.nested (runs_lift_bind fun ⟨qualifying, afterQualifiers, _⟩ => ?_)
      refine Runs.bind (typeMarks_runs afterQualifiers high) fun ⟨marks, baseIndex, _⟩ => ?_
      dsimp only
      split
      next =>
        split
        next => exact runs_throw _
        next base _ =>
          refine runs_lift_bind fun ⟨path, name, afterName, lt_afterName⟩ => ?_
          refine Runs.bind (typeArguments_runs base afterName high) fun found => ?_
          exact runs_lift_bind fun reference => runs_pure _
      next => exact runs_throw _
  next => exact runs_throw _
termination_by 16 * (high - low) + 7

theorem typeMarks_runs (index high : Nat) : (typeMarks tokens index high).Runs := by
  rw [typeMarks]
  split
  next =>
    refine runs_lift_bind fun token => ?_
    split
    next => exact Runs.bind (typeMarks_runs (index + 1) high) fun later => runs_pure _
    next =>
      split
      next =>
        refine runs_lift_bind fun ⟨close, index_lt_close, close_lt_high⟩ => ?_
        have later := typeMarks_runs (close + 1) high
        dsimp only
        split
        · exact Runs.bind (value_runs (index + 1) close) fun length =>
            (runs_pure _).bind fun _ => later.bind fun _ => runs_pure _
        · exact (runs_pure _).bind fun _ => later.bind fun _ => runs_pure _
      next => exact runs_pure _
  next => exact runs_pure _
termination_by 16 * (high - index) + 6

theorem typeArguments_runs (base : Token) (index high : Nat) :
    (typeArguments tokens base index high).Runs := by
  rw [typeArguments]
  split
  next =>
    refine runs_lift_bind fun token => ?_
    split
    next =>
      refine runs_lift_bind fun ⟨close, index_lt_close, close_lt_high⟩ => ?_
      refine Runs.bind (typeList_runs index (index + 1) close) fun types => ?_
      split
      next =>
        refine runs_lift_bind fun second => ?_
        split
        next =>
          refine runs_lift_bind fun ⟨secondClose, close_lt_second, second_lt_high⟩ => ?_
          exact Runs.bind (typeList_runs (close + 1) (close + 2) secondClose) fun results =>
            runs_pure _
        next => exact runs_pure _
      next => exact runs_pure _
    next => exact runs_pure _
  next => exact runs_pure _
termination_by 16 * (high - index) + 6

end

/-! ### Lists and statements -/

theorem isDefinitionAt_runs (low high : Nat) : (isDefinitionAt tokens low high).Runs := by
  refine Runs.succeeds (typeAt_runs false low high) fun ⟨type, next, _⟩ => ?_
  dsimp only
  split
  · exact runs_lift_bind fun name => runs_pure _
  · exact runs_pure _

theorem definition_runs (low high : Nat) : (definition tokens low high).Runs := by
  refine Runs.bind (typeAt_runs false low high) fun ⟨type, next, _⟩ => ?_
  refine Runs.bind (valueList_runs next next high) fun names => ?_
  split
  · exact runs_throw _
  · exact runs_lift_bind fun anchor => runs_pure _

theorem valueStatement_runs (low high : Nat) : (valueStatement tokens low high).Runs :=
  runs_lift_bind fun _ => Runs.bind (value_runs low high) fun _ => runs_pure _

theorem simpleStatement_runs (low high : Nat) : (simpleStatement tokens low high).Runs := by
  refine Runs.bind (isDefinitionAt_runs low high) fun defines => ?_
  split
  · exact definition_runs low high
  · refine runs_lift_bind fun first => ?_
    split
    · exact Runs.bind (typeAt_runs false low high) fun ⟨_, next, _⟩ => runs_throw _
    · exact valueStatement_runs low high

theorem parameter_runs (typed : Bool) (start stop : Nat) :
    (parameter tokens typed start stop).Runs := by
  unfold parameter
  split
  · exact runs_throw _
  · refine runs_lift_bind fun first => ?_
    split
    · split
      · exact runs_pure _
      · exact runs_throw _
    · refine Runs.bind (typeAt_runs true start stop) fun ⟨type, next, _⟩ => ?_
      dsimp only
      split
      · refine runs_lift_bind fun name => ?_
        split
        · exact runs_pure _
        · exact runs_throw _
      · exact runs_throw _

theorem parameters_runs {low high : Nat} (typed : Bool) (items : List (Part low high)) :
    (parameters tokens typed items).Runs := by
  induction items generalizing typed with
  | nil => exact runs_pure []
  | cons part later inductionHypothesis =>
      exact Runs.bind (parameter_runs typed part.start part.stop) fun here =>
        Runs.bind (inductionHypothesis true) fun others => runs_pure _

theorem parameterList_runs (opener low high : Nat) :
    (parameterList tokens opener low high).Runs :=
  runs_lift_bind fun _ => runs_lift_bind fun items =>
    Runs.bind (parameters_runs false items) fun _ => runs_pure _

theorem statementList_runs (opener low high : Nat) :
    (statementList tokens opener low high).Runs := by
  refine runs_lift_bind fun anchor => runs_lift_bind fun items => ?_
  refine Runs.bind (runs_mapM _ fun part _ => ?_) fun statements => runs_pure _
  exact simpleStatement_runs part.start part.stop

/-! ### Readings as they are found -/

/-- From the usage the reading ends with what was in use at its start, in an answer or in an error,
and on the way, by whatever steps it is followed, it keeps to what may be reached from there. -/
structure Reading.LeavesAsFound {α : Type} (reading : Reading α) (usage : Usage) : Prop where
  after_eq : reading.usageAfter usage = usage
  runs : ∃ passed, reading.Passes usage passed
  reached : ∀ passed, reading.Passes usage passed → ∀ state ∈ passed, state.ReachedFrom usage

theorem Reading.Runs.leavesAsFound {α : Type} {reading : Reading α} (runs : reading.Runs)
    (usage : Usage) : reading.LeavesAsFound usage := by
  obtain ⟨passed, passes⟩ := runs usage
  exact ⟨passes.restores.1, ⟨passed, passes⟩, fun _ passes => passes.restores.2⟩

/-- Values, types, lists and simple statements, and the question whether a definition comes, are
read so that the limits and what is in use of them are left as they were found. That holds of all
ranges and however much is in use, and on the way nothing of it is given back and no limit exceeded.
-/
theorem readings_leave_as_found (tokens : Array Token) (usage : Usage) (low high : Nat) :
    (value tokens low high).LeavesAsFound usage ∧
      (∀ bound, (unary tokens low high bound).LeavesAsFound usage) ∧
      (∀ inParameter, (typeAt tokens inParameter low high).LeavesAsFound usage) ∧
      (isDefinitionAt tokens low high).LeavesAsFound usage ∧
      (∀ opener, (valueList tokens opener low high).LeavesAsFound usage ∧
        (typeList tokens opener low high).LeavesAsFound usage ∧
        (parameterList tokens opener low high).LeavesAsFound usage ∧
        (statementList tokens opener low high).LeavesAsFound usage) ∧
      (definition tokens low high).LeavesAsFound usage ∧
      (simpleStatement tokens low high).LeavesAsFound usage :=
  ⟨(value_runs low high).leavesAsFound usage,
    fun bound => (unary_runs low high bound).leavesAsFound usage,
    fun inParameter => (typeAt_runs inParameter low high).leavesAsFound usage,
    (isDefinitionAt_runs low high).leavesAsFound usage,
    fun opener => ⟨(valueList_runs opener low high).leavesAsFound usage,
      (typeList_runs opener low high).leavesAsFound usage,
      (parameterList_runs opener low high).leavesAsFound usage,
      (statementList_runs opener low high).leavesAsFound usage⟩,
    (definition_runs low high).leavesAsFound usage,
    (simpleStatement_runs low high).leavesAsFound usage⟩

/-- The tokens of `~+`. -/
def baselessPointer : Array Token :=
  #[⟨.operator, "~", 1, 1, ⟨0, 1⟩⟩, ⟨.operator, "+", 1, 2, ⟨1, 2⟩⟩]

/-- A usage with one level left of three and no chained operator left of two. -/
def scarceUsage : Usage :=
  ⟨⟨3, 2⟩, 2, 2, by decide, by decide⟩

/-- The probe for a type fails a level further in, and the answer is that no definition comes. -/
theorem baselessPointer_leaves_as_found :
    ((typeAt baselessPointer false 0 2).answer scarceUsage).map (·.next) =
        .error (.violation .tokenInType ⟨.operator, "+", 1, 2, ⟨1, 2⟩⟩) ∧
      (isDefinitionAt baselessPointer 0 2).answer scarceUsage = .ok false ∧
      (isDefinitionAt baselessPointer 0 2).usageAfter scarceUsage = scarceUsage ∧
      0 ≤ 2 ∧ (unary baselessPointer 0 2 (Nat.zero_le 2)).usageAfter scarceUsage = scarceUsage := by
  obtain ⟨-, unaryLeaves, -, probeLeaves, -⟩ :=
    readings_leave_as_found baselessPointer scarceUsage 0 2
  exact ⟨by decide +kernel, by decide +kernel, probeLeaves.after_eq, Nat.zero_le 2,
    (unaryLeaves (Nat.zero_le 2)).after_eq⟩

end TnslReader
