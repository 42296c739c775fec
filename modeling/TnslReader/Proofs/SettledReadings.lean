import TnslReader.Grammar.Value
import TnslReader.Proofs.Answers
import TnslReader.Proofs.Joints

/-!
Contract: the readings of values and types settle.

What is read from a range is the same whatever the limits are and whatever of them is in use, unless
a limit is reached. Room for one level more than the range has tokens, and for as many chained
operators as it has tokens, is enough never to reach one: each level and each operator of a chain
has a token of its own, and one level more is taken where an operand is missing.

As for `Ensures` and `Answers`, each way to build a reading has one rule here. The theorems about
the readings follow these in their recursion.

Owns:
- the rules for `Reading.SettlesOn`, with a given answer, and for `Reading.Settles`;
- the room in which the readings of values and types settle.
-/

set_option autoImplicit false

namespace TnslReader

/-- What leaves more room covers what needs less. -/
theorem Usage.Covers.mono {usage : Usage} {depth chain lessDepth lessChain : Nat}
    (covers : usage.Covers depth chain) (depth_le : lessDepth ≤ depth)
    (chain_le : lessChain ≤ chain) : usage.Covers lessDepth lessChain :=
  ⟨depth_le.trans covers.1, chain_le.trans covers.2⟩

theorem Usage.none_covers (depth chain : Nat) : (Usage.none ⟨depth, chain⟩).Covers depth chain := by
  simp [Covers, depthLeft, chainLeft, none]

namespace Reading

/-- From any usage the reading has the given answer, or error, and gives back what it took of the
limits. Or it stops at a limit, but only if there is not enough room. -/
def SettlesOn {α : Type} (reading : Reading α) (depth chain : Nat)
    (answer : Except ParseError α) : Prop :=
  ∀ usage : Usage, reading usage = ofExcept answer usage ∨
    (¬usage.Covers depth chain ∧ ∃ error, error.IsLimit ∧ reading usage = .error error usage)

def Settles {α : Type} (reading : Reading α) (depth chain : Nat) : Prop :=
  ∃ answer, reading.SettlesOn depth chain answer

variable {α β : Type} {tokens : Array Token} {reading : Reading α} {next : α → Reading β}
  {depth chain lessDepth lessChain : Nat} {usage : Usage}

/-! ### Rules for a given answer -/

section SettlesOn

variable {answer : Except ParseError α}

theorem answer_ofExcept : (ofExcept answer).answer usage = answer := by
  cases answer <;> rfl

/-- With room enough, the reading has the answer that it settles on. -/
theorem SettlesOn.answer_eq (settles : reading.SettlesOn depth chain answer)
    (covers : usage.Covers depth chain) : reading.answer usage = answer := by
  rcases settles usage with same | ⟨scarce, -⟩
  · rw [Reading.answer, same, ← Reading.answer, answer_ofExcept]
  · exact absurd covers scarce

/-- So it has if it does not stop at a limit. -/
theorem SettlesOn.answer_eq_of_unlimited (settles : reading.SettlesOn depth chain answer)
    (unlimited : ∀ error, reading.answer usage = .error error → ¬error.IsLimit) :
    reading.answer usage = answer := by
  rcases settles usage with same | ⟨-, error, isLimit, stopped⟩
  · rw [Reading.answer, same, ← Reading.answer, answer_ofExcept]
  · exact absurd isLimit (unlimited error (by rw [Reading.answer, stopped]))

theorem SettlesOn.answer_eq_of_unreached (settles : reading.SettlesOn depth chain answer)
    (unreached : usage.Covers depth chain ∨
      ∀ error, reading.answer usage = .error error → ¬error.IsLimit) :
    reading.answer usage = answer :=
  unreached.elim settles.answer_eq settles.answer_eq_of_unlimited

/-- A reading settles on one answer only. -/
theorem SettlesOn.unique {other : Except ParseError α} {otherDepth otherChain : Nat}
    (settles : reading.SettlesOn depth chain answer)
    (alsoSettles : reading.SettlesOn otherDepth otherChain other) : answer = other := by
  have room := Usage.none_covers (max depth otherDepth) (max chain otherChain)
  rw [← settles.answer_eq (room.mono (by omega) (by omega)),
    alsoSettles.answer_eq (room.mono (by omega) (by omega))]

theorem SettlesOn.mono (settles : reading.SettlesOn lessDepth lessChain answer)
    (depth_le : lessDepth ≤ depth) (chain_le : lessChain ≤ chain) :
    reading.SettlesOn depth chain answer :=
  fun usage => (settles usage).imp_right fun ⟨scarce, stopped⟩ =>
    ⟨fun covers => scarce (covers.mono depth_le chain_le), stopped⟩

theorem settlesOn_lift (answer : Except ParseError α) :
    SettlesOn (liftM answer) depth chain answer :=
  fun _ => .inl rfl

theorem SettlesOn.bind {later : α → Except ParseError β}
    (settles : reading.SettlesOn depth chain answer)
    (settlesLater : ∀ result, answer = .ok result →
      (next result).SettlesOn depth chain (later result)) :
    (reading >>= next).SettlesOn depth chain (answer >>= later) := by
  intro usage
  rcases settles usage with same | ⟨scarce, error, isLimit, stopped⟩
  · cases answer with
    | ok result =>
        rw [bind_eq_of_ok same]
        exact settlesLater result rfl usage
    | error error => exact .inl (bind_eq_of_error same)
  · exact .inr ⟨scarce, error, isLimit, bind_eq_of_error stopped⟩

/-- Behind an error nothing more is read. -/
theorem SettlesOn.bind_of_error {error : ParseError}
    (settles : reading.SettlesOn depth chain (.error error)) :
    (reading >>= next).SettlesOn depth chain (.error error) := by
  intro usage
  rcases settles usage with same | ⟨scarce, other, isLimit, stopped⟩
  · exact .inl (bind_eq_of_error same)
  · exact .inr ⟨scarce, other, isLimit, bind_eq_of_error stopped⟩

/-- To give back what a settled body took leaves its answer. -/
theorem giveBack_ofExcept {release? : Usage → Option Usage} {taken : Usage}
    (released : release? taken = some usage) :
    giveBack release? (ofExcept answer taken) = ofExcept answer usage := by
  cases answer with
  | ok result =>
      change giveBack release? (.ok result taken) = .ok result usage
      simp only [giveBack, released]
  | error error =>
      change giveBack release? (.error error taken) = .error error usage
      simp only [giveBack, released]

theorem SettlesOn.nested {index inner : Nat} (bound : index < tokens.size) (level : inner < depth)
    (settles : reading.SettlesOn inner chain answer) :
    (Reading.nested tokens index reading).SettlesOn depth chain answer := by
  intro usage
  unfold Reading.nested
  by_cases room : usage.depth < usage.limits.maxDepth
  · simp only [room, ↓reduceDIte]
    rcases settles (usage.enter room) with same | ⟨scarce, error, isLimit, stopped⟩
    · exact .inl (by rw [same, giveBack_ofExcept (usage.leave?_enter room)])
    · exact .inr ⟨fun covers => scarce (covers.enter level room), error, isLimit,
        by simp [stopped, giveBack]⟩
  · simp only [room, ↓reduceDIte]
    exact .inr ⟨fun covers => room (covers.lt_maxDepth level),
      .limitAt tokens index (.tooDeep usage.limits.maxDepth),
      ParseError.limitAt_isLimit bound fun _ => trivial, rfl⟩

theorem SettlesOn.chained {index rest count : Nat} (bound : index < tokens.size)
    (linked : rest + count ≤ chain) (settles : reading.SettlesOn depth rest answer) :
    (Reading.chained tokens index count reading).SettlesOn depth chain answer := by
  intro usage
  unfold Reading.chained
  by_cases room : usage.chain + count ≤ usage.limits.maxChain
  · simp only [room, ↓reduceDIte]
    rcases settles (usage.link count room) with same | ⟨scarce, error, isLimit, stopped⟩
    · exact .inl (by rw [same, giveBack_ofExcept (usage.unlink?_link count room)])
    · exact .inr ⟨fun covers => scarce (covers.link linked room), error, isLimit,
        by simp [stopped, giveBack]⟩
  · simp only [room, ↓reduceDIte]
    exact .inr ⟨fun covers => room (covers.le_maxChain linked),
      .limitAt tokens index (.tooLong usage.limits.maxChain),
      ParseError.limitAt_isLimit bound fun _ => trivial, rfl⟩

end SettlesOn

/-! ### Rules for some answer -/

/-- What it settles on is the answer that it has with room enough. -/
theorem Settles.settlesOn_answer (settles : reading.Settles depth chain)
    (covers : usage.Covers depth chain) : reading.SettlesOn depth chain (reading.answer usage) := by
  obtain ⟨answer, settles⟩ := settles
  rw [settles.answer_eq covers]
  exact settles

theorem Settles.mono (settles : reading.Settles lessDepth lessChain)
    (depth_le : lessDepth ≤ depth) (chain_le : lessChain ≤ chain) :
    reading.Settles depth chain :=
  settles.imp fun _ settles => settles.mono depth_le chain_le

theorem settles_pure (result : α) : Settles (pure result) depth chain :=
  ⟨.ok result, fun _ => .inl rfl⟩

theorem settles_throw (error : ParseError) : Settles (throw error : Reading α) depth chain :=
  ⟨.error error, fun _ => .inl rfl⟩

/-- Behind an answer without state, only what comes behind that answer has to settle. -/
theorem settles_lift_bind {answer : Except ParseError α}
    (settlesLater : ∀ result, answer = .ok result → (next result).Settles depth chain) :
    (liftM answer >>= next : Reading β).Settles depth chain := by
  cases answer with
  | ok result => exact settlesLater result rfl
  | error error => exact ⟨.error error, fun _ => .inl rfl⟩

theorem Settles.bind (settles : reading.Settles depth chain)
    (settlesLater : ∀ result, (next result).Settles depth chain) :
    (reading >>= next).Settles depth chain := by
  obtain ⟨answer, settles⟩ := settles
  choose later settlesLater using settlesLater
  exact ⟨answer >>= later, settles.bind fun result _ => settlesLater result⟩

theorem Settles.nested {index inner : Nat} (settles : reading.Settles inner chain)
    (bound : index < tokens.size) (level : inner < depth) :
    (Reading.nested tokens index reading).Settles depth chain :=
  settles.imp fun _ settles => settles.nested bound level

theorem Settles.chained {index rest count : Nat} (settles : reading.Settles depth rest)
    (bound : index < tokens.size) (linked : rest + count ≤ chain) :
    (Reading.chained tokens index count reading).Settles depth chain :=
  settles.imp fun _ settles => settles.chained bound linked

theorem settles_mapM {step : α → Reading β} (items : List α)
    (each : ∀ item ∈ items, (step item).Settles depth chain) :
    (items.mapM step).Settles depth chain := by
  induction items with
  | nil => exact settles_pure []
  | cons item items inductionHypothesis =>
      rw [List.mapM_cons]
      refine (each item (by simp)).bind fun result => ?_
      refine (inductionHypothesis fun later member => each later (by simp [member])).bind
        fun results => settles_pure _

theorem settles_foldlM {step : β → α → Reading β} (items : List α) (initial : β)
    (each : ∀ before, ∀ item ∈ items, (step before item).Settles depth chain) :
    (items.foldlM step initial).Settles depth chain := by
  induction items generalizing initial with
  | nil => exact settles_pure initial
  | cons item items inductionHypothesis =>
      rw [List.foldlM_cons]
      refine (each initial item (by simp)).bind fun result => ?_
      exact inductionHypothesis result fun before later member =>
        each before later (by simp [member])

end Reading

/-! ### How many operators a range is cut at -/

/-- The scan notes operators from left to right. -/
theorem scan_ascending {index depth : Nat} {behindOperand : Bool} {text : List Token}
    {found : List (Nat × Nat)} {state : Nat × Bool}
    (scanned : scan index depth behindOperand text = some (found, state)) :
    (found.map Prod.fst).Pairwise (· < ·) ∧ ∀ entry ∈ found, index ≤ entry.1 := by
  induction text generalizing index depth behindOperand found with
  | nil =>
      simp only [scan, Option.some.injEq, Prod.mk.injEq] at scanned
      simp [← scanned.1]
  | cons token rest inductionHypothesis =>
      rw [scan] at scanned
      obtain ⟨⟨noted, next⟩, stepped, scanned⟩ := Option.bind_eq_some_iff.mp scanned
      obtain ⟨⟨later, last⟩, ran, equal⟩ := Option.map_eq_some_iff.mp scanned
      simp only [Prod.mk.injEq] at equal
      obtain ⟨rfl, rfl⟩ := equal
      obtain ⟨ascending, behind⟩ := inductionHypothesis ran
      have further : ∀ entry ∈ later, index < entry.1 := fun entry member => behind entry member
      rcases eq_of_scanStep stepped with rfl | ⟨order, rfl, -⟩
      · exact ⟨ascending, fun entry member => Nat.le_of_lt (further entry member)⟩
      · constructor
        · simpa using ⟨fun position order member => further (position, order) member, ascending⟩
        · intro entry member
          rcases List.mem_cons.mp member with rfl | member
          · exact Nat.le_refl _
          · exact Nat.le_of_lt (further entry member)

/-- The operators that a range is cut at stand from left to right. -/
theorem ascending_of_splitPoints {tokens : Array Token} {low high : Nat}
    {points : List (Joint low high)} (size : high ≤ tokens.size)
    (split : splitPoints tokens low high = .ok points) :
    (points.map (·.index)).Pairwise (· < ·) := by
  have agrees := @splitPoints_agrees tokens low high size
  rw [split] at agrees
  obtain ⟨found, loosest, ⟨state, scanned⟩, -, -, points_eq⟩ := agrees
  have indexes : points.map (·.index) = (points.map Joint.noted).map Prod.fst := by
    simp [Joint.noted]
  rw [indexes, points_eq]
  exact (scan_ascending scanned).1.sublist (List.filter_sublist.map _)

/-- From the first of these operators on, there is room for an operand behind one of them and for
all the operators. -/
theorem links_room {low high : Nat} {first : Joint low high} {later : List (Joint low high)}
    (ascending : ((first :: later).map (·.index)).Pairwise (· < ·)) :
    first.index + (later.length + 1) ≤ high ∧ ∀ link ∈ links (first :: later),
      first.index + (link.stop - (link.operator + 1)) + (later.length + 1) ≤ high := by
  induction later generalizing first with
  | nil =>
      have inside := first.index_lt_high
      constructor
      · simpa using inside
      · intro link member
        rw [List.mem_singleton.mp member]
        dsimp only [List.length_nil]
        omega
  | cons next rest inductionHypothesis =>
      rw [List.map_cons, List.pairwise_cons] at ascending
      have first_lt_next : first.index < next.index := ascending.1 next.index (by simp)
      obtain ⟨nextRoom, later⟩ := inductionHypothesis ascending.2
      rw [List.length_cons]
      constructor
      · omega
      · intro link member
        rcases List.mem_cons.mp member with rfl | member
        · dsimp only
          omega
        · have := later link member
          omega

/-! ### The readings of values and types -/

open Reading (Settles settles_pure settles_throw settles_lift_bind settles_mapM settles_foldlM)

mutual

theorem value_settles {tokens : Array Token} {low high : Nat} (size : high ≤ tokens.size) :
    (value tokens low high).Settles (high - low + 1) (high - low) := by
  rw [value]
  split
  next nonempty =>
    refine Settles.nested ?_ (show low < tokens.size by omega) (Nat.lt_succ_self (high - low))
    refine settles_lift_bind fun points split => ?_
    have ascending := ascending_of_splitPoints size split
    cases points with
    | nil => exact unary_settles size (Nat.le_of_lt nonempty)
    | cons first later =>
        have low_lt_first := first.low_lt_index
        have first_lt_high := first.index_lt_high
        obtain ⟨firstRoom, operandRoom⟩ := links_room ascending
        refine Settles.chained ?_ (show first.index < tokens.size by omega)
          (Nat.le_of_eq (Nat.sub_add_cancel (show later.length + 1 ≤ high - low by omega)))
        refine Settles.bind ((value_settles (by omega)).mono (by omega) (by omega))
          fun leftmost => ?_
        refine settles_foldlM _ leftmost fun left link member => ?_
        have := link.extent_lt nonempty
        have := operandRoom link member
        refine Settles.bind ((rightOperand_settles (link.stop_le_high.trans size)).mono (by omega)
          (by omega)) fun right => ?_
        exact settles_lift_bind fun token _ => settles_pure _
  next => exact settles_throw _
termination_by 16 * (high - low) + 7
decreasing_by all_goals omega

theorem rightOperand_settles {tokens : Array Token} {operator stop : Nat}
    (size : stop ≤ tokens.size) :
    (rightOperand tokens operator stop).Settles (stop - operator + 1) (stop - (operator + 1)) := by
  rw [rightOperand]
  refine settles_lift_bind fun token _ => ?_
  split
  next =>
    refine Settles.bind ((typeAt_settles size).mono (by omega) (Nat.le_refl _)) fun found => ?_
    rcases found with ⟨type, next, le_next⟩
    dsimp only
    split
    · exact settles_pure _
    · exact settles_throw _
  next => exact (value_settles size).mono (by omega) (Nat.le_refl _)
termination_by 16 * (stop - operator) + 8
decreasing_by all_goals omega

theorem unary_settles {tokens : Array Token} {low high : Nat} (size : high ≤ tokens.size)
    (bound : low ≤ high) : (unary tokens low high bound).Settles (high - low) (high - low) := by
  rw [unary]
  refine settles_lift_bind fun found _ => ?_
  rcases found with ⟨start, low_le_start, start_le_high⟩
  dsimp only
  split
  next => exact composite_settles size low_le_start
  next => exact preceded_settles size low_le_start start_le_high
termination_by 16 * (high - low) + 6
decreasing_by all_goals omega

theorem composite_settles {tokens : Array Token} {low brace high : Nat} (size : high ≤ tokens.size)
    (low_le_brace : low ≤ brace) :
    (composite tokens low brace high low_le_brace).Settles (high - low) (high - low) := by
  rw [composite]
  split
  next =>
    refine settles_lift_bind fun found _ => ?_
    rcases found with ⟨close, brace_lt_close, close_lt_high⟩
    dsimp only
    split
    next =>
      refine settles_lift_bind fun anchor _ => ?_
      refine settles_lift_bind fun items _ => ?_
      refine Settles.bind (settles_mapM items fun part _ => ?_) fun values => settles_pure _
      have := part.extent_le
      have := part.stop_le_high
      exact (value_settles (by omega)).mono (by omega) (by omega)
    next => exact settles_throw _
  next => exact settles_throw _
termination_by 16 * (high - low) + 5
decreasing_by all_goals omega

theorem preceded_settles {tokens : Array Token} {low start high : Nat} (size : high ≤ tokens.size)
    (low_le_start : low ≤ start) (start_le_high : start ≤ high) :
    (preceded tokens low start high low_le_start start_le_high).Settles
      (high - low) (high - low) := by
  rw [preceded]
  split
  next another =>
    refine Settles.nested ?_ (show low < tokens.size by omega)
      (show high - (low + 1) < high - low by omega)
    refine Settles.bind ((preceded_settles size another start_le_high).mono (Nat.le_refl _)
      (by omega)) fun operand => ?_
    exact settles_lift_bind fun token _ => settles_pure _
  next =>
    refine Settles.bind ((primary_settles size).mono (by omega) (by omega)) fun found => ?_
    rcases found with ⟨node, next, le_next⟩
    exact (followed_settles size).mono (by omega) (by omega)
termination_by 16 * (high - low) + 4
decreasing_by all_goals omega

theorem primary_settles {tokens : Array Token} {index high : Nat} (size : high ≤ tokens.size) :
    (primary tokens index high).Settles (high - index) (high - index) := by
  rw [primary]
  split
  next =>
    split
    next => exact settles_throw _
    next =>
      split
      next => exact settles_pure _
      next => exact settles_pure _
      next => exact settles_pure _
      next => exact settles_throw _
      next =>
        split
        next =>
          refine settles_lift_bind fun found _ => ?_
          rcases found with ⟨close, index_lt_close, close_lt_high⟩
          exact Settles.bind ((value_settles (by omega)).mono (by omega) (by omega))
            fun node => settles_pure _
        next =>
          split
          · exact settles_throw _
          · exact settles_throw _
  next => exact settles_throw _
termination_by 16 * (high - index) + 3
decreasing_by all_goals omega

theorem followed_settles {tokens : Array Token} {node : Node} {index high : Nat}
    (size : high ≤ tokens.size) :
    (followed tokens node index high).Settles (high - index) (high - index) := by
  rw [followed]
  split
  next inside =>
    refine settles_lift_bind fun token _ => ?_
    split
    next => exact settles_throw _
    next =>
      refine Settles.nested ?_ (show index < tokens.size by omega)
        (show high - (index + 1) < high - index by omega)
      split
      next =>
        refine settles_lift_bind fun found _ => ?_
        rcases found with ⟨close, index_lt_close, close_lt_high⟩
        refine Settles.bind ((valueList_settles (by omega)).mono (by omega) (by omega))
          fun arguments => ?_
        exact (followed_settles size).mono (by omega) (by omega)
      next =>
        refine settles_lift_bind fun found _ => ?_
        rcases found with ⟨close, index_lt_close, close_lt_high⟩
        refine Settles.bind ((value_settles (by omega)).mono (by omega) (by omega))
          fun position => ?_
        exact (followed_settles size).mono (by omega) (by omega)
      next =>
        refine settles_lift_bind fun found _ => ?_
        rcases found with ⟨close, index_lt_close, close_lt_high⟩
        refine Settles.bind ((typeList_settles (by omega)).mono (by omega) (by omega))
          fun types => ?_
        exact (followed_settles size).mono (by omega) (by omega)
      next =>
        split
        next => exact (followed_settles size).mono (Nat.le_refl _) (by omega)
        next => exact settles_throw _
  next => exact settles_pure _
termination_by 16 * (high - index) + 2
decreasing_by all_goals omega

theorem valueList_settles {tokens : Array Token} {opener low high : Nat}
    (size : high ≤ tokens.size) :
    (valueList tokens opener low high).Settles (high - low + 1) (high - low) := by
  rw [valueList]
  refine settles_lift_bind fun anchor _ => ?_
  refine settles_lift_bind fun items _ => ?_
  refine Settles.bind (settles_mapM items fun part _ => ?_) fun values => settles_pure _
  have := part.extent_le
  exact (value_settles (part.stop_le_high.trans size)).mono (by omega) (by omega)
termination_by 16 * (high - low) + 8
decreasing_by all_goals omega

theorem typeList_settles {tokens : Array Token} {opener low high : Nat}
    (size : high ≤ tokens.size) :
    (typeList tokens opener low high).Settles (high - low + 1) (high - low) := by
  rw [typeList]
  refine settles_lift_bind fun anchor _ => ?_
  refine settles_lift_bind fun items _ => ?_
  refine Settles.bind (settles_mapM items fun part _ => ?_) fun types => settles_pure _
  have := part.extent_le
  refine Settles.bind ((typeAt_settles (part.stop_le_high.trans size)).mono (by omega) (by omega))
    fun found => ?_
  rcases found with ⟨type, next, le_next⟩
  dsimp only
  split
  · exact settles_pure _
  · exact settles_throw _
termination_by 16 * (high - low) + 8
decreasing_by all_goals omega

theorem typeAt_settles {tokens : Array Token} {inParameter : Bool} {low high : Nat}
    (size : high ≤ tokens.size) :
    (typeAt tokens inParameter low high).Settles (high - low + 1) (high - low) := by
  rw [typeAt]
  split
  next inside =>
    split
    next => exact settles_throw _
    next =>
      refine Settles.nested ?_ (show low < tokens.size by omega) (Nat.lt_succ_self (high - low))
      refine settles_lift_bind fun found _ => ?_
      rcases found with ⟨qualifying, afterQualifiers, le_afterQualifiers⟩
      refine Settles.bind ((typeMarks_settles size).mono (by omega) (by omega)) fun found => ?_
      rcases found with ⟨marks, baseIndex, le_baseIndex⟩
      dsimp only
      split
      next =>
        split
        next => exact settles_throw _
        next =>
          refine settles_lift_bind fun found _ => ?_
          rcases found with ⟨path, name, afterName, lt_afterName⟩
          dsimp only
          refine Settles.bind ((typeArguments_settles size).mono (by omega) (by omega))
            fun found => ?_
          exact settles_lift_bind fun reference _ => settles_pure _
      next => exact settles_throw _
  next => exact settles_throw _
termination_by 16 * (high - low) + 7
decreasing_by all_goals omega

theorem typeMarks_settles {tokens : Array Token} {index high : Nat} (size : high ≤ tokens.size) :
    (typeMarks tokens index high).Settles (high - index) (high - index) := by
  rw [typeMarks]
  split
  next =>
    refine settles_lift_bind fun token _ => ?_
    split
    next =>
      refine Settles.bind ((typeMarks_settles size).mono (by omega) (by omega)) fun found => ?_
      exact settles_pure _
    next =>
      split
      next =>
        refine settles_lift_bind fun found _ => ?_
        rcases found with ⟨close, index_lt_close, close_lt_high⟩
        dsimp only
        split
        next =>
          refine Settles.bind ((value_settles (by omega)).mono (by omega) (by omega))
            fun length => ?_
          rw [pure_bind]
          exact Settles.bind ((typeMarks_settles size).mono (by omega) (by omega))
            fun later => settles_pure _
        next =>
          rw [pure_bind]
          exact Settles.bind ((typeMarks_settles size).mono (by omega) (by omega))
            fun later => settles_pure _
      next => exact settles_pure _
  next => exact settles_pure _
termination_by 16 * (high - index) + 6
decreasing_by all_goals omega

theorem typeArguments_settles {tokens : Array Token} {base : Token} {index high : Nat}
    (size : high ≤ tokens.size) :
    (typeArguments tokens base index high).Settles (high - index) (high - index) := by
  rw [typeArguments]
  split
  next =>
    refine settles_lift_bind fun token _ => ?_
    split
    next =>
      refine settles_lift_bind fun found _ => ?_
      rcases found with ⟨close, index_lt_close, close_lt_high⟩
      refine Settles.bind ((typeList_settles (by omega)).mono (by omega) (by omega))
        fun types => ?_
      split
      next =>
        refine settles_lift_bind fun second _ => ?_
        split
        next =>
          refine settles_lift_bind fun found _ => ?_
          rcases found with ⟨secondClose, close_lt_second, second_lt_high⟩
          exact Settles.bind ((typeList_settles (by omega)).mono (by omega) (by omega))
            fun results => settles_pure _
        next => exact settles_pure _
      next => exact settles_pure _
    next => exact settles_pure _
  next => exact settles_pure _
termination_by 16 * (high - index) + 6
decreasing_by all_goals omega

end

end TnslReader
