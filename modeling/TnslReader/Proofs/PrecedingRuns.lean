import TnslReader.Proofs.SettledReadings
import TnslReader.Proofs.TreeWalk
import TnslReader.Proofs.ValueCompleteness
import TnslReader.Proofs.ValueExtents
import TnslReader.Reader

/-!
Contract: what is read of a run of operators before an operand.

The operators stack: each applies to the tree of all that stands behind it. There is one exception.
Whether an operator stands between operands is told by the token before it alone, and an increment
or a decrement may end an operand. So a minus right behind one of these is taken to stand between
operands, though only operators stand before it, and the value in front of the minus is missed.

Whether a run has such a minus, and which is the first, depends on its neighbours only. Up to there
the scan for operators between operands notes nothing; this is the invariant behind both answers.

Owns: the tree of such a run, the exception, and that the reader has one or the other for every run.
-/

set_option autoImplicit false

namespace TnslReader

open Reading (SettlesOn)

/-- The operators, each applied to what stands behind it, and the last of them to the operand. -/
def stacked (operators : List Token) (operand : Node) : Node :=
  operators.foldr (fun operator node => ⟨.precedingOperator, operator, [node]⟩) operand

/-- The first minus that stands right behind an increment or a decrement. -/
def misplacedMinus? : List Token → Option Token
  | [] => none
  | operator :: later =>
      if operator.stepsOperand = true ∧ later.head?.any (·.isOperator .minus) = true then
        later.head?
      else
        misplacedMinus? later

/-- The value that begins at `start` and the index of the token that ends it, as `readValue` has
them, but with a given usage of given limits. -/
def readValueUnder (usage : Usage) (tokens : Array Token) (start stop : Nat) :
    Except ParseError (Node × Nat) := do
  let behind ← valueExtent tokens start stop
  let node ← (value tokens start behind).answer usage
  return (node, behind)

theorem readValue_eq_readValueUnder : readValue = readValueUnder (.none .standard) :=
  rfl

variable {tokens : Array Token} {operators : List Token} {operand : Token} {kind : NodeKind}

/-! ### The scan of a run -/

theorem Token.order?_of_isOperator_minus {operator : Token}
    (isMinus : operator.isOperator .minus = true) : operator.order? = some 4 := by
  simp [order?, operator?_of_isOperator isMinus, Operator.order?]

/-- Before the first misplaced minus the scan notes nothing, and there it is behind an operand. -/
theorem exists_of_misplacedMinus? {minus : Token} {index : Nat} {behindOperand : Bool}
    (precede : ∀ operator ∈ operators, operator.mayPrecedeOperand = true)
    (apart : behindOperand = true → operators.head?.any (·.isOperator .minus) = false)
    (misplaced : misplacedMinus? operators = some minus) :
    ∃ before after, operators = before ++ minus :: after ∧ minus.isOperator .minus = true ∧
      scan index 0 behindOperand before = some ([], 0, true) := by
  induction operators generalizing index behindOperand with
  | nil => cases misplaced
  | cons first later inductionHypothesis =>
      obtain ⟨precedes, precedeLater⟩ := List.forall_mem_cons.mp precede
      have passed (rest : List Token) : scan index 0 behindOperand (first :: rest) =
          scan (index + 1) 0 first.stepsOperand rest :=
        scan_cons_of_mayPrecedeOperand precedes apart
      rw [misplacedMinus?] at misplaced
      split at misplaced
      next met =>
        obtain ⟨steps, isMinus⟩ := met
        rw [misplaced, Option.any_some] at isMinus
        obtain ⟨after, rfl⟩ := List.head?_eq_some_iff.mp misplaced
        exact ⟨[first], after, rfl, isMinus, by rw [passed, steps, scan]⟩
      next unmet =>
        obtain ⟨before, after, rfl, isMinus, scanned⟩ :=
          @inductionHypothesis (index + 1) first.stepsOperand precedeLater
            (fun steps => by simpa [steps] using unmet) misplaced
        exact ⟨first :: before, after, rfl, isMinus, by rw [passed, scanned]⟩

/-- In a run with its operand only minuses are noted, and the scan ends behind the operand. -/
theorem exists_scan_run (index : Nat) (behindOperand : Bool)
    (precede : ∀ operator ∈ operators, operator.mayPrecedeOperand = true)
    (isLeaf : operand.leafKind? = some kind) :
    ∃ found, scan index 0 behindOperand (operators ++ [operand]) = some (found, 0, true) ∧
      ∀ entry ∈ found, entry.2 = 4 := by
  induction operators generalizing index behindOperand with
  | nil =>
      have leaf : PrimaryText 0 0 [operand] (.leaf kind operand) := .leaf isLeaf
      exact ⟨[], leaf.scan_eq index behindOperand, by simp⟩
  | cons first later inductionHypothesis =>
      obtain ⟨precedes, precedeLater⟩ := List.forall_mem_cons.mp precede
      by_cases noted : behindOperand = true ∧ first.isOperator .minus = true
      · obtain ⟨rfl, isMinus⟩ := noted
        obtain ⟨found, scanned, isFour⟩ := inductionHypothesis (index + 1) false precedeLater
        refine ⟨(index, 4) :: found, ?_, by simpa using isFour⟩
        rw [List.cons_append, scan_cons_of_order? (Token.order?_of_isOperator_minus isMinus),
          scanned]
        rfl
      · obtain ⟨found, scanned, isFour⟩ :=
          inductionHypothesis (index + 1) first.stepsOperand precedeLater
        refine ⟨found, ?_, isFour⟩
        rw [List.cons_append, scan_cons_of_mayPrecedeOperand precedes (by simpa using noted),
          scanned]

/-- A range whose operators between operands all have one order is cut at all of them. -/
theorem splitPoints_of_uniform_scan {low high order : Nat} {found : List (Nat × Nat)}
    {state : Nat × Bool} (size : high ≤ tokens.size)
    (scanned : scan low 0 false (slice tokens low high) = some (found, state))
    (uniform : ∀ entry ∈ found, entry.2 = order) :
    ∃ points, splitPoints tokens low high = .ok points ∧
      points.map (·.index) = found.map Prod.fst := by
  refine splitPoints_of_scan size scanned
    (fun entry member => Nat.le_of_eq (uniform entry member)) ?_ (by simp)
  rw [List.filter_eq_self.mpr (by simpa using uniform), List.map_map]
  exact (List.map_id _).symm.trans
    (List.map_congr_left fun entry member => Prod.ext rfl (uniform entry member))

/-! ### Where a run ends -/

theorem isPlain_of_mem_run (precede : ∀ operator ∈ operators, operator.mayPrecedeOperand = true)
    (isLeaf : operand.leafKind? = some kind) :
    ∀ token ∈ operators ++ [operand], token.IsPlain := by
  intro token member
  rcases List.mem_append.mp member with member | member
  · exact Token.isPlain_of_mayPrecedeOperand (precede token member)
  · rw [List.mem_singleton.mp member]
    exact Token.isPlain_of_leafKind? isLeaf

/-! ### The answers -/

/-- Without a misplaced minus, the run and its operand are a unary value. -/
theorem unaryText_stacked (precede : ∀ operator ∈ operators, operator.mayPrecedeOperand = true)
    (isLeaf : operand.leafKind? = some kind) (unmisplaced : misplacedMinus? operators = none) :
    UnaryText operators.length 0 (operators ++ [operand])
      (stacked operators (.leaf kind operand)) := by
  induction operators with
  | nil =>
      have bare : UnaryText 0 0 ([operand] ++ []) (.leaf kind operand) :=
        .followed (.leaf isLeaf) .done
      exact bare
  | cons first later inductionHypothesis =>
      obtain ⟨precedes, precedeLater⟩ := List.forall_mem_cons.mp precede
      rw [misplacedMinus?] at unmisplaced
      split at unmisplaced
      next met => simp [unmisplaced] at met
      next unmet =>
        refine .preceded (Nat.lt_succ_self _) precedes (fun steps => ?_)
          (inductionHypothesis precedeLater unmisplaced)
        cases later with
        | nil =>
            have notOperator : operand.tokenClass ≠ .operator := by
              rcases Token.tokenClass_of_leafKind? isLeaf with classified | classified | classified
                <;> simp [classified]
            simpa using Token.isOperator_eq_false notOperator
        | cons second rest => simpa [steps] using unmet

/-- Where a range has only operators that may come before an operand, the search for one ends with
the range. -/
theorem operandStart_eq_high {low high : Nat} (bound : low ≤ high) (size : high ≤ tokens.size)
    (precede : ∀ operator ∈ slice tokens low high, operator.mayPrecedeOperand = true) :
    operandStart tokens low high bound = .ok ⟨high, bound, Nat.le_refl high⟩ := by
  by_cases inside : low < high
  · have present := Array.getElem?_eq_getElem (show low < tokens.size by omega)
    rw [slice_eq_cons present inside] at precede
    obtain ⟨here, later⟩ := List.forall_mem_cons.mp precede
    exact operandStart_succ inside (Nat.le_refl high) present here
      (operandStart_eq_high inside size later)
  · obtain rfl := Nat.le_antisymm bound (Nat.not_lt.mp inside)
    rw [operandStart, dif_neg inside]
    rfl
termination_by high - low

/-- Behind operators alone a value is missed. -/
theorem preceded_settlesOn_expected {low high : Nat} (bound : low ≤ high)
    (size : high ≤ tokens.size) :
    (preceded tokens low high high bound (Nat.le_refl high)).SettlesOn (high - low) 0
      (.error (.expected tokens high .value)) := by
  rw [preceded]
  split
  next inside =>
    refine SettlesOn.nested (by omega) (show high - (low + 1) < high - low by omega) ?_
    exact (preceded_settlesOn_expected inside size).bind_of_error
  next =>
    rw [primary, dif_neg (Nat.lt_irrefl high)]
    exact fun _ => .inl rfl
termination_by high - low

/-- Of a range that has only operators before an operand, none of them misplaced, the value is
missed at its end. -/
theorem value_settlesOn_expected {low high : Nat} {state : Nat × Bool} (nonempty : low < high)
    (size : high ≤ tokens.size)
    (precede : ∀ operator ∈ slice tokens low high, operator.mayPrecedeOperand = true)
    (scanned : scan low 0 false (slice tokens low high) = some ([], state)) :
    (value tokens low high).SettlesOn (high - low + 1) 0
      (.error (.expected tokens high .value)) := by
  rw [value, dif_pos nonempty, splitPoints_eq_nil size scanned]
  refine SettlesOn.nested (by omega) (Nat.lt_succ_self (high - low)) ?_
  change (unary tokens low high (Nat.le_of_lt nonempty)).SettlesOn _ _ _
  rw [unary, operandStart_eq_high (Nat.le_of_lt nonempty) size precede]
  change (if _ then _ else _ : Reading Node).SettlesOn _ _ _
  rw [if_neg (by simp)]
  exact preceded_settlesOn_expected (Nat.le_of_lt nonempty) size

/-- In front of the first misplaced minus the value is missed. -/
theorem value_settlesOn_misplaced {start stop : Nat} {minus : Token} (size : stop ≤ tokens.size)
    (precede : ∀ operator ∈ operators, operator.mayPrecedeOperand = true)
    (isLeaf : operand.leafKind? = some kind)
    (text : slice tokens start stop = operators ++ [operand])
    (misplaced : misplacedMinus? operators = some minus) :
    (value tokens start stop).SettlesOn (stop - start) (stop - start)
      (.error (.violation (.expected .value) minus)) := by
  obtain ⟨before, after, rfl, isMinus, beforeScanned⟩ :=
    @exists_of_misplacedMinus? _ _ start false precede (by simp) misplaced
  rw [List.append_assoc] at text
  obtain ⟨seam, start_le_seam, -, rfl, behindText⟩ :=
    eq_append_of_slice text (Nat.le_of_lt (lt_of_slice text (by simp))) size
  obtain ⟨seam_lt_stop, present, afterText⟩ := eq_cons_of_slice behindText
  have operandBehind : seam + 1 < stop := lt_of_slice afterText (by simp)
  have start_lt_seam : start < seam := by
    by_contra empty
    simp [slice_eq_nil tokens (Nat.not_lt.mp empty), scan] at beforeScanned
  -- The minus is noted, and behind it only other minuses, so the range is cut at all of them.
  have precedeAfter : ∀ operator ∈ after, operator.mayPrecedeOperand = true :=
    fun operator member => precede operator (by simp [member])
  obtain ⟨later, afterScanned, isFour⟩ := exists_scan_run (seam + 1) false precedeAfter isLeaf
  have scanned : scan start 0 false (slice tokens start stop) =
      some ((seam, 4) :: later, 0, true) := by
    rw [text, scan_append_of_eq beforeScanned, length_slice (by omega),
      Nat.add_sub_cancel' start_le_seam]
    change (scan seam 0 true (minus :: (after ++ [operand]))).map _ = _
    rw [scan_cons_of_order? (Token.order?_of_isOperator_minus isMinus), afterScanned]
    rfl
  obtain ⟨points, split, indexes⟩ :=
    splitPoints_of_uniform_scan size scanned (List.forall_mem_cons.mpr ⟨rfl, isFour⟩)
  cases points with
  | nil => simp at indexes
  | cons first others =>
      have firstIndex : first.index = seam := (List.cons.inj indexes).1
      have room := (links_room (ascending_of_splitPoints size split)).1
      have left := value_settlesOn_expected start_lt_seam (by omega)
        (fun operator member => precede operator (by simp [member])) beforeScanned
      rw [value_eq_of_splitPoints (by omega) split]
      refine SettlesOn.nested (by omega) (show seam - start + 1 < stop - start by omega) ?_
      refine SettlesOn.chained (by omega)
        (show 0 + (others.length + 1) ≤ stop - start by omega) ?_
      rw [chainReading, List.map_cons, List.head?_cons, Option.getD_some, firstIndex]
      have missed : ParseError.expected tokens seam .value =
          .violation (.expected .value) minus := by
        rw [ParseError.expected, present]
      exact missed ▸ left.bind_of_error

section Run

variable {start stop : Nat} (size : stop ≤ tokens.size)
  (precede : ∀ operator ∈ operators, operator.mayPrecedeOperand = true)
  (isLeaf : operand.leafKind? = some kind)
  (text : slice tokens start stop = operators ++ [operand])

include size precede isLeaf text

theorem valueExtent_run : valueExtent tokens start stop = .ok stop := by
  have nonempty : start < stop := lt_of_slice text (by simp)
  rw [valueExtent, Nat.min_eq_left size]
  refine valueExtentFrom_eq_limit (Nat.le_of_lt nonempty) size fun token member => ?_
  exact isPlain_of_mem_run precede isLeaf token (text ▸ member)

/-- The value of a run, with the levels and the chained operators that it takes at most. -/
theorem value_run_settlesOn :
    (value tokens start stop).SettlesOn (operators.length + 1) (operators.length + 1)
      (match misplacedMinus? operators with
      | none => .ok (stacked operators (.leaf kind operand))
      | some minus => .error (.violation (.expected .value) minus)) := by
  cases misplaced : misplacedMinus? operators with
  | none =>
      have run : ValueText (operators.length + 1) 0 0 (operators ++ [operand])
          (stacked operators (.leaf kind operand)) :=
        .unary (Nat.lt_succ_self _) (unaryText_stacked precede isLeaf misplaced)
      have settles : (value tokens start stop).SettlesOn (operators.length + 1) 0
          (.ok (stacked operators (.leaf kind operand))) :=
        fun _ => value_answers text size run
      exact settles.mono (Nat.le_refl _) (Nat.zero_le _)
  | some minus =>
      have length : stop - start = operators.length + 1 := by
        rw [← length_slice size, text, List.length_append, List.length_singleton]
      exact length ▸ value_settlesOn_misplaced size precede isLeaf text misplaced

/-- A run of operators and its operand are read as the operators stacked on the operand, up to the
index behind it. Or, where a minus is misplaced, a value is missed at the first such minus. -/
theorem readValueUnder_run {usage : Usage}
    (unreached : usage.Covers (operators.length + 1) (operators.length + 1) ∨
      ∀ error, readValueUnder usage tokens start stop = .error error → ¬error.IsLimit) :
    readValueUnder usage tokens start stop =
      match misplacedMinus? operators with
      | none => .ok (stacked operators (.leaf kind operand), stop)
      | some minus => .error (.violation (.expected .value) minus) := by
  have read : readValueUnder usage tokens start stop =
      ((value tokens start stop).answer usage).map fun node => (node, stop) := by
    rw [readValueUnder, valueExtent_run size precede isLeaf text, Sound.ok_bind]
    cases (value tokens start stop).answer usage <;> rfl
  have settles := value_run_settlesOn size precede isLeaf text
  rw [read, settles.answer_eq_of_unreached (unreached.imp_right fun unlimited error failed =>
    unlimited error (by rw [read, failed]; rfl))]
  cases misplacedMinus? operators <;> rfl

end Run

/-- The tokens of `~!-- ++len x`. -/
def stackedRun : Array Token :=
  #[⟨.operator, "~", 1, 1, ⟨0, 1⟩⟩, ⟨.operator, "!", 1, 2, ⟨1, 2⟩⟩,
    ⟨.operator, "--", 1, 3, ⟨2, 4⟩⟩, ⟨.operator, "++", 1, 6, ⟨5, 7⟩⟩,
    ⟨.operator, "len", 1, 8, ⟨7, 10⟩⟩, ⟨.userWord, "x", 1, 12, ⟨11, 12⟩⟩]

/-- Steps may stand behind each other, and other operators behind them. -/
theorem readValueUnder_stackedRun :
    readValueUnder (.none .standard) stackedRun 0 6 =
      .ok (stacked [stackedRun[0], stackedRun[1], stackedRun[2], stackedRun[3], stackedRun[4]]
        (.leaf .identifier stackedRun[5]), 6) := by
  have text : slice stackedRun 0 6 = [stackedRun[0], stackedRun[1], stackedRun[2], stackedRun[3],
      stackedRun[4]] ++ [stackedRun[5]] := by decide
  exact readValueUnder_run (by decide) (by decide) (by decide) text
    (.inl (by constructor <;> decide))

/-- The tokens of `++ - x`. -/
def misplacedRun : Array Token :=
  #[⟨.operator, "++", 1, 1, ⟨0, 2⟩⟩, ⟨.operator, "-", 1, 4, ⟨3, 4⟩⟩,
    ⟨.userWord, "x", 1, 6, ⟨5, 6⟩⟩]

/-- Of `++ - x` no value is read: one is missed at the minus. -/
theorem readValue_misplacedRun :
    (∀ operator ∈ [misplacedRun[0], misplacedRun[1]], operator.mayPrecedeOperand = true) ∧
      misplacedRun[2].leafKind? = some .identifier ∧
      slice misplacedRun 0 3 = [misplacedRun[0], misplacedRun[1]] ++ [misplacedRun[2]] ∧
      readValue misplacedRun 0 3 = .error (.violation (.expected .value) misplacedRun[1]) := by
  decide +kernel

end TnslReader
