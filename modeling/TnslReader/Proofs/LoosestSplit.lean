import TnslReader.Proofs.SettledReadings
import TnslReader.Proofs.TreeWalk
import TnslReader.Proofs.ValueCompleteness

/-!
Contract: a chain of operators may be read from its right end.

A value is cut at all operators of the loosest order at once, and its operands fold from the left.
The rule that this stands for is shorter: cut the value at the one operator that binds loosest, the
rightmost where several do, and read what is on both sides in the same way. The rule takes no
account of limits, so the two are compared where no limit is reached. There they have the same
trees, and the same errors.

In one step the rule cuts off the last operand only, and the rest is a shorter range, which is cut
at the same operators less the last one. That the rest is a value of its own, at other levels, makes
no difference, since readings settle.

Owns: the rule, with a test for each index of a range in place of a search, and that it reads what
`value` reads.
-/

set_option autoImplicit false

namespace TnslReader

open Reading (SettlesOn settlesOn_lift)

/-! ### The rule -/

/-- How many brackets are open at an index of those that the range from `low` opens. -/
def openAt (tokens : Array Token) (low index : Nat) : Nat :=
  (slice tokens low index).countP (·.isOpener) - (slice tokens low index).countP (·.isCloser)

def isStrayCloser (tokens : Array Token) (low index : Nat) : Bool :=
  tokens[index]?.any (·.isCloser) && openAt tokens low index == 0

/-- The operator between operands at an index of a range, if one stands there: behind a token that
can end an operand, where no bracket is open. -/
def jointAt? (tokens : Array Token) (low high index : Nat) : Option (Joint low high) :=
  if inside : low < index ∧ index < high then
    if tokens[index - 1]?.any (·.endsOperand) ∧ openAt tokens low index = 0 then
      (tokens[index]?.bind Token.order?).map fun order => ⟨index, order, inside.1, inside.2⟩
    else
      none
  else
    none

def strayCloser? (tokens : Array Token) (low high : Nat) : Option Nat :=
  (List.range' low (high - low)).find? (isStrayCloser tokens low)

def jointsOf (tokens : Array Token) (low high : Nat) : List (Joint low high) :=
  (List.range' low (high - low)).filterMap (jointAt? tokens low high)

/-- The operator of the loosest order, the rightmost where several have it. -/
def rightmostLoosest? {low high : Nat} : List (Joint low high) → Option (Joint low high)
  | [] => none
  | joint :: later =>
      match rightmostLoosest? later with
      | none => some joint
      | some best => if best.order < joint.order then some joint else some best

/-- Limits that no reading of so many tokens reaches. -/
def Usage.ample (count : Nat) : Usage :=
  .none ⟨count + 1, count⟩

def spanningType (tokens : Array Token) (low high : Nat) : Reading Node := do
  let ⟨type, next, _⟩ ← typeAt tokens false low high
  if next = high then
    return type
  else
    throw (.violationAt tokens next .tokenAfterType)

/-- The value that spans a range, cut at the loosest operator between operands, the rightmost where
several are. Behind `is` stands a type. Without such an operator the value is unary. -/
def peeledValue (tokens : Array Token) (low high : Nat) : Except ParseError Node :=
  if nonempty : low < high then
    match strayCloser? tokens low high with
    | some stray => throw (.violationAt tokens stray .unexpectedCloser)
    | none =>
        match rightmostLoosest? (jointsOf tokens low high) with
        | none => (unary tokens low high (Nat.le_of_lt nonempty)).answer (.ample (high - low))
        | some joint => do
            have := joint.low_lt_index
            have := joint.index_lt_high
            let left ← peeledValue tokens low joint.index
            let operator ← Reading.tokenAt tokens joint.index
            let right ← (
              if operator.isOperator .isWord then
                (spanningType tokens (joint.index + 1) high).answer (.ample (high - low))
              else
                peeledValue tokens (joint.index + 1) high)
            return ⟨.binary, operator, [left, right]⟩
  else
    throw (.expected tokens high .value)
termination_by high - low

section Joints

variable {tokens : Array Token} {low high : Nat}

/-! ### Where operators stand between operands -/

/-- An operator stands between operands where the search for them takes it for one. -/
theorem jointAt?_eq {index : Nat} {behindOperand : Bool} {token : Token}
    (present : tokens[index]? = some token) (inside : index < high)
    (first : behindOperand = true → low < index)
    (behind : low < index → behindOperand = tokens[index - 1]?.any (·.endsOperand)) :
    jointAt? tokens low high index =
      if between : openAt tokens low index = 0 ∧ behindOperand = true then
        token.order?.map fun order => ⟨index, order, first between.2, inside⟩
      else none := by
  unfold jointAt?
  by_cases later : low < index
  · simp only [later, inside, and_self, ↓reduceDIte, ← behind later, present, Option.bind_some]
    by_cases between : openAt tokens low index = 0 ∧ behindOperand = true
    · simp [between]
    · rw [dif_neg between, if_neg (by simpa [and_comm] using between)]
  · have notBehind : ¬behindOperand = true := fun held => later (first held)
    simp [later, notBehind]

theorem Token.isCloser_eq_false_of_isOpener {token : Token} (opener : token.isOpener = true) :
    token.isCloser = false := by
  obtain ⟨bracket, opens⟩ := Option.isSome_iff_exists.mp opener
  simp [isCloser, closes?_eq_none_of_opens? opens]

/-- A bracket is no operator. -/
theorem Token.order?_eq_none_of_bracket {token : Token}
    (bracket : token.isOpener = true ∨ token.isCloser = true) : token.order? = none := by
  refine order?_eq_none_of_class ?_
  rcases bracket with opener | closer
  · obtain ⟨bracket, opens⟩ := Option.isSome_iff_exists.mp opener
    simp [tokenClass_of_opens? opens]
  · obtain ⟨bracket, closes⟩ := Option.isSome_iff_exists.mp closer
    simp [tokenClass_of_closes? closes]

/-- The search for operators between operands fails at the first stray closer, and else finds all of
them. -/
theorem jointsFrom_eq {index depth : Nat} {behindOperand : Bool} (size : high ≤ tokens.size)
    (low_le_index : low ≤ index) (first : behindOperand = true → low < index)
    (behind : low < index → behindOperand = tokens[index - 1]?.any (·.endsOperand))
    (balanced : (slice tokens low index).countP (·.isOpener) =
      (slice tokens low index).countP (·.isCloser) + depth) :
    jointsFrom tokens low high index depth behindOperand low_le_index first =
      match (List.range' index (high - index)).find? (isStrayCloser tokens low) with
      | some stray => .error (.violationAt tokens stray .unexpectedCloser)
      | none => .ok ((List.range' index (high - index)).filterMap (jointAt? tokens low high)) := by
  rw [jointsFrom]
  by_cases inside : index < high
  · have present := Array.getElem?_eq_getElem (show index < tokens.size by omega)
    have isOpen : openAt tokens low index = depth := by
      rw [openAt, balanced]
      omega
    have here := jointAt?_eq present inside first behind
    have extent : high - index = high - (index + 1) + 1 := by omega
    rw [extent, List.range'_succ, List.find?_cons, List.filterMap_cons, here, isStrayCloser, isOpen,
      present, dif_pos inside, Sound.tokenAt_eq_ok present, Sound.ok_bind, Option.any_some]
    have extended := slice_succ present low_le_index
    generalize tokens[index] = token at *
    -- Behind the token the search goes on with so many open brackets.
    have later (next : Nat)
        (opened : depth + [token].countP (·.isOpener) = [token].countP (·.isCloser) + next) :=
      @jointsFrom_eq (index + 1) next token.endsOperand size (Nat.le_succ_of_le low_le_index)
        (fun _ => Nat.lt_succ_of_le low_le_index) (fun _ => by simp [present])
        (by rw [extended, List.countP_append, List.countP_append]; omega)
    by_cases opener : token.isOpener = true
    · have unordered := Token.order?_eq_none_of_bracket (.inl opener)
      have notCloser := Token.isCloser_eq_false_of_isOpener opener
      simpa [opener, notCloser, unordered] using later (depth + 1) (by simp [opener, notCloser])
    · by_cases closer : token.isCloser = true
      · have unordered := Token.order?_eq_none_of_bracket (.inr closer)
        cases depth with
        | zero =>
            rw [if_neg opener, if_pos closer, closer]
            rfl
        | succ outer =>
            simpa [opener, closer, unordered] using later outer (by simp [opener, closer]; omega)
      · have rest := later depth (by simp [opener, closer])
        by_cases between : depth = 0 ∧ behindOperand = true
        · cases ordered : token.order? with
          | none => simpa [opener, closer, between, ordered] using rest
          | some order =>
              obtain ⟨rfl, rfl⟩ := between
              simp only [opener, closer, and_self, Bool.false_eq_true, ↓reduceIte, ↓reduceDIte,
                Option.map_some, Bool.false_and, rest]
              cases (List.range' (index + 1) (high - (index + 1))).find?
                (isStrayCloser tokens low) <;> rfl
        · simpa [opener, closer, between] using rest
  · simp [inside, Nat.sub_eq_zero_of_le (Nat.not_lt.mp inside), pure, Except.pure]
termination_by high - index

/-- A range is cut at the operators of the loosest order, unless it has a stray closer. -/
theorem splitPoints_eq (size : high ≤ tokens.size) :
    splitPoints tokens low high =
      match strayCloser? tokens low high with
      | some stray => .error (.violationAt tokens stray .unexpectedCloser)
      | none => .ok ((jointsOf tokens low high).filter
          (·.order == loosestOrder (jointsOf tokens low high))) := by
  have nothing : slice tokens low low = [] := slice_eq_nil tokens (Nat.le_refl low)
  rw [splitPoints, jointsFrom_eq size (Nat.le_refl low) _
    (fun later => absurd later (Nat.lt_irrefl low)) (by rw [nothing]; rfl)]
  rw [strayCloser?, jointsOf]
  cases (List.range' low (high - low)).find? (isStrayCloser tokens low) <;> rfl

/-! ### The operator that is picked -/

/-- The operator picked binds no tighter than those before it, and looser than those behind it. -/
theorem rightmostLoosest?_spec (joints : List (Joint low high)) :
    match rightmostLoosest? joints with
    | none => joints = []
    | some best => ∃ before after, joints = before ++ best :: after ∧
        (∀ joint ∈ before, joint.order ≤ best.order) ∧
          ∀ joint ∈ after, joint.order < best.order := by
  induction joints with
  | nil => rfl
  | cons joint later inductionHypothesis =>
      rw [rightmostLoosest?]
      cases picked : rightmostLoosest? later with
      | none =>
          rw [picked] at inductionHypothesis
          exact ⟨[], later, rfl, by simp, by simp [inductionHypothesis]⟩
      | some best =>
          rw [picked] at inductionHypothesis
          obtain ⟨before, after, rfl, order_le, order_lt⟩ := inductionHypothesis
          by_cases looser : best.order < joint.order
          · simp only [looser, ↓reduceIte]
            refine ⟨[], _, rfl, by simp, fun other member => ?_⟩
            simp only [List.mem_append, List.mem_cons] at member
            rcases member with member | rfl | member
            · exact Nat.lt_of_le_of_lt (order_le other member) looser
            · exact looser
            · exact Nat.lt_trans (order_lt other member) looser
          · simp only [looser, ↓reduceIte]
            exact ⟨joint :: before, after, rfl,
              List.forall_mem_cons.mpr ⟨Nat.not_lt.mp looser, order_le⟩, order_lt⟩

/-- It is the last one of the loosest order. -/
theorem rightmostLoosest?_eq_getLast? (joints : List (Joint low high)) :
    rightmostLoosest? joints = (joints.filter (·.order == loosestOrder joints)).getLast? := by
  have spec := rightmostLoosest?_spec joints
  cases picked : rightmostLoosest? joints with
  | none =>
      rw [picked] at spec
      rw [spec]
      rfl
  | some best =>
      rw [picked] at spec
      obtain ⟨before, after, split, order_le, order_lt⟩ := spec
      have loosest : loosestOrder joints = best.order := by
        obtain ⟨joint, member, equal⟩ :=
          exists_order_eq_loosestOrder (show joints ≠ [] by simp [split])
        have bound := order_le_loosestOrder (show best ∈ joints by simp [split])
        rw [split] at member
        simp only [List.mem_append, List.mem_cons] at member
        rcases member with member | rfl | member
        · have := order_le joint member
          omega
        · exact equal.symm
        · have := order_lt joint member
          omega
      have tighter : after.filter (·.order == best.order) = [] := by
        rw [List.filter_eq_nil_iff]
        intro joint member
        have := order_lt joint member
        simp only [beq_iff_eq]
        omega
      rw [loosest, split, List.filter_append, List.filter_cons_of_pos (by simp), tighter]
      simp

/-- Up to the last operator that a range is cut at, the range is cut at the operators before it. -/
theorem exists_splitPoints_of_append {before : List (Joint low high)} {last : Joint low high}
    (size : high ≤ tokens.size) (split : splitPoints tokens low high = .ok (before ++ [last]))
    (nonempty : before ≠ []) :
    ∃ points, splitPoints tokens low last.index = .ok points ∧
      points.map (·.index) = before.map (·.index) := by
  have agrees := @splitPoints_agrees tokens low high size
  rw [split] at agrees
  obtain ⟨found, loosest, ⟨state, scanned⟩, order_le, -, points_eq⟩ := agrees
  rw [List.map_append, List.map_singleton] at points_eq
  obtain ⟨front, back, rfl, frontKept, backKept⟩ := List.filter_eq_append_iff.mp points_eq.symm
  obtain ⟨tighter, after, rfl, none, isLoosest, -⟩ := List.filter_eq_cons_iff.mp backKept
  rw [← List.append_assoc] at scanned
  obtain ⟨-, -, -, -, -, frontScanned, -⟩ := scan_slice_split size
    (Nat.le_of_lt (Nat.lt_trans last.low_lt_index last.index_lt_high)) scanned
  have noted :
      before.map Joint.noted = (before.map (·.index)).map fun index => (index, loosest) := by
    rw [List.map_map]
    refine List.map_congr_left fun joint member => ?_
    have kept : joint.noted ∈ front.filter (·.2 == loosest) :=
      frontKept ▸ List.mem_map_of_mem member
    exact Prod.ext rfl (by simpa using (List.mem_filter.mp kept).2)
  refine splitPoints_of_scan (Nat.le_trans (Nat.le_of_lt last.index_lt_high) size) frontScanned
    (fun entry member => order_le entry ?_) ?_ fun _ => by simpa using nonempty
  · rw [← List.append_assoc]
    exact List.mem_append_left _ member
  · rw [List.filter_append, frontKept, List.filter_eq_nil_iff.mpr none, List.append_nil, noted]

theorem peeledValue_eq_of_error {error : ParseError} (size : high ≤ tokens.size)
    (nonempty : low < high) (failed : splitPoints tokens low high = .error error) :
    peeledValue tokens low high = .error error := by
  rw [splitPoints_eq size] at failed
  rw [peeledValue, dif_pos nonempty]
  cases found : strayCloser? tokens low high with
  | some stray =>
      rw [found] at failed
      cases failed
      rfl
  | none =>
      rw [found] at failed
      cases failed

/-- Where a range can be cut, the rule picks the last of the operators that it is cut at. -/
theorem rightmostLoosest?_of_splitPoints {points : List (Joint low high)}
    (size : high ≤ tokens.size) (split : splitPoints tokens low high = .ok points) :
    strayCloser? tokens low high = none ∧
      rightmostLoosest? (jointsOf tokens low high) = points.getLast? := by
  rw [splitPoints_eq size] at split
  cases found : strayCloser? tokens low high with
  | some stray =>
      rw [found] at split
      cases split
  | none =>
      rw [found] at split
      cases split
      exact ⟨rfl, rightmostLoosest?_eq_getLast? _⟩

/-- The rule, where no operator stands between operands. -/
theorem peeledValue_eq_of_unjoined (size : high ≤ tokens.size) (nonempty : low < high)
    (split : splitPoints tokens low high = .ok []) :
    peeledValue tokens low high =
      (unary tokens low high (Nat.le_of_lt nonempty)).answer (.ample (high - low)) := by
  obtain ⟨noStray, picked⟩ := rightmostLoosest?_of_splitPoints size split
  rw [List.getLast?_nil] at picked
  rw [peeledValue, dif_pos nonempty]
  simp only [noStray, picked]

/-- The rule, where a range is cut at some operators. -/
theorem peeledValue_eq_of_splitPoints {before : List (Joint low high)} {last : Joint low high}
    {operator : Token} (size : high ≤ tokens.size)
    (split : splitPoints tokens low high = .ok (before ++ [last]))
    (present : tokens[last.index]? = some operator) :
    peeledValue tokens low high = (do
      let left ← peeledValue tokens low last.index
      let right ← (
        if operator.isOperator .isWord then
          (spanningType tokens (last.index + 1) high).answer (.ample (high - low))
        else
          peeledValue tokens (last.index + 1) high)
      return ⟨.binary, operator, [left, right]⟩) := by
  obtain ⟨noStray, picked⟩ := rightmostLoosest?_of_splitPoints size split
  rw [List.getLast?_concat] at picked
  have nonempty : low < high := Nat.lt_trans last.low_lt_index last.index_lt_high
  rw [peeledValue, dif_pos nonempty]
  simp only [noStray, picked, Sound.tokenAt_eq_ok present, Sound.ok_bind]

end Joints

/-! ### The rule reads the same -/

section Reading

variable {tokens : Array Token}

theorem rightOperand_eq_spanningType {operator stop : Nat} {token : Token}
    (present : tokens[operator]? = some token) (takesType : token.isOperator .isWord = true) :
    rightOperand tokens operator stop = spanningType tokens (operator + 1) stop := by
  rw [rightOperand, Sound.tokenAt_eq_ok present]
  change (if _ then _ else _) = _
  rw [if_pos takesType]
  rfl

theorem rightOperand_eq_value {operator stop : Nat} {token : Token}
    (present : tokens[operator]? = some token) (takesValue : token.isOperator .isWord = false) :
    rightOperand tokens operator stop = value tokens (operator + 1) stop := by
  rw [rightOperand, Sound.tokenAt_eq_ok present]
  change (if _ then _ else _) = _
  rw [if_neg (by simp [takesValue])]

/-- A chain settles on the tree of its last operator if both of its sides settle. -/
theorem joinOperand_settlesOn {low last high depth chain : Nat} {operators : List Nat}
    {operator : Token} {left right : Except ParseError Node}
    (present : tokens[last]? = some operator)
    (leftSettles : (chainReading tokens low last operators).SettlesOn depth chain left)
    (rightSettles : (rightOperand tokens last high).SettlesOn depth chain right) :
    (chainReading tokens low high (operators ++ [last])).SettlesOn depth chain (do
      let left ← left
      let right ← right
      return ⟨.binary, operator, [left, right]⟩) := by
  rw [chainReading_append]
  refine leftSettles.bind fun leftNode _ => ?_
  refine rightSettles.bind fun rightNode _ => ?_
  rw [Sound.tokenAt_eq_ok present]
  exact settlesOn_lift (.ok _)

/-- Behind an operator the operand settles on what the rule reads there, if values do. -/
theorem rightOperand_settlesOn {operator stop depth chain count : Nat} {token : Token}
    (size : stop ≤ tokens.size) (within : stop - operator ≤ count)
    (present : tokens[operator]? = some token)
    (settles : (value tokens (operator + 1) stop).SettlesOn depth chain
      (peeledValue tokens (operator + 1) stop)) :
    (rightOperand tokens operator stop).SettlesOn (max depth (stop - operator + 1))
      (max chain (stop - operator))
      (if token.isOperator .isWord then
        (spanningType tokens (operator + 1) stop).answer (.ample count)
      else
        peeledValue tokens (operator + 1) stop) := by
  cases takesType : token.isOperator .isWord with
  | true =>
      have typed := (@rightOperand_settles tokens operator stop size).settlesOn_answer
        ((Usage.none_covers (count + 1) count).mono (by omega) (by omega))
      rw [rightOperand_eq_spanningType present takesType] at typed ⊢
      exact typed.mono (by omega) (by omega)
  | false =>
      rw [rightOperand_eq_value present takesType]
      exact settles.mono (by omega) (by omega)

mutual

/-- A value settles on what the rule reads. -/
theorem exists_value_settlesOn {low high : Nat} (size : high ≤ tokens.size) :
    ∃ depth chain, (value tokens low high).SettlesOn depth chain (peeledValue tokens low high) := by
  by_cases nonempty : low < high
  · cases split : splitPoints tokens low high with
    | error error =>
        rw [value, dif_pos nonempty, split, peeledValue_eq_of_error size nonempty split]
        exact ⟨1, 0, Reading.SettlesOn.nested (by omega) Nat.zero_lt_one fun _ => .inl rfl⟩
    | ok points =>
        cases points with
        | nil =>
            have unjoined := (unary_settles size (Nat.le_of_lt nonempty)).settlesOn_answer
              ((Usage.none_covers (high - low + 1) (high - low)).mono (Nat.le_succ _)
                (Nat.le_refl _))
            rw [value, dif_pos nonempty, split, peeledValue_eq_of_unjoined size nonempty split]
            exact ⟨_, _, Reading.SettlesOn.nested (by omega) (Nat.lt_succ_self _) unjoined⟩
        | cons first later =>
            obtain ⟨depth, chain, settles⟩ := exists_chainReading_settlesOn size split (by simp)
            have bound := first.index_lt_high
            rw [value_eq_of_splitPoints nonempty split]
            exact ⟨depth + 1, chain + (later.length + 1),
              (settles.chained (by omega) (Nat.le_refl _)).nested (by omega) (Nat.lt_succ_self _)⟩
  · rw [value, dif_neg nonempty, peeledValue, dif_neg nonempty]
    exact ⟨0, 0, fun _ => .inl rfl⟩
termination_by 2 * (high - low) + 1
decreasing_by all_goals omega

theorem exists_chainReading_settlesOn {low high : Nat} {points : List (Joint low high)}
    (size : high ≤ tokens.size) (split : splitPoints tokens low high = .ok points)
    (nonempty : points ≠ []) :
    ∃ depth chain, (chainReading tokens low high (points.map (·.index))).SettlesOn depth chain
      (peeledValue tokens low high) := by
  obtain ⟨before, last, rfl⟩ := (List.eq_nil_or_concat' points).resolve_left nonempty
  have low_lt_last := last.low_lt_index
  have last_lt_high := last.index_lt_high
  have present := Array.getElem?_eq_getElem (show last.index < tokens.size by omega)
  generalize tokens[last.index] = operator at present
  rw [List.map_append, List.map_singleton, peeledValue_eq_of_splitPoints size split present]
  obtain ⟨depth, chain, left⟩ : ∃ depth chain,
      (chainReading tokens low last.index (before.map (·.index))).SettlesOn depth chain
        (peeledValue tokens low last.index) := by
    by_cases alone : before = []
    · rw [alone, List.map_nil, chainReading_nil]
      exact exists_value_settlesOn (by omega)
    · obtain ⟨points, cut, same⟩ := exists_splitPoints_of_append size split alone
      rw [← same]
      refine exists_chainReading_settlesOn (by omega) cut ?_
      rintro rfl
      exact alone (List.map_eq_nil_iff.mp same.symm)
  obtain ⟨otherDepth, otherChain, operand⟩ :=
    @exists_value_settlesOn (last.index + 1) high size
  have right := rightOperand_settlesOn size (show high - last.index ≤ high - low by omega) present
    operand
  exact ⟨_, _, joinOperand_settlesOn present
    (left.mono (Nat.le_max_left depth _) (Nat.le_max_left chain _))
    (right.mono (Nat.le_max_right _ _) (Nat.le_max_right _ _))⟩
termination_by 2 * (high - low)
decreasing_by all_goals omega

end

/-- To cut a value at its loosest operators at once and fold from the left reads the same tree, or
the same error, as to cut it at the rightmost of them and read both sides in the same way. -/
theorem value_eq_peeledValue {low high : Nat} {usage : Usage} (size : high ≤ tokens.size)
    (unreached : usage.Covers (high - low + 1) (high - low) ∨
      ∀ error, (value tokens low high).answer usage = .error error → ¬error.IsLimit) :
    (value tokens low high).answer usage = peeledValue tokens low high := by
  obtain ⟨answer, settles⟩ := @value_settles tokens low high size
  obtain ⟨depth, chain, peels⟩ := @exists_value_settlesOn tokens low high size
  obtain rfl := settles.unique peels
  exact settles.answer_eq_of_unreached unreached

/-- The tokens of `a - b is ~int is c - -d`. -/
def typedDifferences : Array Token :=
  #[⟨.userWord, "a", 1, 1, ⟨0, 1⟩⟩, ⟨.operator, "-", 1, 3, ⟨2, 3⟩⟩,
    ⟨.userWord, "b", 1, 5, ⟨4, 5⟩⟩, ⟨.operator, "is", 1, 7, ⟨6, 8⟩⟩,
    ⟨.operator, "~", 1, 10, ⟨9, 10⟩⟩, ⟨.builtinType, "int", 1, 11, ⟨10, 13⟩⟩,
    ⟨.operator, "is", 1, 15, ⟨14, 16⟩⟩, ⟨.userWord, "c", 1, 18, ⟨17, 18⟩⟩,
    ⟨.operator, "-", 1, 20, ⟨19, 20⟩⟩, ⟨.operator, "-", 1, 22, ⟨21, 22⟩⟩,
    ⟨.userWord, "d", 1, 23, ⟨22, 23⟩⟩]

/-- Both differences and both tests for a type associate to the left. -/
theorem value_eq_peeledValue_typedDifferences :
    (value typedDifferences 0 11).answer (.none .standard) = peeledValue typedDifferences 0 11 ∧
      peeledValue typedDifferences 0 11 = .ok ⟨.binary, typedDifferences[8], [
        ⟨.binary, typedDifferences[1], [.leaf .identifier typedDifferences[0],
          ⟨.binary, typedDifferences[6], [
            ⟨.binary, typedDifferences[3], [.leaf .identifier typedDifferences[2],
              .tagged .type typedDifferences[4] [.leaf .pointer typedDifferences[4],
                .leaf .typeName typedDifferences[5]]]⟩,
            .tagged .type typedDifferences[7] [.leaf .typeName typedDifferences[7]]]⟩]⟩,
        ⟨.precedingOperator, typedDifferences[9],
          [.leaf .identifier typedDifferences[10]]⟩]⟩ := by
  constructor
  · exact value_eq_peeledValue (by decide) (.inl (by constructor <;> decide))
  · decide +kernel

end Reading

end TnslReader
