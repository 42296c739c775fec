import TnslReader.Grammar.Value
import TnslReader.Proofs.Answers
import TnslReader.Proofs.TypeEnds
import TnslReader.Proofs.ValueJoints

/-!
Contract: what is read as a value or a type is one.

Each reading of values and types has one theorem here, which says which text of the grammar it has
read when it answers, under what is left of the limits. The theorems follow the readings in their
recursion. Two things in them are not on the surface of the readings: that the operands of a chain
bind tighter than the chain, which comes from the scan of the whole range, and that no minus comes
right behind an increment before an operand, since it would have split the range.

A value fills its range, but a type ends somewhere in its own. So the readings of the pieces of a
type say two things: the tokens up to where they end are such a piece, and those behind are no more
of it.
-/

set_option autoImplicit false

namespace TnslReader

variable {tokens : Array Token} {high : Nat} {usage : Usage}

open Reading (Ensures ensures_pure ensures_throw ensures_lift ensures_tokenAt
  ensures_tokenAt_bind ensures_nested ensures_chained ensures_expected ensures_violationAt
  ensures_mapM)

/-! ### Readings without state -/

theorem sound_operandStart {index : Nat} (size : high ≤ tokens.size) (bound : index ≤ high) :
    Sound tokens (operandStart tokens index high bound) fun start =>
      ∀ token ∈ slice tokens index start, token.mayPrecedeOperand = true := by
  rw [operandStart]
  split
  next inside =>
    refine (Sound.tokenAt (by omega)).bind fun token present => ?_
    split
    next precedes =>
      refine (sound_operandStart size inside).bind ?_
      intro answer later
      rcases answer with ⟨start, index_lt_start, start_le_high⟩
      refine Sound.ok fun other member => ?_
      rw [slice_eq_cons present index_lt_start] at member
      rcases List.mem_cons.mp member with rfl | member
      · exact precedes
      · exact later other member
    next => exact Sound.ok (by simp [slice_eq_nil])
  next => exact Sound.ok (by simp [slice_eq_nil])
termination_by high - index

theorem sound_qualifiers {inParameter : Bool} {index : Nat} (size : high ≤ tokens.size)
    (bound : index ≤ high) :
    Sound tokens (qualifiers tokens inParameter index high) fun found =>
      found.next ≤ high ∧
        (∀ token ∈ slice tokens index found.next, token.qualifies inParameter = true) ∧
        found.result = (slice tokens index found.next).map (.leaf .qualifier) ∧
        (inParameter = true → ¬MeetsStatic (slice tokens index high)) := by
  rw [qualifiers]
  split
  next inside =>
    refine (Sound.tokenAt (by omega)).bind fun token present => ?_
    rw [slice_eq_cons present inside, meetsStatic_cons]
    split
    next => exact Sound.violationAt ..
    next notStatic =>
      have apart (parameter : inParameter = true) : token.keyword? ≠ some .staticWord :=
        fun isStatic => notStatic (by simp [parameter, isStatic])
      split
      next qualifies =>
        refine (sound_qualifiers size inside).bind ?_
        intro answer held
        rcases answer with ⟨later, next, le_next⟩
        dsimp only at held ⊢
        obtain ⟨next_le, qualified, rfl, laterApart⟩ := held
        have first : slice tokens index next = token :: slice tokens (index + 1) next :=
          slice_eq_cons present le_next
        refine Sound.ok ⟨next_le, ?_, by rw [first]; rfl, fun parameter => ?_⟩
        · simp only [first, List.mem_cons, forall_eq_or_imp]
          refine ⟨?_, qualified⟩
          rw [Token.qualifies, qualifies, Bool.true_and, Bool.not_eq_true']
          exact Bool.eq_false_iff.mpr notStatic
        · rw [not_or, not_and]
          exact ⟨apart parameter, fun _ => laterApart parameter⟩
      next notQualifier =>
        refine Sound.ok ⟨bound, by simp [slice_eq_nil], by simp [slice_eq_nil], fun parameter => ?_⟩
        rw [not_or, not_and]
        refine ⟨apart parameter, fun qualifies => absurd ?_ notQualifier⟩
        rw [Token.qualifies, Bool.and_eq_true] at qualifies
        exact qualifies.1
  next ends =>
    rw [slice_eq_nil tokens (Nat.not_lt.mp ends)]
    exact Sound.ok ⟨bound, by simp [slice_eq_nil], by simp [slice_eq_nil],
      fun _ => not_meetsStatic_nil⟩
termination_by high - index

/-- A dotted name takes every dot that has a word behind it. -/
theorem sound_dottedName {index : Nat} (size : high ≤ tokens.size) (inside : index < high)
    {word : Token} (present : tokens[index]? = some word) (isWord : word.tokenClass = .userWord) :
    Sound tokens (dottedName tokens index high) fun base =>
      base.next ≤ high ∧ DottedText (slice tokens index base.next) base.path base.name ∧
        ¬NameGoesOn base.name (slice tokens base.next high) := by
  have alone : DottedText (slice tokens index (index + 1)) [] word := by
    rw [slice_eq_cons present (Nat.lt_succ_self index), slice_eq_nil tokens (Nat.le_refl _)]
    exact .word isWord
  rw [dottedName, Sound.tokenAt_eq_ok present, Sound.ok_bind]
  split
  next further =>
    refine (Sound.tokenAt (by omega)).bind fun dot dotPresent => ?_
    split
    next isDot =>
      refine (Sound.tokenAt (by omega)).bind fun second secondPresent => ?_
      split
      next isSecond =>
        refine (sound_dottedName size further secondPresent (by simpa using isSecond)).bind ?_
        intro answer held
        rcases answer with ⟨path, name, next, lt_next⟩
        rcases held with ⟨next_le, dotted, stops⟩
        dsimp only at next_le dotted stops ⊢
        refine Sound.ok ⟨next_le, ?_, stops⟩
        rw [slice_eq_cons present (show index < next by omega),
          slice_eq_cons dotPresent (show index + 1 < next by omega)]
        exact .dot isWord isDot dotted
      next notWord =>
        refine Sound.ok ⟨inside, alone, fun goesOn => ?_⟩
        obtain ⟨-, _, _, -, found, -, another⟩ := goesOn.present
        cases secondPresent.symm.trans found
        exact notWord (by simp [another])
    next notDot =>
      refine Sound.ok ⟨inside, alone, fun goesOn => ?_⟩
      obtain ⟨-, _, _, found, -, isDot, -⟩ := goesOn.present
      cases dotPresent.symm.trans found
      exact notDot isDot
  next outside => exact Sound.ok ⟨inside, alone, fun goesOn => outside goesOn.present.1⟩
termination_by high - index

theorem sound_baseName {index : Nat} (size : high ≤ tokens.size) (inside : index < high)
    {base : Token} (present : tokens[index]? = some base) :
    Sound tokens (baseName tokens index high base) fun found =>
      found.next ≤ high ∧ NameText (slice tokens index found.next) found.path found.name ∧
        ¬NameGoesOn found.name (slice tokens found.next high) := by
  unfold baseName
  split
  next isBuiltin =>
    refine Sound.ok ⟨inside, ?_, not_nameGoesOn_of_builtinType isBuiltin⟩
    rw [slice_eq_cons present (Nat.lt_succ_self index), slice_eq_nil tokens (Nat.le_refl _)]
    exact .builtin isBuiltin
  next isWord =>
    exact (sound_dottedName size inside present isWord).mono fun found ⟨next_le, dotted, stops⟩ =>
      ⟨next_le, .dotted dotted, stops⟩
  all_goals exact Sound.violationAt ..

/-- A parameter takes the mark of a reference. -/
theorem sound_backReference {inParameter : Bool} {index : Nat} (size : high ≤ tokens.size)
    (bound : index ≤ high) :
    Sound tokens (backReference tokens inParameter index high) fun found =>
      found.next ≤ high ∧
        ReferenceText inParameter (slice tokens index found.next) found.result ∧
        ¬ReferenceGoesOn inParameter found.result (slice tokens found.next high) := by
  have nothing : ReferenceText inParameter (slice tokens index index) [] := by
    rw [slice_eq_nil tokens (Nat.le_refl _)]
    exact .none
  unfold backReference
  split
  next marked =>
    simp only [Bool.and_eq_true, decide_eq_true_eq] at marked
    refine (Sound.tokenAt (by omega)).bind fun token present => ?_
    split
    next isMark =>
      refine Sound.ok ⟨marked.2, ?_, nofun⟩
      rw [slice_eq_cons present (Nat.lt_succ_self index), slice_eq_nil tokens (Nat.le_refl _)]
      exact .mark marked.1 isMark
    next notMark =>
      refine Sound.ok ⟨bound, nothing, ?_⟩
      rw [slice_eq_cons present marked.2, referenceGoesOn_cons, not_and]
      exact fun _ => notMark
  next unmarked =>
    refine Sound.ok ⟨bound, nothing, fun goesOn => unmarked ?_⟩
    generalize behind : slice tokens index high = rest at goesOn
    cases goesOn with
    | mark parameter _ => simp [parameter, (eq_cons_of_slice behind).1]

/-! ### Lists -/

theorem valuesText_of_cuts {depth chain start : Nat} {ranges : List (Nat × Nat)}
    {nodes : List Node} (cuts : Cuts tokens Token.isComma high start ranges)
    (values : List.Forall₂ (fun range node =>
      ∃ order, ValueText depth chain order (slice tokens range.1 range.2) node) ranges nodes) :
    ValuesText depth chain (slice tokens start high) nodes ∧ nodes ≠ [] := by
  induction cuts generalizing nodes with
  | last =>
      obtain _ | ⟨⟨order, value⟩, none⟩ := values
      cases none
      exact ⟨.last value, by simp⟩
  | more ordered inside present separates _ inductionHypothesis =>
      obtain _ | ⟨⟨order, value⟩, later⟩ := values
      obtain ⟨values, nonempty⟩ := inductionHypothesis later
      obtain ⟨next, nodes, rfl⟩ := List.exists_cons_of_ne_nil nonempty
      rw [← slice_append tokens ordered (Nat.le_of_lt inside), slice_eq_cons present inside]
      exact ⟨.more value separates values, by simp⟩

theorem typesText_of_cuts {depth chain start : Nat} {ranges : List (Nat × Nat)}
    {nodes : List Node} (cuts : Cuts tokens Token.isComma high start ranges)
    (types : List.Forall₂ (fun range node =>
      TypeText false depth chain (slice tokens range.1 range.2) node) ranges nodes) :
    TypesText depth chain (slice tokens start high) nodes ∧ nodes ≠ [] := by
  induction cuts generalizing nodes with
  | last =>
      obtain _ | ⟨type, none⟩ := types
      cases none
      exact ⟨.last type, by simp⟩
  | more ordered inside present separates _ inductionHypothesis =>
      obtain _ | ⟨type, later⟩ := types
      obtain ⟨types, nonempty⟩ := inductionHypothesis later
      obtain ⟨next, nodes, rfl⟩ := List.exists_cons_of_ne_nil nonempty
      rw [← slice_append tokens ordered (Nat.le_of_lt inside), slice_eq_cons present inside]
      exact ⟨.more type separates types, by simp⟩

/-- What is read part by part from the parts of a range is a list of values. -/
theorem valuesText_of_parts {depth chain low : Nat} {items : List (Part low high)}
    {nodes : List Node}
    (cuts : (high ≤ low ∧ items = []) ∨
      (low < high ∧ Cuts tokens Token.isComma high low (items.map Part.range)))
    (values : List.Forall₂ (fun (part : Part low high) node =>
      ∃ order, ValueText depth chain order (slice tokens part.start part.stop) node) items nodes) :
    ValuesText depth chain (slice tokens low high) nodes := by
  rcases cuts with ⟨empty, rfl⟩ | ⟨-, cuts⟩
  · cases values
    rw [slice_eq_nil tokens empty]
    exact .none
  · exact (valuesText_of_cuts cuts (List.forall₂_map_left_iff.mpr values)).1

/-- What is read part by part from the parts of a range is a list of types. -/
theorem typesText_of_parts {depth chain low : Nat} {items : List (Part low high)}
    {nodes : List Node}
    (cuts : (high ≤ low ∧ items = []) ∨
      (low < high ∧ Cuts tokens Token.isComma high low (items.map Part.range)))
    (types : List.Forall₂ (fun (part : Part low high) node =>
      TypeText false depth chain (slice tokens part.start part.stop) node) items nodes) :
    TypesText depth chain (slice tokens low high) nodes := by
  rcases cuts with ⟨empty, rfl⟩ | ⟨-, cuts⟩
  · cases types
    rw [slice_eq_nil tokens empty]
    exact .none
  · exact (typesText_of_cuts cuts (List.forall₂_map_left_iff.mpr types)).1

/-! ### Chains -/

/-- What stands behind an operator that joins operands: a type behind `is`, else a value. -/
def OperandText (depth chain : Nat) (operator : Token) (text : List Token) (node : Node) : Prop :=
  (operator.isOperator .isWord = false ∧ ∃ order, ValueText depth chain order text node) ∨
    (operator.isOperator .isWord = true ∧ TypeText false depth chain text node)

/-- A value whose scan notes only tighter operators binds tighter. -/
theorem ValueText.binds {depth chain order tighter index : Nat} {text : List Token} {node : Node}
    {found : List (Nat × Nat)} {state : Nat × Bool}
    (value : ValueText depth chain tighter text node)
    (scanned : scan index 0 false text = some (found, state))
    (tight : ∀ entry ∈ found, entry.2 < order) (positive : 0 < order) : tighter < order := by
  by_cases unjoined : tighter = 0
  · omega
  · obtain ⟨noted, joined, reached⟩ := value.joined index
    obtain ⟨entry, member, rfl⟩ := reached (Nat.pos_of_ne_zero unjoined)
    have same := joined.scanned.symm.trans scanned
    simp only [Option.some.injEq, Prod.mk.injEq] at same
    exact tight entry (same.1 ▸ member)

/-- One operator more, with the operand behind it. -/
theorem ChainText.extend {depth chain order count index : Nat} {operator : Token}
    {leftText rightText : List Token} {left right : Node} {found : List (Nat × Nat)}
    {state : Nat × Bool} (before : ChainText depth chain order count leftText left)
    (ordered : operator.order? = some order)
    (operand : OperandText depth chain operator rightText right)
    (scanned : scan index 0 false rightText = some (found, state))
    (tight : ∀ entry ∈ found, entry.2 < order) :
    ChainText depth chain order (count + 1) (leftText ++ operator :: rightText)
      ⟨.binary, operator, [left, right]⟩ := by
  rcases operand with ⟨takesValue, tighter, value⟩ | ⟨takesType, type⟩
  · exact .value before ordered takesValue value
      (value.binds scanned tight (Token.pos_of_order? ordered))
  · exact .type before ordered takesType type

/-- An entry that is no looser than an order, and has not that order, is tighter. -/
theorem tight_of_filter {found : List (Nat × Nat)} {order : Nat}
    (order_le : ∀ entry ∈ found, entry.2 ≤ order)
    (none : found.filter (·.2 == order) = []) : ∀ entry ∈ found, entry.2 < order := by
  intro entry member
  have different := List.filter_eq_nil_iff.mp none entry member
  simp only [beq_iff_eq] at different
  have := order_le entry member
  omega

/-- One step of the fold over a chain: the operator, with what stands behind it, is added to what
has been folded. -/
theorem ensures_link {low order count : Nat} (size : high ≤ tokens.size) (link : Link low high)
    {operator : Token} {left : Node} {found : List (Nat × Nat)} {state : Nat × Bool}
    (present : tokens[link.operator]? = some operator) (ordered : operator.order? = some order)
    (inside : link.operator < link.stop)
    (operand : (rightOperand tokens link.operator link.stop).Ensures tokens usage
      (OperandText usage.depthLeft usage.chainLeft operator
        (slice tokens (link.operator + 1) link.stop)))
    (before : ChainText usage.depthLeft usage.chainLeft order count
      (slice tokens low link.operator) left)
    (scanned : scan (link.operator + 1) 0 false (slice tokens (link.operator + 1) link.stop) =
      some (found, state))
    (tight : ∀ entry ∈ found, entry.2 < order) :
    (do
      let right ← rightOperand tokens link.operator link.stop
      let token ← Reading.tokenAt tokens link.operator
      return ⟨.binary, token, [left, right]⟩ : Reading Node).Ensures tokens usage
        (ChainText usage.depthLeft usage.chainLeft order (count + 1)
          (slice tokens low link.stop)) := by
  have low_lt_operator := link.low_lt_operator
  have stop_le_high := link.stop_le_high
  refine operand.bind fun right operand => ?_
  refine (ensures_tokenAt (by omega)).bind fun token found => ?_
  cases present.symm.trans found
  refine ensures_pure ?_
  rw [← slice_append tokens (Nat.le_of_lt low_lt_operator) (Nat.le_of_lt inside),
    slice_eq_cons present inside]
  exact before.extend ordered operand scanned tight

/-- The operands behind the split points of a range, folded from the left, are a chain. What has been
folded is a chain up to the first point, and the scan behind that point notes the later ones. -/
theorem ensures_links {low order : Nat} (size : high ≤ tokens.size)
    (operands : ∀ (link : Link low high) (operator : Token),
      tokens[link.operator]? = some operator → link.operator < link.stop →
      (rightOperand tokens link.operator link.stop).Ensures tokens usage
        (OperandText usage.depthLeft usage.chainLeft operator
          (slice tokens (link.operator + 1) link.stop)))
    (later : List (Joint low high)) (first : Joint low high) {operator : Token} {left : Node}
    {count : Nat} {found : List (Nat × Nat)} {state : Nat × Bool}
    (present : tokens[first.index]? = some operator) (ordered : operator.order? = some order)
    (before : ChainText usage.depthLeft usage.chainLeft order count
      (slice tokens low first.index) left)
    (scanned : scan (first.index + 1) 0 false (slice tokens (first.index + 1) high) =
      some (found, state))
    (order_le : ∀ entry ∈ found, entry.2 ≤ order)
    (points : found.filter (·.2 == order) = later.map Joint.noted) :
    ((links (first :: later)).foldlM (fun left link => do
        let right ← rightOperand tokens link.operator link.stop
        let token ← Reading.tokenAt tokens link.operator
        return ⟨.binary, token, [left, right]⟩) left : Reading Node).Ensures tokens usage
      (ChainText usage.depthLeft usage.chainLeft order (count + (later.length + 1))
        (slice tokens low high)) := by
  induction later generalizing first left count operator found with
  | nil =>
      rw [links, List.foldlM_cons]
      refine (ensures_link size _ present ordered first.index_lt_high
        (operands _ operator present first.index_lt_high) before scanned
        (tight_of_filter order_le points)).bind fun node chain => ?_
      exact ensures_pure chain
  | cons next rest inductionHypothesis =>
      obtain ⟨tighter, after, rfl, none, isPoint, afterPoints⟩ := List.filter_eq_cons_iff.mp points
      simp only [Joint.noted, beq_iff_eq] at isPoint
      obtain ⟨first_lt_next, next_lt_high, nextOperator, nextPresent, nextOrdered, tighterScanned,
        afterScanned⟩ := scan_slice_split size first.index_lt_high scanned
      rw [isPoint] at nextOrdered
      have tight : ∀ entry ∈ tighter, entry.2 < order :=
        tight_of_filter (fun entry member => order_le entry (by simp [member]))
          (List.filter_eq_nil_iff.mpr none)
      have inside : first.index < next.index := first_lt_next
      let link : Link low high :=
        ⟨first.index, next.index, first.low_lt_index, Nat.le_of_lt next.index_lt_high⟩
      rw [links, List.foldlM_cons]
      refine (ensures_link size link present ordered inside (operands link operator present inside)
        before tighterScanned tight).bind fun node chain => ?_
      refine (inductionHypothesis next nextPresent nextOrdered chain afterScanned
        (fun entry member => order_le entry (by simp [member])) afterPoints).mono
        fun result chain => ?_
      rw [List.length_cons, show count + (rest.length + 1 + 1) = count + 1 + (rest.length + 1) by
        omega]
      exact chain

theorem sound_splitPoints {low : Nat} (size : high ≤ tokens.size) :
    Sound tokens (splitPoints tokens low high) fun points =>
      ∃ found loosest, SplitsAt tokens low high points found loosest := by
  have agrees := @splitPoints_agrees tokens low high size
  unfold Sound
  split
  next points ran =>
    rw [ran] at agrees
    exact agrees
  next error ran =>
    rw [ran] at agrees
    exact agrees.1

/-! ### Operators before a primary -/

/-- Where the scan notes nothing, it notes nothing behind the first token either. -/
theorem scan_tail_eq_nil {index : Nat} {behindOperand : Bool} {token : Token} {rest : List Token}
    {state : Nat × Bool} (plain : token.IsPlain)
    (scanned : scan index 0 behindOperand (token :: rest) = some ([], state)) :
    scan (index + 1) 0 token.endsOperand rest = some ([], state) := by
  rw [scan] at scanned
  obtain ⟨⟨noted, next⟩, stepped, scanned⟩ := Option.bind_eq_some_iff.mp scanned
  obtain ⟨⟨found, last⟩, later, equal⟩ := Option.map_eq_some_iff.mp scanned
  simp only [Prod.mk.injEq, List.append_eq_nil_iff] at equal
  obtain ⟨⟨rfl, rfl⟩, rfl⟩ := equal
  have outside : next = 0 := by
    simp only [scanStep, Token.isOpener, plain.opens?, Token.isCloser, plain.closes?,
      Option.isSome_none, Bool.false_eq_true, ↓reduceIte] at stepped
    split at stepped <;> simp_all
  rw [outside] at later
  exact later

/-- Where the scan notes nothing behind an operand, no minus comes first. -/
theorem head_not_minus_of_scan {index : Nat} {text : List Token} {state : Nat × Bool}
    (scanned : scan index 0 true text = some ([], state)) :
    text.head?.any (·.isOperator .minus) = false := by
  cases text with
  | nil => rfl
  | cons token rest =>
      cases minus : token.isOperator .minus with
      | false => simp [minus]
      | true =>
          obtain ⟨order, ordered⟩ : ∃ order, token.order? = some order := by
            simp [Token.order?, Token.operator?_of_isOperator minus, Operator.order?]
          rw [scan_cons_of_order? ordered] at scanned
          obtain ⟨found, -, equal⟩ := Option.map_eq_some_iff.mp scanned
          simp at equal

/-! ### The readings of values and types -/

mutual

/-- What is read from a range as a value is a value that spans the range. -/
theorem value_ensures {tokens : Array Token} {low high : Nat} {usage : Usage}
    (size : high ≤ tokens.size) :
    (value tokens low high).Ensures tokens usage fun node =>
      ∃ order, ValueText usage.depthLeft usage.chainLeft order (slice tokens low high) node := by
  rw [value]
  split
  next nonempty =>
    refine ensures_nested fun room => ?_
    have level := Usage.depthLeft_enter_lt room
    refine (ensures_lift (sound_splitPoints size)).bind ?_
    intro points held
    rcases held with ⟨found, loosest, splits⟩
    obtain ⟨state, scanned⟩ := splits.scanned
    cases points with
    | nil =>
        rw [splits.found_eq_nil rfl] at scanned
        refine (unary_ensures size (Nat.le_of_lt nonempty) scanned).mono fun node operand => ?_
        exact ⟨0, operand _ level⟩
    | cons first later =>
        obtain ⟨tighter, after, rfl, none, isPoint, afterPoints⟩ :=
          List.filter_eq_cons_iff.mp splits.points_eq.symm
        obtain ⟨low_le_first, first_lt_high, operator, present, ordered, tighterScanned,
          afterScanned⟩ := scan_slice_split size (Nat.le_of_lt nonempty) scanned
        simp only [Joint.noted, beq_iff_eq] at isPoint
        rw [isPoint] at ordered
        have tight : ∀ entry ∈ tighter, entry.2 < loosest :=
          tight_of_filter (fun entry member => splits.order_le entry (by simp [member]))
            (List.filter_eq_nil_iff.mpr none)
        refine ensures_chained fun linked => ?_
        have first_le_size : first.index ≤ tokens.size := by
          have := first.index_lt_high
          omega
        refine (value_ensures first_le_size).bind ?_
        intro leftmost held
        rcases held with ⟨order, operand⟩
        refine (ensures_links size (fun link operator present _ =>
            have := link.extent_lt nonempty
            rightOperand_ensures (Nat.le_trans link.stop_le_high size) present)
          later first present ordered
          (.first operand (operand.binds tighterScanned tight (Token.pos_of_order? ordered)))
          afterScanned (fun entry member => splits.order_le entry (by simp [member]))
          afterPoints).mono fun node operands => ?_
        rw [Nat.zero_add] at operands
        exact ⟨loosest, .chain level (Usage.chainLeft_link_add_le linked) (Nat.succ_pos _) operands⟩
  next => exact ensures_expected ..
termination_by 16 * (high - low) + 7
decreasing_by all_goals omega

theorem rightOperand_ensures {tokens : Array Token} {operator stop : Nat} {usage : Usage}
    {token : Token} (size : stop ≤ tokens.size) (present : tokens[operator]? = some token) :
    (rightOperand tokens operator stop).Ensures tokens usage
      (OperandText usage.depthLeft usage.chainLeft token (slice tokens (operator + 1) stop)) := by
  rw [rightOperand, Sound.tokenAt_eq_ok present]
  refine (ensures_lift (Sound.ok rfl)).bind ?_
  intro _ equal
  subst equal
  split
  next takesType =>
    refine (typeAt_ensures size).bind ?_
    intro answer held
    rcases answer with ⟨type, next, le_next⟩
    rcases held with ⟨-, typed, -⟩
    dsimp only at typed ⊢
    split
    next reached => exact ensures_pure (.inr ⟨takesType, reached ▸ typed⟩)
    next => exact ensures_violationAt ..
  next takesValue =>
    exact (value_ensures size).mono fun node operand =>
      .inl ⟨by simpa using takesValue, operand⟩
termination_by 16 * (stop - operator) + 8
decreasing_by all_goals omega

/-- A value in which the scan notes nothing is composite or unary. -/
theorem unary_ensures {tokens : Array Token} {low high : Nat} {usage : Usage}
    {state : Nat × Bool} (size : high ≤ tokens.size) (bound : low ≤ high)
    (scanned : scan low 0 false (slice tokens low high) = some ([], state)) :
    (unary tokens low high bound).Ensures tokens usage fun node =>
      ∀ depth, usage.depthLeft < depth →
        ValueText depth usage.chainLeft 0 (slice tokens low high) node := by
  rw [unary]
  refine (ensures_lift (sound_operandStart size bound)).bind ?_
  intro answer preceding
  rcases answer with ⟨start, low_le_start, start_le_high⟩
  dsimp only at preceding ⊢
  split
  next curly =>
    simp only [Bool.and_eq_true, decide_eq_true_eq, beq_iff_eq] at curly
    obtain ⟨opener, present, opens⟩ := Option.bind_eq_some_iff.mp curly.2
    exact composite_ensures size curly.1 low_le_start present opens
  next =>
    exact (preceded_ensures size low_le_start start_le_high preceding scanned).mono
      fun node operand depth level => .unary level operand
termination_by 16 * (high - low) + 6
decreasing_by all_goals omega

theorem composite_ensures {tokens : Array Token} {low brace high : Nat} {usage : Usage}
    {opener : Token} (size : high ≤ tokens.size) (inside : brace < high)
    (low_le_brace : low ≤ brace) (present : tokens[brace]? = some opener)
    (opens : opener.opens? = some .curly) :
    (composite tokens low brace high low_le_brace).Ensures tokens usage fun node =>
      ∀ depth, usage.depthLeft < depth →
        ValueText depth usage.chainLeft 0 (slice tokens low high) node := by
  rw [composite]
  split
  next alone =>
    subst alone
    apply ensures_closing_bind present opens
    intro close brace_lt_close close_lt_high closer closerPresent closes
    dsimp only
    split
    next ends =>
      apply ensures_tokenAt_bind present
      refine (ensures_lift (sound_parts (by omega))).bind fun items cuts => ?_
      refine (ensures_mapM items fun part _ =>
        have := part.extent_le
        value_ensures (Nat.le_trans part.stop_le_high (by omega))).bind fun values each => ?_
      refine ensures_pure fun depth level => ?_
      rw [slice_eq_pair present brace_lt_close closerPresent close_lt_high,
        slice_eq_nil tokens (Nat.le_of_eq ends.symm)]
      exact .composite level opens (valuesText_of_parts cuts each) closes
    next => exact ensures_violationAt ..
  next => exact ensures_violationAt ..
termination_by 16 * (high - low) + 5
decreasing_by all_goals omega

/-- Behind the operators there is an operand. The range is scanned with what came before it in
mind, for a minus behind an increment would stand between operands. -/
theorem preceded_ensures {tokens : Array Token} {low start high : Nat} {usage : Usage}
    {behindOperand : Bool} {state : Nat × Bool} (size : high ≤ tokens.size)
    (low_le_start : low ≤ start) (start_le_high : start ≤ high)
    (preceding : ∀ token ∈ slice tokens low start, token.mayPrecedeOperand = true)
    (scanned : scan low 0 behindOperand (slice tokens low high) = some ([], state)) :
    (preceded tokens low start high low_le_start start_le_high).Ensures tokens usage
      (UnaryText usage.depthLeft usage.chainLeft (slice tokens low high)) := by
  rw [preceded]
  split
  next another =>
    refine ensures_nested fun room => ?_
    have present := Array.getElem?_eq_getElem (show low < tokens.size by omega)
    generalize tokens[low] = operator at present
    rw [slice_eq_cons present another] at preceding
    rw [slice_eq_cons present (by omega)] at scanned ⊢
    have precedes := preceding operator (by simp)
    have rest := scan_tail_eq_nil (Token.isPlain_of_mayPrecedeOperand precedes) scanned
    refine (preceded_ensures size another start_le_high
      (fun token member => preceding token (by simp [member])) rest).bind fun node operand => ?_
    apply ensures_tokenAt_bind present
    refine ensures_pure (.preceded (Usage.depthLeft_enter_lt room) precedes (fun steps => ?_)
      operand)
    rw [Token.stepsOperand, ← Token.mayFollowOperand_of_mayPrecedeOperand precedes] at steps
    rw [Token.endsOperand_of_mayFollowOperand steps] at rest
    exact head_not_minus_of_scan rest
  next =>
    obtain rfl : low = start := by omega
    refine (primary_ensures size).bind ?_
    intro answer held
    rcases answer with ⟨base, next, le_next⟩
    rcases held with ⟨next_le, primary⟩
    dsimp only at next_le primary ⊢
    refine (followed_ensures size).mono fun node after => ?_
    rw [← slice_append tokens le_next next_le]
    exact .followed primary after
termination_by 16 * (high - low) + 4
decreasing_by all_goals omega

theorem primary_ensures {tokens : Array Token} {index high : Nat} {usage : Usage}
    (size : high ≤ tokens.size) :
    (primary tokens index high).Ensures tokens usage fun found =>
      found.next ≤ high ∧ PrimaryText usage.depthLeft usage.chainLeft
        (slice tokens index found.next) found.result := by
  rw [primary]
  split
  next inside =>
    split
    next => exact ensures_expected ..
    next token present =>
      have alone : slice tokens index (index + 1) = [token] := by
        rw [slice_eq_cons present (Nat.lt_succ_self index), slice_eq_nil tokens (Nat.le_refl _)]
      split
      next classified =>
        exact ensures_pure ⟨inside, alone ▸ .leaf (by simp [Token.leafKind?, classified])⟩
      next classified =>
        exact ensures_pure ⟨inside, alone ▸ .leaf (by simp [Token.leafKind?, classified])⟩
      next classified =>
        exact ensures_pure ⟨inside, alone ▸ .leaf (by simp [Token.leafKind?, classified])⟩
      next => exact ensures_violationAt ..
      next =>
        split
        next opens =>
          have opens : token.opens? = some .round := by simpa using opens
          apply ensures_closing_bind present opens
          intro close index_lt_close close_lt_high closer closerPresent closes
          dsimp only
          refine (value_ensures (by omega)).bind ?_
          intro node held
          rcases held with ⟨order, operand⟩
          refine ensures_pure ⟨close_lt_high, ?_⟩
          rw [slice_eq_pair present index_lt_close closerPresent (Nat.lt_succ_self close),
            slice_eq_nil tokens (Nat.le_refl _)]
          exact .grouped opens operand closes
        next =>
          split
          · exact ensures_violationAt ..
          · exact ensures_expected ..
  next => exact ensures_expected ..
termination_by 16 * (high - index) + 3
decreasing_by all_goals omega

theorem followed_ensures {tokens : Array Token} {node : Node} {index high : Nat} {usage : Usage}
    (size : high ≤ tokens.size) :
    (followed tokens node index high).Ensures tokens usage
      (FollowedText usage.depthLeft usage.chainLeft node (slice tokens index high)) := by
  rw [followed]
  split
  next inside =>
    have present := Array.getElem?_eq_getElem (show index < tokens.size by omega)
    generalize tokens[index] = token at present
    apply ensures_tokenAt_bind present
    split
    next => exact ensures_violationAt ..
    next =>
      refine ensures_nested fun room => ?_
      have level := Usage.depthLeft_enter_lt room
      split
      next opens =>
        apply ensures_closing_bind present opens
        intro close index_lt_close close_lt_high closer closerPresent closes
        dsimp only
        rw [slice_eq_pair present index_lt_close closerPresent close_lt_high]
        refine (valueList_ensures (by omega) present).bind ?_
        intro _ held
        rcases held with ⟨nodes, rfl, values⟩
        exact (followed_ensures size).mono fun result after =>
          .call level opens values closes after
      next opens =>
        apply ensures_closing_bind present opens
        intro close index_lt_close close_lt_high closer closerPresent closes
        dsimp only
        rw [slice_eq_pair present index_lt_close closerPresent close_lt_high]
        refine (value_ensures (by omega)).bind ?_
        intro position held
        rcases held with ⟨order, operand⟩
        exact (followed_ensures size).mono fun result after =>
          .index level opens operand closes after
      next opens =>
        apply ensures_closing_bind present opens
        intro close index_lt_close close_lt_high closer closerPresent closes
        dsimp only
        rw [slice_eq_pair present index_lt_close closerPresent close_lt_high]
        refine (typeList_ensures (by omega) present).bind ?_
        intro _ held
        rcases held with ⟨nodes, rfl, types⟩
        exact (followed_ensures size).mono fun result after =>
          .cast level opens types closes after
      next =>
        split
        next follows =>
          rw [slice_eq_cons present inside]
          exact (followed_ensures size).mono fun result after =>
            .operator level follows after
        next => exact ensures_violationAt ..
  next ended =>
    rw [slice_eq_nil tokens (Nat.not_lt.mp ended)]
    exact ensures_pure .done
termination_by 16 * (high - index) + 2
decreasing_by all_goals omega

theorem valueList_ensures {tokens : Array Token} {opener low high : Nat} {usage : Usage}
    {anchor : Token} (size : high ≤ tokens.size) (present : tokens[opener]? = some anchor) :
    (valueList tokens opener low high).Ensures tokens usage fun node =>
      ∃ nodes, node = .tagged .valueList anchor nodes ∧
        ValuesText usage.depthLeft usage.chainLeft (slice tokens low high) nodes := by
  rw [valueList]
  apply ensures_tokenAt_bind present
  refine (ensures_lift (sound_parts size)).bind fun items cuts => ?_
  refine (ensures_mapM items fun part _ =>
    have := part.extent_le
    value_ensures (Nat.le_trans part.stop_le_high size)).bind fun values each => ?_
  exact ensures_pure ⟨values, rfl, valuesText_of_parts cuts each⟩
termination_by 16 * (high - low) + 8
decreasing_by all_goals omega

theorem typeList_ensures {tokens : Array Token} {opener low high : Nat} {usage : Usage}
    {anchor : Token} (size : high ≤ tokens.size) (present : tokens[opener]? = some anchor) :
    (typeList tokens opener low high).Ensures tokens usage fun node =>
      ∃ nodes, node = .tagged .typeList anchor nodes ∧
        TypesText usage.depthLeft usage.chainLeft (slice tokens low high) nodes := by
  rw [typeList]
  apply ensures_tokenAt_bind present
  refine (ensures_lift (sound_parts size)).bind fun items cuts => ?_
  have each (part : Part low high) : ((do
      let ⟨type, next, _⟩ ← typeAt tokens false part.start part.stop
      if next = part.stop then
        return type
      else
        throw (.violationAt tokens next .tokenInTypeList)) : Reading Node).Ensures tokens usage
          (TypeText false usage.depthLeft usage.chainLeft (slice tokens part.start part.stop)) := by
    have := part.extent_le
    refine (typeAt_ensures (Nat.le_trans part.stop_le_high size)).bind ?_
    intro answer held
    rcases answer with ⟨type, next, le_next⟩
    rcases held with ⟨-, typed, -⟩
    dsimp only at typed ⊢
    split
    next reached => exact ensures_pure (reached ▸ typed)
    next => exact ensures_violationAt ..
  refine (ensures_mapM items fun part _ => each part).bind fun types each => ?_
  exact ensures_pure ⟨types, rfl, typesText_of_parts cuts each⟩
termination_by 16 * (high - low) + 8
decreasing_by all_goals omega

/-- What is read as a type is one, as far as the reading says that it reaches, and does not go on
there. -/
theorem typeAt_ensures {tokens : Array Token} {inParameter : Bool} {low high : Nat}
    {usage : Usage} (size : high ≤ tokens.size) :
    (typeAt tokens inParameter low high).Ensures tokens usage fun found =>
      found.next ≤ high ∧
        TypeText inParameter usage.depthLeft usage.chainLeft (slice tokens low found.next)
          found.result ∧
        ¬found.result.GoesOn inParameter (slice tokens found.next high) ∧
        (inParameter = true → ¬MeetsStatic (slice tokens low found.next)) := by
  rw [typeAt]
  split
  next inside =>
    split
    next => exact ensures_expected ..
    next first firstPresent =>
      refine ensures_nested fun room => ?_
      have level := Usage.depthLeft_enter_lt room
      refine (ensures_lift (sound_qualifiers size (Nat.le_of_lt inside))).bind ?_
      intro answer held
      rcases answer with ⟨qualifying, afterQualifiers, le_afterQualifiers⟩
      dsimp only at held ⊢
      obtain ⟨afterQualifiers_le, qualified, rfl, apart⟩ := held
      refine (typeMarks_ensures size afterQualifiers_le).bind ?_
      intro answer held
      rcases answer with ⟨marks, baseIndex, le_baseIndex⟩
      rcases held with ⟨baseIndex_le, marked⟩
      dsimp only at baseIndex_le marked ⊢
      split
      next baseInside =>
        split
        next => exact ensures_expected ..
        next base basePresent =>
          refine (ensures_lift (sound_baseName size baseInside basePresent)).bind ?_
          intro answer held
          rcases answer with ⟨path, name, afterName, lt_afterName⟩
          rcases held with ⟨afterName_le, named, nameStops⟩
          dsimp only at afterName_le named nameStops ⊢
          have isVoid : base.isVoid = name.isVoid := by
            obtain ⟨word, rest, begins, -, isVoid⟩ := named.begins
            rw [slice_eq_cons basePresent lt_afterName, List.cons.injEq] at begins
            rw [begins.1, isVoid]
          refine (typeArguments_ensures size afterName_le isVoid).bind ?_
          intro answer held
          rcases answer with ⟨arguments, afterArguments, le_afterArguments⟩
          rcases held with ⟨afterArguments_le, applied, argumentsStop⟩
          dsimp only at afterArguments_le applied argumentsStop ⊢
          refine (ensures_lift (sound_backReference size afterArguments_le)).bind ?_
          intro answer held
          rcases answer with ⟨reference, next, le_next⟩
          rcases held with ⟨next_le, referred, referenceStops⟩
          dsimp only at next_le referred referenceStops ⊢
          have toName : slice tokens low afterQualifiers ++ slice tokens afterQualifiers baseIndex ++
              slice tokens baseIndex afterName = slice tokens low afterName := by
            rw [slice_append tokens le_afterQualifiers le_baseIndex,
              slice_append tokens (by omega) (by omega)]
          refine ensures_pure ⟨next_le, ?_, ?_, fun parameter meets => apart parameter ?_⟩
          · rw [← slice_append tokens (show low ≤ afterArguments by omega) le_next,
              ← slice_append tokens (show low ≤ afterName by omega) le_afterArguments, ← toName]
            refine .type level qualified marked named applied referred ?_
            rw [toName, slice_eq_cons firstPresent (by omega)]
            rfl
          · dsimp only
            rw [Node.goesOn_iff applied referred, slice_append tokens le_next next_le,
              slice_append tokens le_afterArguments afterArguments_le, not_or, not_or]
            exact ⟨nameStops, argumentsStop, referenceStops⟩
          · rw [← slice_append tokens (show low ≤ next by omega) next_le]
            exact meets.append_right
      next => exact ensures_expected ..
  next => exact ensures_expected ..
termination_by 16 * (high - low) + 7
decreasing_by all_goals omega

theorem typeMarks_ensures {tokens : Array Token} {index high : Nat} {usage : Usage}
    (size : high ≤ tokens.size) (bound : index ≤ high) :
    (typeMarks tokens index high).Ensures tokens usage fun found =>
      found.next ≤ high ∧ MarksText usage.depthLeft usage.chainLeft
        (slice tokens index found.next) found.result := by
  have nothing : MarksText usage.depthLeft usage.chainLeft (slice tokens index index) [] := by
    rw [slice_eq_nil tokens (Nat.le_refl _)]
    exact .done
  rw [typeMarks]
  split
  next inside =>
    have present := Array.getElem?_eq_getElem (show index < tokens.size by omega)
    generalize tokens[index] = token at present
    apply ensures_tokenAt_bind present
    split
    next points =>
      apply (typeMarks_ensures size inside).bind
      intro answer held
      rcases answer with ⟨later, next, le_next⟩
      rcases held with ⟨next_le, marked⟩
      dsimp only at next_le marked ⊢
      refine ensures_pure ⟨next_le, ?_⟩
      rw [slice_eq_cons present le_next]
      exact .pointer points marked
    next =>
      split
      next opens =>
        have opens : token.opens? = some .curly := by simpa using opens
        apply ensures_closing_bind present opens
        intro close index_lt_close close_lt_high closer closerPresent closes
        dsimp only
        split
        next sized =>
          apply (value_ensures (by omega)).bind
          intro length held
          rcases held with ⟨order, operand⟩
          rw [pure_bind]
          apply (typeMarks_ensures size close_lt_high).bind
          intro answer held
          rcases answer with ⟨later, next, le_next⟩
          rcases held with ⟨next_le, marked⟩
          dsimp only at next_le marked ⊢
          refine ensures_pure ⟨next_le, ?_⟩
          rw [slice_eq_pair present index_lt_close closerPresent le_next]
          exact .sized opens operand closes marked
        next empty =>
          rw [pure_bind]
          apply (typeMarks_ensures size close_lt_high).bind
          intro answer held
          rcases answer with ⟨later, next, le_next⟩
          rcases held with ⟨next_le, marked⟩
          dsimp only at next_le marked ⊢
          refine ensures_pure ⟨next_le, ?_⟩
          rw [slice_eq_pair present index_lt_close closerPresent le_next,
            slice_eq_nil tokens (Nat.not_lt.mp empty)]
          exact .unsized opens closes marked
      next => exact ensures_pure ⟨bound, nothing⟩
  next => exact ensures_pure ⟨bound, nothing⟩
termination_by 16 * (high - index) + 6
decreasing_by all_goals omega

/-- A name takes the arguments that are opened behind it, and the results of `void`. -/
theorem typeArguments_ensures {tokens : Array Token} {base name : Token} {index high : Nat}
    {usage : Usage} (size : high ≤ tokens.size) (bound : index ≤ high)
    (isBase : base.isVoid = name.isVoid) :
    (typeArguments tokens base index high).Ensures tokens usage fun found =>
      found.next ≤ high ∧
        ArgumentsText usage.depthLeft usage.chainLeft name (slice tokens index found.next)
          found.result ∧
        ¬ArgumentsGoOn name found.result (slice tokens found.next high) := by
  have nothing :
      ArgumentsText usage.depthLeft usage.chainLeft name (slice tokens index index) [] := by
    rw [slice_eq_nil tokens (Nat.le_refl _)]
    exact .none
  have atEnd {next : Nat} {nodes : List Node} (ends : ¬next < high) :
      ¬ArgumentsGoOn name nodes (slice tokens next high) := by
    rw [slice_eq_nil tokens (Nat.not_lt.mp ends)]
    exact not_argumentsGoOn_nil
  rw [typeArguments]
  split
  next inside =>
    have present := Array.getElem?_eq_getElem (show index < tokens.size by omega)
    generalize tokens[index] = token at present
    apply ensures_tokenAt_bind present
    split
    next opens =>
      have opens : token.opens? = some .round := by simpa using opens
      apply ensures_closing_bind present opens
      intro close index_lt_close close_lt_high closer closerPresent closes
      dsimp only
      refine (typeList_ensures (by omega) present).bind ?_
      intro _ held
      rcases held with ⟨nodes, rfl, types⟩
      have alone : ArgumentsText usage.depthLeft usage.chainLeft name
          (slice tokens index (close + 1)) [.tagged .typeList token nodes] := by
        rw [slice_eq_pair present index_lt_close closerPresent (Nat.lt_succ_self close),
          slice_eq_nil tokens (Nat.le_refl _)]
        exact .arguments opens types closes
      split
      next another =>
        have secondPresent := Array.getElem?_eq_getElem (show close + 1 < tokens.size by omega)
        generalize tokens[close + 1] = second at secondPresent
        apply ensures_tokenAt_bind secondPresent
        split
        next results =>
          simp only [Bool.and_eq_true, beq_iff_eq] at results
          obtain ⟨⟨isBuiltin, isVoidWord⟩, opensResults⟩ := results
          have isVoid : name.isVoid = true := by
            rw [← isBase]
            simp [Token.isVoid, isBuiltin, isVoidWord]
          apply ensures_closing_bind secondPresent opensResults
          intro secondClose close_lt_second second_lt_high secondCloser secondCloserPresent
            closesResults
          dsimp only
          refine (typeList_ensures (by omega) secondPresent).bind ?_
          intro _ held
          rcases held with ⟨resultNodes, rfl, resultTypes⟩
          refine ensures_pure ⟨second_lt_high, ?_, nofun⟩
          dsimp only
          rw [slice_eq_pair present index_lt_close closerPresent (by omega),
            slice_eq_pair secondPresent close_lt_second secondCloserPresent
              (Nat.lt_succ_self secondClose), slice_eq_nil tokens (Nat.le_refl _)]
          exact .results isVoid opens types closes opensResults resultTypes closesResults
        next noResults =>
          refine ensures_pure ⟨close_lt_high, alone, ?_⟩
          dsimp only
          rw [slice_eq_cons secondPresent another, argumentsGoOn_singleton_cons, ← isBase]
          rintro ⟨isVoid, opensResults⟩
          exact noResults (by rw [Bool.and_eq_true]; exact ⟨isVoid, by simp [opensResults]⟩)
      next ends => exact ensures_pure ⟨close_lt_high, alone, atEnd ends⟩
    next notRound =>
      refine ensures_pure ⟨bound, nothing, ?_⟩
      dsimp only
      rw [slice_eq_cons present inside, argumentsGoOn_cons]
      exact fun opens => notRound (by simp [opens])
  next ends => exact ensures_pure ⟨bound, nothing, atEnd ends⟩
termination_by 16 * (high - index) + 6
decreasing_by all_goals omega

end

end TnslReader
