import TnslReader.Grammar.Value
import TnslReader.Proofs.Answers
import TnslReader.Proofs.TypeEnds
import TnslReader.Proofs.ValueJoints
import TnslReader.Proofs.ValueRoom

/-!
Contract: every value and every type of the grammar is read.

For each piece of the grammar there is one theorem here, by recursion on its derivation, which says
what the reading of that piece answers on a range whose tokens are the text. Where a reading looks
for something, the end of a bracket pair, the next comma, the operators that join operands, what it
finds is known from the derivation: a value is nested, and its scan notes just the operators that
its grammar puts between operands.

The operators of a chain come in the order of the text, and the reader folds over them from the
left. A chain is derived from the right, so it is compared with the fold over the operators and
their operands written as plain pairs (`operandsBehind`), which gains one pair at the end with each
operator of the derivation.

A type need not fill its range. It is read up to where it ends if it does not go on there, and
whether it does is a question to each of its pieces, asked where the piece ends.
-/

set_option autoImplicit false

namespace TnslReader

variable {tokens : Array Token} {high : Nat} {usage : Usage}

open Reading (Answers answers_pure answers_lift answers_tokenAt answers_nested answers_chained)

/-! ### Readings without state -/

/-- Over qualifiers the reading goes on, and it stops before a token that is no keyword and, in a
parameter, is not spelled `static`. -/
theorem qualifiers_eq {inParameter : Bool} {index next : Nat} (index_le_next : index ≤ next)
    (next_lt_high : next < high) (size : high ≤ tokens.size)
    (qualified : ∀ token ∈ slice tokens index next, token.qualifies inParameter = true)
    (stops : ∀ token, tokens[next]? = some token → token.tokenClass ≠ .keyword ∧
      (inParameter = true → token.keyword? ≠ some .staticWord)) :
    qualifiers tokens inParameter index high =
      .ok ⟨(slice tokens index next).map (.leaf .qualifier), next, index_le_next⟩ := by
  have present := Array.getElem?_eq_getElem (show index < tokens.size by omega)
  generalize tokens[index] = token at present
  rw [qualifiers, dif_pos (show index < high by omega), Sound.tokenAt_eq_ok present, Sound.ok_bind]
  rcases Nat.eq_or_lt_of_le index_le_next with rfl | index_lt_next
  · obtain ⟨notKeyword, notStatic⟩ := stops token present
    rw [if_neg (by simpa using notStatic), if_neg (by simp [notKeyword])]
    simp only [slice_eq_nil tokens (Nat.le_refl index), List.map_nil]
    rfl
  · rw [slice_eq_cons present index_lt_next] at qualified
    have qualifies := qualified token (by simp)
    simp only [Token.qualifies, Bool.and_eq_true, Bool.not_eq_true'] at qualifies
    rw [if_neg (by simp [qualifies.2]), if_pos (by simpa using qualifies.1),
      qualifiers_eq index_lt_next next_lt_high size
        (fun later member => qualified later (by simp [member])) stops, Sound.ok_bind,
      slice_eq_cons present index_lt_next, List.map_cons]
    rfl
termination_by high - index

/-- A dotted name is read up to its last word, if it does not go on from there. -/
theorem dottedName_eq {text : List Token} {path : List Node} {name : Token}
    (dotted : DottedText text path name) {index next : Nat} (index_lt_next : index < next)
    (next_le_high : next ≤ high) (size : high ≤ tokens.size)
    (equal : slice tokens index next = text)
    (stops : ¬NameGoesOn name (slice tokens next high)) :
    dottedName tokens index high = .ok ⟨path, name, next, index_lt_next⟩ := by
  induction dotted generalizing index with
  | @word name isWord =>
      obtain ⟨-, present, ends⟩ := eq_cons_of_slice equal
      obtain rfl := eq_of_slice_eq_nil ends index_lt_next (by omega)
      rw [dottedName, Sound.tokenAt_eq_ok present, Sound.ok_bind]
      split
      next further =>
        have dotPresent := Array.getElem?_eq_getElem (show index + 1 < tokens.size by omega)
        have secondPresent := Array.getElem?_eq_getElem (show index + 2 < tokens.size by omega)
        rw [slice_eq_cons dotPresent (by omega), slice_eq_cons secondPresent further] at stops
        rw [Sound.tokenAt_eq_ok dotPresent, Sound.ok_bind, Sound.tokenAt_eq_ok secondPresent]
        split
        next isDot =>
          have ends : tokens[index + 2].tokenClass ≠ .userWord :=
            fun another => stops (.word isWord isDot another)
          rw [Sound.ok_bind, if_neg (by simpa using ends)]
          rfl
        next => rfl
      next => rfl
  | @dot word dot name text path isWord isDot rest inductionHypothesis =>
      obtain ⟨-, present, equal⟩ := eq_cons_of_slice equal
      obtain ⟨-, dotPresent, equal⟩ := eq_cons_of_slice equal
      have index_lt_next : index + 2 < next := lt_of_slice equal rest.length_pos
      obtain ⟨second, secondPresent, isSecond⟩ : ∃ second, tokens[index + 2]? = some second ∧
          second.tokenClass = .userWord := by
        cases rest with
        | word isWord => exact ⟨_, (eq_cons_of_slice equal).2.1, isWord⟩
        | dot isWord _ _ => exact ⟨_, (eq_cons_of_slice equal).2.1, isWord⟩
      rw [dottedName, Sound.tokenAt_eq_ok present, Sound.ok_bind,
        dif_pos (show index + 2 < high by omega), Sound.tokenAt_eq_ok dotPresent, Sound.ok_bind,
        if_pos isDot, Sound.tokenAt_eq_ok secondPresent, Sound.ok_bind, if_pos (by simp [isSecond]),
        inductionHypothesis index_lt_next equal stops, Sound.ok_bind]
      rfl

/-- The base name is read up to its last word, if it does not go on from there. -/
theorem baseName_eq {text : List Token} {path : List Node} {name base : Token}
    (named : NameText text path name) {index next : Nat} (index_lt_next : index < next)
    (next_le_high : next ≤ high) (size : high ≤ tokens.size)
    (equal : slice tokens index next = text) (present : tokens[index]? = some base)
    (stops : ¬NameGoesOn name (slice tokens next high)) :
    baseName tokens index high base = .ok ⟨path, name, next, index_lt_next⟩ := by
  cases named with
  | builtin isBuiltin =>
      obtain ⟨-, found, ends⟩ := eq_cons_of_slice equal
      cases present.symm.trans found
      obtain rfl := eq_of_slice_eq_nil ends index_lt_next (by omega)
      simp only [baseName, isBuiltin]
  | dotted words =>
      have isWord : base.tokenClass = .userWord := by
        cases words with
        | word isWord =>
            cases present.symm.trans (eq_cons_of_slice equal).2.1
            exact isWord
        | dot isWord _ _ =>
            cases present.symm.trans (eq_cons_of_slice equal).2.1
            exact isWord
      simp only [baseName, isWord]
      exact dottedName_eq words index_lt_next next_le_high size equal stops

/-! ### The operators of a chain -/

/-- Each operator of a chain that ends at `high` with the end of the operand behind it. -/
def operandsBehind (high : Nat) : List Nat → List (Nat × Nat)
  | [] => []
  | [last] => [(last, high)]
  | operator :: next :: later => (operator, next) :: operandsBehind high (next :: later)

/-- One operator more at the end: the operand before it ends there. -/
theorem operandsBehind_append (high last : Nat) (operators : List Nat) :
    operandsBehind high (operators ++ [last]) = operandsBehind last operators ++ [(last, high)] := by
  induction operators with
  | nil => rfl
  | cons operator later inductionHypothesis =>
      cases later with
      | nil => rfl
      | cons next later =>
          simp only [List.cons_append] at inductionHypothesis
          simp only [List.cons_append, operandsBehind, inductionHypothesis]

/-- The fold over the operators between operands only needs where they stand. -/
theorem foldlM_links {low high : Nat} (points : List (Joint low high))
    (step : Node → Nat → Nat → Reading Node) (leftmost : Node) :
    (links points).foldlM (fun left link => step left link.operator link.stop) leftmost =
      (operandsBehind high (points.map (·.index))).foldlM
        (fun left operand => step left operand.1 operand.2) leftmost := by
  induction points generalizing leftmost with
  | nil => rfl
  | cons first later inductionHypothesis =>
      cases later with
      | nil => rfl
      | cons next later =>
          simp only [links, List.map_cons, operandsBehind, List.foldlM_cons]
          refine bind_congr fun left => ?_
          exact inductionHypothesis left

/-- A range is split at the operators of the loosest order of its text. -/
theorem splitPoints_of_scan {low order : Nat} {found : List (Nat × Nat)} {operators : List Nat}
    {state : Nat × Bool} (size : high ≤ tokens.size)
    (scanned : scan low 0 false (slice tokens low high) = some (found, state))
    (order_le : ∀ entry ∈ found, entry.2 ≤ order)
    (kept : found.filter (·.2 == order) = operators.map fun operator => (operator, order))
    (reached : found ≠ [] → operators ≠ []) :
    ∃ points, splitPoints tokens low high = .ok points ∧ points.map (·.index) = operators := by
  have agrees := @splitPoints_agrees tokens low high size
  cases ran : splitPoints tokens low high with
  | error error =>
      rw [ran] at agrees
      simp [agrees.2] at scanned
  | ok points =>
      rw [ran] at agrees
      obtain ⟨others, loosest, ⟨otherState, otherScanned⟩, loosest_le, loosestReached, points_eq⟩ :=
        agrees
      cases otherScanned.symm.trans scanned
      refine ⟨points, rfl, ?_⟩
      have indexes : points.map (·.index) = (points.map Joint.noted).map Prod.fst := by
        simp [Joint.noted]
      rw [indexes, points_eq]
      by_cases none : found = []
      · subst none
        simpa using kept
      · obtain ⟨entry, member, rfl⟩ := loosestReached none
        obtain ⟨operator, held⟩ := List.exists_mem_of_ne_nil operators (reached none)
        have joined : (operator, order) ∈ found.filter (·.2 == order) := by
          rw [kept]
          exact List.mem_map_of_mem held
        have same : entry.2 = order :=
          Nat.le_antisymm (order_le entry member) (loosest_le _ (List.mem_of_mem_filter joined))
        rw [same, kept]
        simp [Function.comp_def]

/-- A range whose scan notes nothing is not split. -/
theorem splitPoints_eq_nil {low : Nat} {state : Nat × Bool} (size : high ≤ tokens.size)
    (scanned : scan low 0 false (slice tokens low high) = some ([], state)) :
    splitPoints tokens low high = .ok [] := by
  obtain ⟨points, found, none⟩ :=
    @splitPoints_of_scan tokens high low 0 [] [] state size scanned (by simp) rfl (by simp)
  rw [found, List.map_eq_nil_iff.mp none]

def joinOperand (tokens : Array Token) (left : Node) (operator stop : Nat) : Reading Node := do
  let right ← rightOperand tokens operator stop
  let token ← Reading.tokenAt tokens operator
  return ⟨.binary, token, [left, right]⟩

/-- The value before the first operator of a chain, folded with the operands behind each. -/
def chainReading (tokens : Array Token) (low high : Nat) (operators : List Nat) : Reading Node := do
  let leftmost ← value tokens low (operators.head?.getD high)
  (operandsBehind high operators).foldlM
    (fun left operand => joinOperand tokens left operand.1 operand.2) leftmost

/-- Without operators a chain is one value. -/
theorem chainReading_nil {low : Nat} : chainReading tokens low high [] = value tokens low high := by
  simp only [chainReading, List.head?_nil, Option.getD_none, operandsBehind, List.foldlM_nil,
    bind_pure]

/-- One operator more at the end of a chain, and the operand behind it. -/
theorem chainReading_append {low last : Nat} (operators : List Nat) :
    chainReading tokens low high (operators ++ [last]) =
      chainReading tokens low last operators >>= fun left => joinOperand tokens left last high := by
  have first : (operators ++ [last]).head?.getD high = operators.head?.getD last := by
    cases operators <;> rfl
  rw [chainReading, first, operandsBehind_append]
  simp only [List.foldlM_append, List.foldlM_cons, List.foldlM_nil, bind_pure]
  rw [← bind_assoc]
  rfl

/-- A range that is cut at some operators is read as the chain over these. -/
theorem value_eq_of_splitPoints {low : Nat} {first : Joint low high}
    {later : List (Joint low high)} (nonempty : low < high)
    (split : splitPoints tokens low high = .ok (first :: later)) :
    value tokens low high = Reading.nested tokens low (Reading.chained tokens first.index
      (later.length + 1) (chainReading tokens low high ((first :: later).map (·.index)))) := by
  simp only [chainReading, ← foldlM_links _ (joinOperand tokens)]
  rw [value, dif_pos nonempty, split]
  rfl

theorem chainReading_append_answers {low last : Nat} {operators : List Nat} {token : Token}
    {enough : Prop} {left right : Node}
    (before : (chainReading tokens low last operators).Answers usage enough left)
    (present : tokens[last]? = some token)
    (operand : (rightOperand tokens last high).Answers usage enough right) :
    (chainReading tokens low high (operators ++ [last])).Answers usage enough
      ⟨.binary, token, [left, right]⟩ := by
  rw [chainReading_append]
  apply before.bind
  exact operand.bind ((answers_tokenAt present).bind (answers_pure _))

theorem rightOperand_value_answers {operator stop : Nat} {token : Token} {enough : Prop}
    {node : Node} (present : tokens[operator]? = some token)
    (takesValue : token.isOperator .isWord = false)
    (answers : (value tokens (operator + 1) stop).Answers usage enough node) :
    (rightOperand tokens operator stop).Answers usage enough node := by
  rw [rightOperand]
  apply (answers_tokenAt present).bind
  rw [if_neg (by simp [takesValue])]
  exact answers

theorem rightOperand_type_answers {operator stop : Nat} {token : Token} {enough : Prop}
    {node : Node} {bound : operator + 1 ≤ stop} (present : tokens[operator]? = some token)
    (takesType : token.isOperator .isWord = true)
    (answers : (typeAt tokens false (operator + 1) stop).Answers usage enough
      ⟨node, stop, bound⟩) :
    (rightOperand tokens operator stop).Answers usage enough node := by
  rw [rightOperand]
  apply (answers_tokenAt present).bind
  rw [if_pos takesType]
  apply answers.bind
  dsimp only
  rw [if_pos rfl]
  exact answers_pure node

/-- Where all operators noted are tighter than an order, none has it. -/
theorem filter_eq_nil_of_tight {found : List (Nat × Nat)} {tighter order : Nat}
    (order_le : ∀ entry ∈ found, entry.2 ≤ tighter) (binds : tighter < order) :
    found.filter (·.2 == order) = [] := by
  rw [List.filter_eq_nil_iff]
  intro entry member
  have := order_le entry member
  simp only [beq_iff_eq]
  omega

/-- An operator of the order and tighter ones behind it add one operator to those of the order. -/
theorem filter_append_operator {found later : List (Nat × Nat)} {operators : List Nat}
    {last tighter order : Nat}
    (kept : found.filter (·.2 == order) = operators.map fun operator => (operator, order))
    (order_le : ∀ entry ∈ later, entry.2 ≤ tighter) (binds : tighter < order) :
    (found ++ (last, order) :: later).filter (·.2 == order) =
      (operators ++ [last]).map fun operator => (operator, order) := by
  rw [List.filter_append, kept, List.filter_cons_of_pos (by simp),
    filter_eq_nil_of_tight order_le binds, List.map_append, List.map_singleton]

/-- The range from `low` to `high` has the text, in which so many operators of an order stand between
operands and all others are tighter, and the node is read as the chain over these. -/
def ChainAnswer (tokens : Array Token) (low high depth chain order count : Nat) (text : List Token)
    (node : Node) : Prop :=
  ∃ found operators, Joined low text order found ∧
    found.filter (·.2 == order) = operators.map (fun operator => (operator, order)) ∧
    operators.length = count ∧ ∀ usage : Usage,
      (chainReading tokens low high operators).Answers usage (usage.Covers depth chain) node

/-- Without operators of the order there is one operand, which binds tighter. -/
theorem chainAnswer_first {low depth chain tighter order : Nat} {text : List Token} {node : Node}
    {found : List (Nat × Nat)} (joined : Joined low text tighter found) (binds : tighter < order)
    (answers : ∀ usage : Usage, (value tokens low high).Answers usage (usage.Covers depth chain)
      node) : ChainAnswer tokens low high depth chain order 0 text node := by
  refine ⟨found, [], joined.loosen (Nat.le_of_lt binds),
    filter_eq_nil_of_tight joined.order_le binds, rfl, fun usage => ?_⟩
  rw [chainReading_nil]
  exact answers usage

/-- One operator of the order more, with an operand behind it that binds tighter. -/
theorem ChainAnswer.extend {low last depth chain tighter order count : Nat} {operator : Token}
    {leftText rightText : List Token} {left right : Node} {found : List (Nat × Nat)}
    (before : ChainAnswer tokens low last depth chain order count leftText left)
    (low_le_last : low ≤ last) (size : last ≤ tokens.size)
    (equal : slice tokens low last = leftText) (present : tokens[last]? = some operator)
    (ordered : operator.order? = some order) (joined : Joined (last + 1) rightText tighter found)
    (binds : tighter < order)
    (operand : ∀ usage : Usage, (rightOperand tokens last high).Answers usage
      (usage.Covers depth chain) right) :
    ChainAnswer tokens low high depth chain order (count + 1) (leftText ++ operator :: rightText)
      ⟨.binary, operator, [left, right]⟩ := by
  obtain ⟨earlier, operators, joinedBefore, kept, counted, answers⟩ := before
  obtain rfl : low + leftText.length = last := by
    rw [← equal, length_slice size]
    omega
  refine ⟨_, operators ++ [low + leftText.length],
    joinedBefore.append ordered (joined.loosen (Nat.le_of_lt binds)), ?_, ?_, fun usage => ?_⟩
  · exact filter_append_operator kept joined.order_le binds
  · rw [List.length_append, counted, List.length_singleton]
  · exact chainReading_append_answers (answers usage) present (operand usage)

/-! ### What begins an operand -/

/-- A token that begins a primary is no operator. -/
theorem operandStart_eq {low : Nat} {token : Token} (low_lt_high : low < high)
    (present : tokens[low]? = some token) (stops : token.mayPrecedeOperand = false) :
    operandStart tokens low high (Nat.le_of_lt low_lt_high) =
      .ok ⟨low, Nat.le_refl low, Nat.le_of_lt low_lt_high⟩ := by
  rw [operandStart, dif_pos low_lt_high, Sound.tokenAt_eq_ok present, Sound.ok_bind,
    if_neg (by simp [stops])]
  rfl

theorem operandStart_succ {low start : Nat} {token : Token} (low_lt_start : low < start)
    (start_le_high : start ≤ high) (present : tokens[low]? = some token)
    (precedes : token.mayPrecedeOperand = true)
    (later : operandStart tokens (low + 1) high (Nat.le_trans low_lt_start start_le_high) =
      .ok ⟨start, low_lt_start, start_le_high⟩) :
    operandStart tokens low high
        (Nat.le_trans (Nat.le_of_lt low_lt_start) start_le_high) =
      .ok ⟨start, Nat.le_of_lt low_lt_start, start_le_high⟩ := by
  rw [operandStart, dif_pos (Nat.lt_of_lt_of_le low_lt_start start_le_high),
    Sound.tokenAt_eq_ok present, Sound.ok_bind, if_pos precedes, later, Sound.ok_bind]
  rfl

theorem Token.mayPrecedeOperand_eq_false {token : Token}
    (notOperator : token.tokenClass ≠ .operator) : token.mayPrecedeOperand = false := by
  cases precedes : token.mayPrecedeOperand with
  | false => rfl
  | true =>
      obtain ⟨operator, found, -⟩ := Token.exists_operator_of_mayPrecedeOperand precedes
      exact absurd (Token.tokenClass_of_operator? found) notOperator

theorem Token.mayPrecedeOperand_eq_false_of_opens? {token : Token} {bracket : Bracket}
    (opens : token.opens? = some bracket) : token.mayPrecedeOperand = false :=
  mayPrecedeOperand_eq_false (by simp [tokenClass_of_opens? opens])

/-- A primary begins with a token that is neither an operator nor an opening curly bracket. -/
theorem PrimaryText.begins {depth chain : Nat} {text : List Token} {node : Node}
    (primary : PrimaryText depth chain text node) :
    ∃ token rest, text = token :: rest ∧ token.mayPrecedeOperand = false ∧
      token.opens? ≠ some .curly := by
  cases primary with
  | leaf isLeaf =>
      refine ⟨_, [], rfl, Token.mayPrecedeOperand_eq_false ?_, ?_⟩
      · rcases Token.tokenClass_of_leafKind? isLeaf with classified | classified | classified <;>
          simp [classified]
      · simp [(Token.isPlain_of_leafKind? isLeaf).opens?]
  | grouped opens _ _ =>
      exact ⟨_, _, rfl, Token.mayPrecedeOperand_eq_false_of_opens? opens, by simp [opens]⟩

/-- No qualifier comes behind the qualifiers of a type. -/
theorem MarksText.head_ne_keyword {depth chain : Nat} {marks words : List Token}
    {nodes path : List Node} {name token : Token} (marked : MarksText depth chain marks nodes)
    (named : NameText words path name) (begins : (marks ++ words).head? = some token) :
    token.tokenClass ≠ .keyword := by
  cases marked with
  | done =>
      obtain ⟨base, rest, rfl, classified, -⟩ := named.begins
      cases begins
      rcases classified with classified | classified <;> simp [classified]
  | pointer points _ =>
      cases begins
      simp [Token.tokenClass_of_operator? (Token.operator?_of_isOperator points)]
  | unsized opens _ _ =>
      cases begins
      simp [Token.tokenClass_of_opens? opens]
  | sized opens _ _ _ =>
      cases begins
      simp [Token.tokenClass_of_opens? opens]

/-- The mark of a reference is read where it stands, if it may. -/
theorem backReference_eq {inParameter : Bool} {text : List Token} {nodes : List Node}
    (referred : ReferenceText inParameter text nodes) {index next : Nat}
    (index_le_next : index ≤ next) (next_le_high : next ≤ high) (size : high ≤ tokens.size)
    (equal : slice tokens index next = text)
    (stops : ¬ReferenceGoesOn inParameter nodes (slice tokens next high)) :
    backReference tokens inParameter index high = .ok ⟨nodes, next, index_le_next⟩ := by
  cases referred with
  | none =>
      obtain rfl := eq_of_slice_eq_nil equal index_le_next (by omega)
      unfold backReference
      split
      next marked =>
        simp only [Bool.and_eq_true, decide_eq_true_eq] at marked
        have present := Array.getElem?_eq_getElem (show index < tokens.size by omega)
        rw [slice_eq_cons present marked.2] at stops
        rw [Sound.tokenAt_eq_ok present, Sound.ok_bind,
          if_neg fun isMark => stops (.mark marked.1 isMark)]
        rfl
      next => rfl
  | mark parameter isMark =>
      obtain ⟨index_lt_next, present, ends⟩ := eq_cons_of_slice equal
      obtain rfl := eq_of_slice_eq_nil ends index_lt_next (by omega)
      unfold backReference
      rw [if_pos (by simp [parameter]; omega), Sound.tokenAt_eq_ok present, Sound.ok_bind,
        if_pos isMark]
      rfl

/-- A type is read if its pieces are, each where the one before it ends. -/
theorem typeAt_answers_of_pieces {inParameter : Bool}
    {low afterQualifiers baseIndex afterName afterArguments next depth inner chain : Nat}
    {first base name : Token} {qualifying marks path arguments reference : List Node}
    {low_le : low ≤ afterQualifiers} {afterQualifiers_le : afterQualifiers ≤ baseIndex}
    {baseIndex_lt : baseIndex < afterName} {afterName_le : afterName ≤ afterArguments}
    {afterArguments_le : afterArguments ≤ next} (low_le_next : low ≤ next)
    (size : high ≤ tokens.size) (level : inner < depth) (baseInside : baseIndex < high)
    (firstPresent : tokens[low]? = some first) (basePresent : tokens[baseIndex]? = some base)
    (qualified : qualifiers tokens inParameter low high =
      .ok ⟨qualifying, afterQualifiers, low_le⟩)
    (marked : ∀ usage : Usage, (typeMarks tokens afterQualifiers high).Answers usage
      (usage.Covers inner chain) ⟨marks, baseIndex, afterQualifiers_le⟩)
    (named : baseName tokens baseIndex high base = .ok ⟨path, name, afterName, baseIndex_lt⟩)
    (applied : ∀ usage : Usage, (typeArguments tokens base afterName high).Answers usage
      (usage.Covers inner chain) ⟨arguments, afterArguments, afterName_le⟩)
    (referred : backReference tokens inParameter afterArguments high =
      .ok ⟨reference, next, afterArguments_le⟩) :
    (typeAt tokens inParameter low high).Answers usage (usage.Covers depth chain)
      ⟨.tagged .type first
        (qualifying ++ marks ++ path ++ ⟨.typeName, name, arguments⟩ :: reference), next,
        low_le_next⟩ := by
  rw [typeAt, dif_pos (show low < high by omega)]
  simp only [firstPresent]
  refine answers_nested (by omega) level fun room => ?_
  refine (answers_lift qualified).bind ?_
  refine (marked _).bind ?_
  dsimp only
  rw [if_pos baseInside]
  simp only [basePresent]
  refine (answers_lift named).bind ?_
  refine (applied _).bind ?_
  exact (answers_lift referred).bind (answers_pure _)

/-! ### Parts -/

/-- The range from `low` to `high`, which lies behind `bottom`, is cut at its commas into parts from
which the nodes are read, or is empty and there are none. -/
def PartsAnswer (tokens : Array Token) (read : Nat → Nat → Reading Node)
    (bottom low high depth chain : Nat) (nodes : List Node) : Prop :=
  (nodes = [] ∧ low = high) ∨
    ∃ (bottom_le_low : bottom ≤ low) (low_lt_high : low < high) (items : List (Part bottom high)),
      partsFrom tokens Token.isComma bottom high low low bottom_le_low (Nat.le_refl low)
        (Nat.le_of_lt low_lt_high) = .ok items ∧
      ∀ usage : Usage, (items.mapM fun part => read part.start part.stop).Answers usage
        (usage.Covers depth chain) nodes

variable {read : Nat → Nat → Reading Node} {bottom low depth chain : Nat}

theorem partsAnswer_last {text : List Token} {node : Node} (bottom_le_low : bottom ≤ low)
    (low_lt_high : low < high) (size : high ≤ tokens.size) (equal : slice tokens low high = text)
    (nested : Nested false text)
    (answers : ∀ usage : Usage, (read low high).Answers usage (usage.Covers depth chain) node) :
    PartsAnswer tokens read bottom low high depth chain [node] := by
  have low_le_high := Nat.le_of_lt low_lt_high
  refine .inr ⟨bottom_le_low, low_lt_high, [⟨low, high, bottom_le_low, low_le_high, Nat.le_refl _⟩],
    ?_, fun usage => ?_⟩
  · rw [partsFrom_balanced nested.balanced rfl bottom_le_low (Nat.le_refl low) low_le_high equal
      (Nat.le_refl high) size, partsFrom_end]
  · rw [List.mapM_cons]
    exact (answers usage).bind ((answers_pure _).bind (answers_pure _))

theorem partsAnswer_more {text : List Token} {comma : Token} {stop : Nat} {node next : Node}
    {nodes : List Node} (bottom_le_low : bottom ≤ low) (low_le_stop : low ≤ stop)
    (stop_lt_high : stop < high) (size : high ≤ tokens.size)
    (equal : slice tokens low stop = text) (nested : Nested false text)
    (present : tokens[stop]? = some comma) (isComma : comma.isComma = true)
    (answers : ∀ usage : Usage, (read low stop).Answers usage (usage.Covers depth chain) node)
    (later : PartsAnswer tokens read bottom (stop + 1) high depth chain (next :: nodes)) :
    PartsAnswer tokens read bottom low high depth chain (node :: next :: nodes) := by
  obtain ⟨none, -⟩ | ⟨bottom_le, inside, items, cut, each⟩ := later
  · cases none
  · have notBracket : comma.opens? = none ∧ comma.closes? = none := by
      simp [Token.opens?, Token.closes?, Token.tokenClass_of_isComma isComma]
    refine .inr ⟨bottom_le_low, Nat.lt_of_le_of_lt low_le_stop stop_lt_high,
      ⟨low, stop, bottom_le_low, low_le_stop, Nat.le_of_lt stop_lt_high⟩ :: items, ?_,
      fun usage => ?_⟩
    · rw [partsFrom_balanced nested.balanced rfl bottom_le_low (Nat.le_refl low) low_le_stop equal
        (Nat.le_of_lt stop_lt_high) size,
        partsFrom_of_separator stop_lt_high present notBracket.1 notBracket.2 isComma, cut,
        Sound.ok_bind]
    · rw [List.mapM_cons]
      exact (answers usage).bind ((each usage).bind (answers_pure _))

/-- The parts of a range are what a range from its lower bound on is cut into. -/
theorem PartsAnswer.parts {nodes : List Node}
    (answers : PartsAnswer tokens read low low high depth chain nodes) :
    ∃ items, parts tokens Token.isComma low high = .ok items ∧
      ∀ usage : Usage, (items.mapM fun part => read part.start part.stop).Answers usage
        (usage.Covers depth chain) nodes := by
  obtain ⟨rfl, rfl⟩ | ⟨_, inside, items, cut, each⟩ := answers
  · exact ⟨[], by simp [TnslReader.parts], fun _ => answers_pure _⟩
  · exact ⟨items, by rw [TnslReader.parts, dif_pos inside, cut], each⟩

def typeThrough (tokens : Array Token) (start stop : Nat) : Reading Node := do
  let ⟨type, next, _⟩ ← typeAt tokens false start stop
  if next = stop then
    return type
  else
    throw (.violationAt tokens next .tokenInTypeList)

theorem typeThrough_answers {start stop : Nat} {enough : Prop} {node : Node}
    {start_le_stop : start ≤ stop}
    (answers : (typeAt tokens false start stop).Answers usage enough
      ⟨node, stop, start_le_stop⟩) :
    (typeThrough tokens start stop).Answers usage enough node := by
  apply answers.bind
  dsimp only
  rw [if_pos rfl]
  exact answers_pure node

theorem valueList_answers {opener low : Nat} {anchor : Token} {items : List (Part low high)}
    {enough : Prop} {nodes : List Node} (present : tokens[opener]? = some anchor)
    (cut : parts tokens Token.isComma low high = .ok items)
    (each : (items.mapM fun part => value tokens part.start part.stop).Answers usage enough nodes) :
    (valueList tokens opener low high).Answers usage enough (.tagged .valueList anchor nodes) := by
  rw [valueList]
  exact (answers_tokenAt present).bind ((answers_lift cut).bind (each.bind (answers_pure _)))

theorem typeList_answers {opener low : Nat} {anchor : Token} {items : List (Part low high)}
    {enough : Prop} {nodes : List Node} (present : tokens[opener]? = some anchor)
    (cut : parts tokens Token.isComma low high = .ok items)
    (each : (items.mapM fun part => typeThrough tokens part.start part.stop).Answers usage enough
      nodes) :
    (typeList tokens opener low high).Answers usage enough (.tagged .typeList anchor nodes) := by
  rw [typeList]
  exact (answers_tokenAt present).bind ((answers_lift cut).bind (each.bind (answers_pure _)))

/-! ### The readings of values and types -/

mutual

/-- Every value that spans a range is read from it. -/
theorem value_answers {tokens : Array Token} {low high : Nat} {usage : Usage}
    {depth chain order : Nat} {text : List Token} {node : Node}
    (equal : slice tokens low high = text) (size : high ≤ tokens.size) :
    ValueText depth chain order text node →
      (value tokens low high).Answers usage (usage.Covers depth chain) node
  | .unary level operand => by
      have low_lt_high := lt_of_slice equal operand.length_pos
      have none := splitPoints_eq_nil size (equal ▸ operand.scan_eq low false (by simp))
      obtain ⟨start, low_le_start, start_le_high, started, notCurly, answers⟩ :=
        preceded_answers equal (Nat.le_of_lt low_lt_high) size operand
      rw [value, dif_pos low_lt_high]
      refine answers_nested (by omega) level fun room => ?_
      refine (answers_lift none).bind ?_
      dsimp only
      rw [unary]
      refine (answers_lift started).bind ?_
      dsimp only
      rw [if_neg (by simp [notCurly])]
      exact answers _
  | .composite level opens values closes => by
      have low_lt_high := lt_of_slice equal (by simp)
      have none := splitPoints_eq_nil size (equal ▸ scan_pair opens values.nested closes)
      obtain ⟨close, low_lt_close, close_lt_high, present, inside, closerPresent, outside⟩ :=
        eq_pair_of_slice equal size
      have ends := eq_of_slice_eq_nil outside close_lt_high size
      have started := operandStart_eq low_lt_high present
        (Token.mayPrecedeOperand_eq_false_of_opens? opens)
      obtain ⟨items, cut, each⟩ :=
        (values_answers (Nat.le_refl _) inside low_lt_close (by omega) values).parts
      rw [value, dif_pos low_lt_high]
      refine answers_nested (by omega) level fun room => ?_
      refine (answers_lift none).bind ?_
      dsimp only
      rw [unary]
      refine (answers_lift started).bind ?_
      dsimp only
      rw [if_pos (by simp [low_lt_high, present, opens]), composite, if_pos rfl]
      refine (answers_lift (closing_balanced values.nested.balanced present opens inside
        low_lt_close closerPresent closes close_lt_high)).bind ?_
      dsimp only
      rw [if_pos ends]
      refine (answers_tokenAt present).bind ?_
      refine (answers_lift cut).bind ?_
      exact (each _).bind (answers_pure _)
  | .chain level linked joined operands => by
      have low_lt_high := lt_of_slice equal (Nat.zero_lt_of_lt operands.count_lt_length)
      obtain ⟨found, operators, joins, kept, rfl, answers⟩ :=
        chain_answers equal (Nat.le_of_lt low_lt_high) size operands
      obtain ⟨points, split, rfl⟩ := splitPoints_of_scan size (equal ▸ joins.scanned)
        joins.order_le kept fun _ => List.ne_nil_of_length_pos joined
      cases points with
      | nil => simp at joined
      | cons first later =>
          have first_lt_high := first.index_lt_high
          rw [value_eq_of_splitPoints low_lt_high split]
          refine answers_nested (by omega) level fun room => ?_
          rw [List.length_map, List.length_cons] at linked
          exact answers_chained (by omega) linked fun linkRoom => answers _

/-- A chain is read as the value before its first operator and the fold over its operators. -/
theorem chain_answers {tokens : Array Token} {low high : Nat}
    {depth chain order count : Nat} {text : List Token} {node : Node}
    (equal : slice tokens low high = text) (bound : low ≤ high) (size : high ≤ tokens.size) :
    ChainText depth chain order count text node →
      ChainAnswer tokens low high depth chain order count text node
  | .first operand binds => by
      obtain ⟨found, joined, -⟩ := operand.joined low
      exact chainAnswer_first joined binds fun _ => value_answers equal size operand
  | .value before ordered takesValue operand binds => by
      obtain ⟨last, low_le_last, last_le_high, leftEqual, rightEqual⟩ :=
        eq_append_of_slice equal bound size
      obtain ⟨last_lt_high, present, rightEqual⟩ := eq_cons_of_slice rightEqual
      obtain ⟨found, joined, -⟩ := operand.joined (last + 1)
      exact (chain_answers leftEqual low_le_last (by omega) before).extend low_le_last (by omega)
        leftEqual present ordered joined binds fun _ =>
          rightOperand_value_answers present takesValue (value_answers rightEqual size operand)
  | .type before ordered takesType operand => by
      obtain ⟨last, low_le_last, last_le_high, leftEqual, rightEqual⟩ :=
        eq_append_of_slice equal bound size
      obtain ⟨last_lt_high, present, rightEqual⟩ := eq_cons_of_slice rightEqual
      obtain ⟨found, joined⟩ := operand.joined (last + 1)
      have binds : 1 < order := by
        simp only [Token.order?, Token.operator?_of_isOperator takesType, Option.bind_some,
          Operator.order?, Option.some.injEq] at ordered
        omega
      exact (chain_answers leftEqual low_le_last (by omega) before).extend low_le_last (by omega)
        leftEqual present ordered joined binds fun _ =>
          rightOperand_type_answers present takesType
            (typeAt_answers rightEqual last_lt_high (Nat.le_refl high) size Node.not_goesOn_end
              nofun operand)

/-- The operators before a primary are passed over in search of it, and applied to it in turn. -/
theorem preceded_answers {tokens : Array Token} {low high : Nat} {depth chain : Nat}
    {text : List Token} {node : Node} (equal : slice tokens low high = text) (bound : low ≤ high)
    (size : high ≤ tokens.size) :
    UnaryText depth chain text node →
      ∃ (start : Nat) (low_le_start : low ≤ start) (start_le_high : start ≤ high),
        operandStart tokens low high bound = .ok ⟨start, low_le_start, start_le_high⟩ ∧
        (start < high && (tokens[start]?.bind Token.opens?) == some .curly) = false ∧
        ∀ usage : Usage, (preceded tokens low start high low_le_start start_le_high).Answers usage
          (usage.Covers depth chain) node
  | .preceded level precedes apart operand => by
      obtain ⟨low_lt_high, present, equal⟩ := eq_cons_of_slice equal
      obtain ⟨start, low_lt_start, start_le_high, started, notCurly, answers⟩ :=
        preceded_answers equal low_lt_high size operand
      refine ⟨start, Nat.le_of_lt low_lt_start, start_le_high,
        operandStart_succ low_lt_start start_le_high present precedes started, notCurly,
        fun usage => ?_⟩
      rw [preceded, dif_pos (show low < start from low_lt_start)]
      refine answers_nested (by omega) level fun room => ?_
      exact (answers _).bind ((answers_tokenAt present).bind (answers_pure _))
  | .followed primary after => by
      obtain ⟨mid, low_le_mid, mid_le_high, primaryEqual, afterEqual⟩ :=
        eq_append_of_slice equal bound size
      obtain ⟨token, rest, begins, stops, notCurly⟩ := primary.begins
      obtain ⟨low_lt_mid, present, -⟩ := eq_cons_of_slice (primaryEqual.trans begins)
      have low_lt_high : low < high := by omega
      refine ⟨low, Nat.le_refl low, bound, operandStart_eq low_lt_high present stops, ?_,
        fun usage => ?_⟩
      · simp [present, notCurly]
      · rw [preceded, dif_neg (Nat.lt_irrefl low)]
        refine (primary_answers primaryEqual low_le_mid mid_le_high size primary).bind ?_
        exact followed_answers afterEqual mid_le_high size after

theorem primary_answers {tokens : Array Token} {index next high : Nat} {usage : Usage}
    {depth chain : Nat} {text : List Token} {node : Node}
    (equal : slice tokens index next = text) (index_le_next : index ≤ next)
    (next_le_high : next ≤ high) (size : high ≤ tokens.size) :
    PrimaryText depth chain text node →
      (primary tokens index high).Answers usage (usage.Covers depth chain)
        ⟨node, next, index_le_next⟩
  | .leaf isLeaf => by
      obtain ⟨index_lt_next, present, ends⟩ := eq_cons_of_slice equal
      obtain rfl := eq_of_slice_eq_nil ends index_lt_next (by omega)
      rw [primary, dif_pos (by omega)]
      simp only [present]
      unfold Token.leafKind? at isLeaf
      split at isLeaf <;> cases isLeaf <;> simp only [*] <;> exact answers_pure _
  | .grouped opens value closes => by
      obtain ⟨close, index_lt_close, close_lt_next, present, inside, closerPresent, outside⟩ :=
        eq_pair_of_slice equal (by omega)
      obtain rfl := eq_of_slice_eq_nil outside close_lt_next (by omega)
      rw [primary, dif_pos (by omega)]
      simp only [present, Token.tokenClass_of_opens? opens, opens]
      refine (answers_lift (closing_balanced value.nested.balanced present opens inside
        index_lt_close closerPresent closes (by omega))).bind ?_
      exact (value_answers inside (by omega) value).bind (answers_pure _)

theorem followed_answers {tokens : Array Token} {index high : Nat} {usage : Usage}
    {depth chain : Nat} {text : List Token} {base node : Node}
    (equal : slice tokens index high = text) (bound : index ≤ high) (size : high ≤ tokens.size) :
    FollowedText depth chain base text node →
      (followed tokens base index high).Answers usage (usage.Covers depth chain) node
  | .done => by
      rw [followed, dif_neg (by have := eq_of_slice_eq_nil equal bound size; omega)]
      exact answers_pure _
  | .operator level follows after => by
      obtain ⟨index_lt_high, present, equal⟩ := eq_cons_of_slice equal
      have plain := Token.isPlain_of_mayFollowOperand follows
      rw [followed, dif_pos index_lt_high]
      refine (answers_tokenAt present).bind ?_
      rw [if_neg (by simp [Token.isCloser, plain.closes?])]
      refine answers_nested (by omega) level fun room => ?_
      simp only [plain.opens?, follows, ↓reduceIte]
      exact followed_answers equal index_lt_high size after
  | .call level opens values closes after => by
      obtain ⟨close, index_lt_close, close_lt_high, present, inside, closerPresent, outside⟩ :=
        eq_pair_of_slice equal size
      rw [followed, dif_pos (by omega)]
      refine (answers_tokenAt present).bind ?_
      rw [if_neg (by simp [Token.isCloser, Token.closes?_eq_none_of_opens? opens])]
      refine answers_nested (by omega) level fun room => ?_
      simp only [opens]
      refine (answers_lift (closing_balanced values.nested.balanced present opens inside
        index_lt_close closerPresent closes close_lt_high)).bind ?_
      obtain ⟨items, cut, each⟩ :=
        (values_answers (Nat.le_refl _) inside index_lt_close (by omega) values).parts
      refine (valueList_answers present cut (each _)).bind ?_
      exact followed_answers outside close_lt_high size after
  | .index level opens value closes after => by
      obtain ⟨close, index_lt_close, close_lt_high, present, inside, closerPresent, outside⟩ :=
        eq_pair_of_slice equal size
      rw [followed, dif_pos (by omega)]
      refine (answers_tokenAt present).bind ?_
      rw [if_neg (by simp [Token.isCloser, Token.closes?_eq_none_of_opens? opens])]
      refine answers_nested (by omega) level fun room => ?_
      simp only [opens]
      refine (answers_lift (closing_balanced value.nested.balanced present opens inside
        index_lt_close closerPresent closes close_lt_high)).bind ?_
      refine (value_answers inside (by omega) value).bind ?_
      exact followed_answers outside close_lt_high size after
  | .cast level opens types closes after => by
      obtain ⟨close, index_lt_close, close_lt_high, present, inside, closerPresent, outside⟩ :=
        eq_pair_of_slice equal size
      rw [followed, dif_pos (by omega)]
      refine (answers_tokenAt present).bind ?_
      rw [if_neg (by simp [Token.isCloser, Token.closes?_eq_none_of_opens? opens])]
      refine answers_nested (by omega) level fun room => ?_
      simp only [opens]
      refine (answers_lift (closing_balanced types.nested.balanced present opens inside
        index_lt_close closerPresent closes close_lt_high)).bind ?_
      obtain ⟨items, cut, each⟩ :=
        (types_answers (Nat.le_refl _) inside index_lt_close (by omega) types).parts
      refine (typeList_answers present cut (each _)).bind ?_
      exact followed_answers outside close_lt_high size after

/-- Values with commas between them are read part by part. -/
theorem values_answers {tokens : Array Token} {bottom low high : Nat} {depth chain : Nat}
    {text : List Token} {nodes : List Node} (bottom_le_low : bottom ≤ low)
    (equal : slice tokens low high = text) (bound : low ≤ high) (size : high ≤ tokens.size) :
    ValuesText depth chain text nodes →
      PartsAnswer tokens (value tokens) bottom low high depth chain nodes
  | .none => .inl ⟨rfl, eq_of_slice_eq_nil equal bound size⟩
  | .last value =>
      partsAnswer_last bottom_le_low (lt_of_slice equal value.length_pos) size equal value.nested
        fun _ => value_answers equal size value
  | .more value isComma later => by
      obtain ⟨stop, low_le_stop, stop_le_high, valueEqual, equal⟩ :=
        eq_append_of_slice equal bound size
      obtain ⟨stop_lt_high, present, equal⟩ := eq_cons_of_slice equal
      exact partsAnswer_more bottom_le_low low_le_stop stop_lt_high size valueEqual value.nested
        present isComma (fun _ => value_answers valueEqual (by omega) value)
        (values_answers (by omega) equal stop_lt_high size later)

/-- A type is read from the beginning of a range, if it does not go on where it ends. -/
theorem typeAt_answers {tokens : Array Token} {inParameter : Bool} {low next high : Nat}
    {usage : Usage} {depth chain : Nat} {text : List Token} {node : Node}
    (equal : slice tokens low next = text) (bound : low ≤ next) (next_le_high : next ≤ high)
    (size : high ≤ tokens.size) (stops : ¬node.GoesOn inParameter (slice tokens next high))
    (apart : inParameter = true → ¬MeetsStatic text) :
    TypeText inParameter depth chain text node →
      (typeAt tokens inParameter low high).Answers usage (usage.Covers depth chain)
        ⟨node, next, bound⟩
  | @TypeText.type _ _ _ _ first name qualifiers marks words arguments reference _ _ _ _ level
      qualified marked named applied referred begins => by
      obtain ⟨afterArguments, low_le_afterArguments, afterArguments_le, argumentsEqual,
        referenceEqual⟩ := eq_append_of_slice equal bound (by omega)
      obtain ⟨afterName, low_le_afterName, afterName_le, nameEqual, argumentsEqual⟩ :=
        eq_append_of_slice argumentsEqual low_le_afterArguments (by omega)
      obtain ⟨baseIndex, low_le_baseIndex, baseIndex_le, prefixEqual, wordsEqual⟩ :=
        eq_append_of_slice nameEqual low_le_afterName (by omega)
      obtain ⟨afterQualifiers, low_le_afterQualifiers, afterQualifiers_le, qualifiersEqual,
        marksEqual⟩ := eq_append_of_slice prefixEqual low_le_baseIndex (by omega)
      obtain ⟨others, begins⟩ := List.head?_eq_some_iff.mp begins
      obtain ⟨-, firstPresent, -⟩ := eq_cons_of_slice (nameEqual.trans begins)
      obtain ⟨base, rest, wordsBegin, classified, isBase⟩ := named.begins
      obtain ⟨baseIndex_lt, basePresent, -⟩ := eq_cons_of_slice (wordsEqual.trans wordsBegin)
      have notOperator : base.tokenClass ≠ .operator := by
        rcases classified with classified | classified <;> simp [classified]
      have opensNothing : base.opens? = none := by
        rcases classified with classified | classified <;> simp [Token.opens?, classified]
      have afterQualifiersEqual : slice tokens afterQualifiers afterName = marks ++ words := by
        rw [← slice_append tokens afterQualifiers_le baseIndex_le, marksEqual, wordsEqual]
      have behindReference :
          slice tokens afterArguments high = reference ++ slice tokens next high := by
        rw [← referenceEqual, slice_append tokens afterArguments_le next_le_high]
      have behindArguments : slice tokens afterName high =
          arguments ++ (reference ++ slice tokens next high) := by
        rw [← behindReference, ← argumentsEqual, slice_append tokens afterName_le (by omega)]
      rw [Node.goesOn_iff applied referred, ← behindArguments, ← behindReference, not_or,
        not_or] at stops
      obtain ⟨nameStops, argumentsStop, referenceStops⟩ := stops
      rw [← qualifiersEqual]
      refine typeAt_answers_of_pieces bound size level (by omega) firstPresent basePresent
        (qualifiers_eq low_le_afterQualifiers (by omega) size
          (fun token member => qualified token (qualifiersEqual ▸ member))
          fun token present => ⟨marked.head_ne_keyword named ?_, fun parameter isStatic => ?_⟩)
        (fun usage => marks_answers marksEqual afterQualifiers_le (by omega) size
          (fun token present => ?_) marked)
        (baseName_eq named baseIndex_lt (by omega) size wordsEqual basePresent nameStops)
        (fun usage => arguments_answers argumentsEqual afterName_le (by omega) size isBase
          argumentsStop applied)
        (backReference_eq referred afterArguments_le next_le_high size referenceEqual
          referenceStops)
      · rw [← afterQualifiersEqual, slice_eq_cons present (by omega)]
        rfl
      · subst parameter
        rw [slice_eq_cons present (by omega)] at afterQualifiersEqual
        refine apart rfl ?_
        rw [List.append_assoc qualifiers, ← afterQualifiersEqual, List.append_assoc,
          List.append_assoc]
        exact .append qualified (.here isStatic)
      · cases basePresent.symm.trans present
        exact ⟨Token.isOperator_eq_false notOperator, by simp [opensNothing]⟩

theorem marks_answers {tokens : Array Token} {index next high : Nat} {usage : Usage}
    {depth chain : Nat} {text : List Token} {nodes : List Node}
    (equal : slice tokens index next = text) (bound : index ≤ next) (next_lt_high : next < high)
    (size : high ≤ tokens.size)
    (stops : ∀ token, tokens[next]? = some token →
      token.isOperator .tilde = false ∧ token.opens? ≠ some .curly) :
    MarksText depth chain text nodes →
      (typeMarks tokens index high).Answers usage (usage.Covers depth chain) ⟨nodes, next, bound⟩
  | .done => by
      obtain rfl := eq_of_slice_eq_nil equal bound (by omega)
      have present := Array.getElem?_eq_getElem (show index < tokens.size by omega)
      obtain ⟨notTilde, notCurly⟩ := stops _ present
      rw [typeMarks, dif_pos next_lt_high]
      apply (answers_tokenAt present).bind
      rw [if_neg (by simp [notTilde]), if_neg (by simp [notCurly])]
      exact answers_pure _
  | .pointer points later => by
      obtain ⟨index_lt_next, present, equal⟩ := eq_cons_of_slice equal
      rw [typeMarks, dif_pos (by omega)]
      apply (answers_tokenAt present).bind
      rw [if_pos points]
      exact (marks_answers equal index_lt_next next_lt_high size stops later).bind (answers_pure _)
  | .unsized opens closes later => by
      obtain ⟨close, index_lt_close, close_lt_next, present, inside, closerPresent, outside⟩ :=
        eq_pair_of_slice (show slice tokens index next = _ :: ([] ++ _ :: _) from equal) (by omega)
      have empty := eq_of_slice_eq_nil inside index_lt_close (by omega)
      have nothing : Balanced false ([] : List Token) := .nil
      rw [typeMarks, dif_pos (by omega)]
      apply (answers_tokenAt present).bind
      rw [if_neg (by simp [Token.isOperator_eq_false, Token.tokenClass_of_opens? opens]),
        if_pos (by simp [opens])]
      refine (answers_lift (closing_balanced nothing present opens inside index_lt_close
        closerPresent closes (by omega))).bind ?_
      dsimp only
      rw [if_neg (by omega)]
      apply (answers_pure []).bind
      exact (marks_answers outside close_lt_next next_lt_high size stops later).bind
        (answers_pure _)
  | .sized opens value closes later => by
      obtain ⟨close, index_lt_close, close_lt_next, present, inside, closerPresent, outside⟩ :=
        eq_pair_of_slice equal (by omega)
      have filled := lt_of_slice inside value.length_pos
      rw [typeMarks, dif_pos (by omega)]
      apply (answers_tokenAt present).bind
      rw [if_neg (by simp [Token.isOperator_eq_false, Token.tokenClass_of_opens? opens]),
        if_pos (by simp [opens])]
      refine (answers_lift (closing_balanced value.nested.balanced present opens inside
        index_lt_close closerPresent closes (by omega))).bind ?_
      dsimp only
      rw [if_pos filled]
      apply (value_answers inside (by omega) value).bind
      apply (answers_pure _).bind
      exact (marks_answers outside close_lt_next next_lt_high size stops later).bind
        (answers_pure _)

/-- The arguments of a name are read up to where they end, if they do not go on from there. -/
theorem arguments_answers {tokens : Array Token} {index next high : Nat} {usage : Usage}
    {depth chain : Nat} {base name : Token} {text : List Token} {nodes : List Node}
    (equal : slice tokens index next = text) (bound : index ≤ next) (next_le_high : next ≤ high)
    (size : high ≤ tokens.size) (isBase : base.isVoid = name.isVoid)
    (stops : ¬ArgumentsGoOn name nodes (slice tokens next high)) :
    ArgumentsText depth chain name text nodes →
      (typeArguments tokens base index high).Answers usage (usage.Covers depth chain)
        ⟨nodes, next, bound⟩
  | .none => by
      obtain rfl := eq_of_slice_eq_nil equal bound (by omega)
      rw [typeArguments]
      split
      next inside =>
        have present := Array.getElem?_eq_getElem (show index < tokens.size by omega)
        rw [slice_eq_cons present inside] at stops
        refine (answers_tokenAt present).bind ?_
        rw [if_neg fun opens => stops (.arguments (by simpa using opens))]
        exact answers_pure _
      next => exact answers_pure _
  | .arguments opens types closes => by
      obtain ⟨close, index_lt_close, close_lt_next, present, inside, closerPresent, outside⟩ :=
        eq_pair_of_slice equal (by omega)
      obtain rfl := eq_of_slice_eq_nil outside close_lt_next (by omega)
      obtain ⟨items, cut, each⟩ :=
        (types_answers (Nat.le_refl _) inside index_lt_close (by omega) types).parts
      rw [typeArguments, dif_pos (by omega)]
      refine (answers_tokenAt present).bind ?_
      rw [if_pos (by simp [opens])]
      refine (answers_lift (closing_balanced types.nested.balanced present opens inside
        index_lt_close closerPresent closes next_le_high)).bind ?_
      refine (typeList_answers present cut (each _)).bind ?_
      split
      next another =>
        have secondPresent := Array.getElem?_eq_getElem (show close + 1 < tokens.size by omega)
        rw [slice_eq_cons secondPresent another] at stops
        refine (answers_tokenAt secondPresent).bind ?_
        rw [if_neg fun results => stops ?_]
        · exact answers_pure _
        · rw [Bool.and_eq_true, beq_iff_eq] at results
          exact .results (isBase.symm.trans results.1) results.2
      next => exact answers_pure _
  | .results isVoid opens types closes opensResults resultTypes closesResults => by
      obtain ⟨close, index_lt_close, close_lt_next, present, inside, closerPresent, outside⟩ :=
        eq_pair_of_slice equal (by omega)
      obtain ⟨secondClose, close_lt_second, second_lt_next, secondPresent, secondInside,
        secondCloserPresent, secondOutside⟩ := eq_pair_of_slice outside (by omega)
      obtain rfl := eq_of_slice_eq_nil secondOutside second_lt_next (by omega)
      obtain ⟨items, cut, each⟩ :=
        (types_answers (Nat.le_refl _) inside index_lt_close (by omega) types).parts
      obtain ⟨resultItems, resultCut, eachResult⟩ :=
        (types_answers (Nat.le_refl _) secondInside close_lt_second (by omega) resultTypes).parts
      have voidBase : base.tokenClass == .builtinType && base.keyword? == some .voidWord :=
        isBase.trans isVoid
      rw [typeArguments, dif_pos (by omega)]
      refine (answers_tokenAt present).bind ?_
      rw [if_pos (by simp [opens])]
      refine (answers_lift (closing_balanced types.nested.balanced present opens inside
        index_lt_close closerPresent closes (by omega))).bind ?_
      refine (typeList_answers present cut (each _)).bind ?_
      rw [dif_pos (by omega)]
      refine (answers_tokenAt secondPresent).bind ?_
      rw [if_pos (by rw [voidBase]; simp [opensResults])]
      refine (answers_lift (closing_balanced resultTypes.nested.balanced secondPresent opensResults
        secondInside close_lt_second secondCloserPresent closesResults next_le_high)).bind ?_
      refine (typeList_answers secondPresent resultCut (eachResult _)).bind ?_
      exact answers_pure _

/-- Types with commas between them are read part by part. -/
theorem types_answers {tokens : Array Token} {bottom low high : Nat} {depth chain : Nat}
    {text : List Token} {nodes : List Node} (bottom_le_low : bottom ≤ low)
    (equal : slice tokens low high = text) (bound : low ≤ high) (size : high ≤ tokens.size) :
    TypesText depth chain text nodes →
      PartsAnswer tokens (typeThrough tokens) bottom low high depth chain nodes
  | .none => .inl ⟨rfl, eq_of_slice_eq_nil equal bound size⟩
  | .last type =>
      partsAnswer_last bottom_le_low (lt_of_slice equal type.length_pos) size equal type.nested
        fun _ => typeThrough_answers
          (typeAt_answers equal bound (Nat.le_refl high) size Node.not_goesOn_end nofun type)
  | .more type isComma later => by
      obtain ⟨stop, low_le_stop, stop_le_high, typeEqual, equal⟩ :=
        eq_append_of_slice equal bound size
      obtain ⟨stop_lt_high, present, equal⟩ := eq_cons_of_slice equal
      exact partsAnswer_more bottom_le_low low_le_stop stop_lt_high size typeEqual type.nested
        present isComma
        (fun _ => typeThrough_answers (typeAt_answers typeEqual low_le_stop (Nat.le_refl stop)
          (by omega) Node.not_goesOn_end nofun type))
        (types_answers (by omega) equal stop_lt_high size later)

end

end TnslReader
