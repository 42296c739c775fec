import TnslReader.Grammar.Split
import TnslReader.Proofs.Nesting

/-!
Contract: the operators between operands, as a scan over a list of tokens.

`scan` goes over a text with two things in mind, how many bracket pairs are open and whether the
token before can end an operand, and notes where each operator between operands stands and what its
order is. Its law for concatenations, `scan_append`, and its converse, `scan_split`, are what the
grammar of chains is compared with: a text splits at each operator that the scan notes, and what
stands on either side is scanned as if it stood alone.

Owns: `scan`, its laws, and the agreement of `splitPoints` with it.
-/

set_option autoImplicit false

namespace TnslReader

/-- What one token adds to the operators noted, and how many pairs are open behind it. There is no
answer for a closer without an opener. -/
def scanStep (index depth : Nat) (behindOperand : Bool) (token : Token) :
    Option (List (Nat × Nat) × Nat) :=
  if token.isOpener then some ([], depth + 1)
  else if token.isCloser then
    if depth = 0 then none else some ([], depth - 1)
  else if depth = 0 ∧ behindOperand = true then
    some ((token.order?.map fun order => (index, order)).toList, depth)
  else some ([], depth)

/-- The operators between operands in a text whose first token has the given index, each with its
index and order, and the state behind the text. -/
def scan (index depth : Nat) (behindOperand : Bool) :
    List Token → Option (List (Nat × Nat) × Nat × Bool)
  | [] => some ([], depth, behindOperand)
  | token :: rest =>
      (scanStep index depth behindOperand token).bind fun step =>
        (scan (index + 1) step.2 token.endsOperand rest).map fun found =>
          (step.1 ++ found.1, found.2)

variable {index depth : Nat} {behindOperand : Bool}

/-! ### Laws of the scan -/

theorem scan_append (first second : List Token) :
    scan index depth behindOperand (first ++ second) =
      (scan index depth behindOperand first).bind fun found =>
        (scan (index + first.length) found.2.1 found.2.2 second).map fun later =>
          (found.1 ++ later.1, later.2) := by
  induction first generalizing index depth behindOperand with
  | nil => simp [scan]
  | cons token rest inductionHypothesis =>
      have shift : index + (token :: rest).length = index + 1 + rest.length := by
        simp only [List.length_cons]
        omega
      simp only [List.cons_append, scan, shift]
      cases scanStep index depth behindOperand token with
      | none => rfl
      | some step =>
          simp only [Option.bind_some, inductionHypothesis]
          cases scan (index + 1) step.2 token.endsOperand rest with
          | none => rfl
          | some found => simp [Function.comp_def]

theorem scan_append_of_eq {first second : List Token} {found : List (Nat × Nat)} {next : Nat}
    {behind : Bool}
    (scanned : scan index depth behindOperand first = some (found, next, behind)) :
    scan index depth behindOperand (first ++ second) =
      (scan (index + first.length) next behind second).map fun later =>
        (found ++ later.1, later.2) := by
  rw [scan_append, scanned, Option.bind_some]

/-- A token is noted only as an operator that stands between operands. -/
theorem eq_of_scanStep {token : Token} {noted : List (Nat × Nat)} {next : Nat}
    (stepped : scanStep index depth behindOperand token = some (noted, next)) :
    noted = [] ∨ ∃ order, noted = [(index, order)] ∧ token.order? = some order ∧ depth = 0 ∧
      behindOperand = true ∧ next = 0 := by
  unfold scanStep at stepped
  split_ifs at stepped with opener closer outside between
  · cases stepped
    exact .inl rfl
  · cases stepped
    exact .inl rfl
  · cases ordered : token.order? with
    | none =>
        simp only [ordered, Option.map_none, Option.toList_none, Option.some.injEq] at stepped
        cases stepped
        exact .inl rfl
    | some order =>
        simp only [ordered, Option.map_some, Option.toList_some, Option.some.injEq] at stepped
        cases stepped
        exact .inr ⟨order, rfl, rfl, between.1, between.2, between.1⟩
  · cases stepped
    exact .inl rfl

theorem endsOperand_eq_false_of_order? {token : Token} {order : Nat}
    (ordered : token.order? = some order) : token.endsOperand = false := by
  obtain ⟨operator, found, -⟩ := Token.exists_operator_of_order? ordered
  simp [Token.endsOperand, Token.tokenClass_of_operator? found,
    Token.mayFollowOperand_eq_false_of_order? ordered]

/-- Where the scan notes an operator, the text splits, and the scan stands outside all brackets
before and behind it. -/
theorem scan_split {text : List Token} {before after : List (Nat × Nat)} {position order : Nat}
    {state : Nat × Bool}
    (scanned : scan index depth behindOperand text =
      some (before ++ (position, order) :: after, state)) :
    ∃ left operator right, text = left ++ operator :: right ∧ position = index + left.length ∧
      operator.order? = some order ∧
      scan index depth behindOperand left = some (before, 0, true) ∧
      scan (position + 1) 0 false right = some (after, state) := by
  induction text generalizing index depth behindOperand before with
  | nil => simp [scan] at scanned
  | cons token rest inductionHypothesis =>
      rw [scan] at scanned
      obtain ⟨⟨noted, next⟩, stepped, scanned⟩ := Option.bind_eq_some_iff.mp scanned
      obtain ⟨⟨found, last⟩, later, equal⟩ := Option.map_eq_some_iff.mp scanned
      simp only [Prod.mk.injEq] at equal
      obtain ⟨equal, rfl⟩ := equal
      rcases eq_of_scanStep stepped with rfl | ⟨noted, rfl, ordered, rfl, rfl, rfl⟩
      · rw [List.nil_append] at equal
        subst equal
        obtain ⟨left, operator, right, rfl, rfl, ordered, leftScanned, rightScanned⟩ :=
          inductionHypothesis later
        refine ⟨token :: left, operator, right, rfl, ?_, ordered, ?_, rightScanned⟩
        · simp only [List.length_cons]
          omega
        · simp [scan, stepped, leftScanned]
      · cases before with
        | nil =>
            simp only [List.cons_append, List.nil_append, List.cons.injEq, Prod.mk.injEq] at equal
            obtain ⟨⟨rfl, rfl⟩, rfl⟩ := equal
            rw [endsOperand_eq_false_of_order? ordered] at later
            exact ⟨[], token, rest, rfl, by simp, ordered, rfl, later⟩
        | cons head before =>
            simp only [List.cons_append, List.nil_append, List.cons.injEq] at equal
            obtain ⟨rfl, rfl⟩ := equal
            obtain ⟨left, operator, right, rfl, rfl, beforeOrdered, leftScanned, rightScanned⟩ :=
              inductionHypothesis later
            refine ⟨token :: left, operator, right, rfl, ?_, beforeOrdered, ?_, rightScanned⟩
            · simp only [List.length_cons]
              omega
            · simp [scan, stepped, leftScanned]

/-! ### Steps over single tokens and brackets -/

theorem scanStep_of_plain {token : Token} (plain : token.IsPlain)
    (apart : depth = 0 → behindOperand = true → token.order? = none) :
    scanStep index depth behindOperand token = some ([], depth) := by
  unfold scanStep
  simp only [Token.isOpener, plain.opens?, Option.isSome_none, Bool.false_eq_true, ↓reduceIte,
    Token.isCloser, plain.closes?]
  split
  next between => simp [apart between.1 between.2]
  next => rfl

/-- A plain token that is not taken for an operator between operands is passed over. -/
theorem scan_cons_of_plain {token : Token} {rest : List Token} (plain : token.IsPlain)
    (apart : behindOperand = true → token.order? = none) :
    scan index depth behindOperand (token :: rest) =
      scan (index + 1) depth token.endsOperand rest := by
  rw [scan, scanStep_of_plain plain fun _ => apart]
  simp

/-- An operator with an order, right behind an operand, is noted. -/
theorem scan_cons_of_order? {operator : Token} {order : Nat} {rest : List Token}
    (ordered : operator.order? = some order) :
    scan index 0 true (operator :: rest) =
      (scan (index + 1) 0 false rest).map fun found => ((index, order) :: found.1, found.2) := by
  obtain ⟨is, found, -⟩ := Token.exists_operator_of_order? ordered
  have plain := Token.isPlain_of_operator? found
  have stepped : scanStep index 0 true operator = some ([(index, order)], 0) := by
    simp [scanStep, Token.isOpener, plain.opens?, Token.isCloser, plain.closes?, ordered]
  rw [scan, stepped, endsOperand_eq_false_of_order? ordered]
  rfl

/-- Within brackets nothing is noted. -/
theorem scan_nested {separated : Bool} {text : List Token} (nested : Nested separated text) :
    ∃ behind, scan index (depth + 1) behindOperand text = some ([], depth + 1, behind) := by
  induction nested generalizing index depth behindOperand with
  | nil => exact ⟨behindOperand, rfl⟩
  | @plain _ token _ opens closes _ _ _ _ inductionHypothesis =>
      have stepped : scanStep index (depth + 1) behindOperand token = some ([], depth + 1) := by
        simp [scanStep, Token.isOpener, opens, Token.isCloser, closes]
      obtain ⟨behind, scanned⟩ := @inductionHypothesis (index + 1) depth token.endsOperand
      exact ⟨behind, by rw [scan, stepped]; simp [scanned]⟩
  | @pair _ opener closer _ text _ opens closes _ _ withinHypothesis laterHypothesis =>
      obtain ⟨behindWithin, within⟩ :=
        @withinHypothesis (index + 1) (depth + 1) opener.endsOperand
      obtain ⟨behind, later⟩ :=
        @laterHypothesis (index + 1 + text.length + 1) depth closer.endsOperand
      refine ⟨behind, ?_⟩
      have opened : scanStep index (depth + 1) behindOperand opener = some ([], depth + 2) := by
        simp [scanStep, Token.isOpener, opens]
      have closed : scanStep (index + 1 + text.length) (depth + 2) behindWithin closer =
          some ([], depth + 1) := by
        simp [scanStep, Token.isOpener, Token.opens?_eq_none_of_closes? closes, Token.isCloser,
          closes]
      rw [scan, opened, Option.bind_some, scan_append_of_eq within, scan, closed]
      simp [later]

/-- A bracket pair around nested text is passed over, and can end an operand. -/
theorem scan_pair {opener closer : Token} {bracket : Bracket} {text rest : List Token}
    (opens : opener.opens? = some bracket) (within : Nested true text)
    (closes : closer.closes? = some bracket) :
    scan index 0 behindOperand (opener :: (text ++ closer :: rest)) =
      scan (index + text.length + 2) 0 true rest := by
  obtain ⟨behindWithin, scanned⟩ := @scan_nested (index + 1) 0 opener.endsOperand _ _ within
  have opened : scanStep index 0 behindOperand opener = some ([], 1) := by
    simp [scanStep, Token.isOpener, opens]
  have closed : scanStep (index + 1 + text.length) 1 behindWithin closer = some ([], 0) := by
    simp [scanStep, Token.isOpener, Token.opens?_eq_none_of_closes? closes, Token.isCloser, closes]
  have ends : closer.endsOperand = true := by
    simp [Token.endsOperand, Token.tokenClass_of_closes? closes, Token.isCloser, closes]
  have shift : index + 1 + text.length + 1 = index + text.length + 2 := by omega
  rw [scan, opened, Option.bind_some, scan_append_of_eq scanned, scan, closed, ends, shift]
  simp

/-! ### Agreement with the reader -/

variable {tokens : Array Token} {low high : Nat}

def Joint.noted (joint : Joint low high) : Nat × Nat :=
  (joint.index, joint.order)

/-- The reader notes what the scan notes, and fails where the scan has no answer. -/
theorem jointsFrom_agrees {index depth : Nat} {behindOperand : Bool} (bound : high ≤ tokens.size)
    (low_le_index : low ≤ index) (first : behindOperand = true → low < index) :
    match jointsFrom tokens low high index depth behindOperand low_le_index first with
    | .ok joints => ∃ state, scan index depth behindOperand (slice tokens index high) =
        some (joints.map Joint.noted, state)
    | .error error => error.ArisesIn tokens ∧
        scan index depth behindOperand (slice tokens index high) = none := by
  rw [jointsFrom]
  by_cases inside : index < high
  · have present := Array.getElem?_eq_getElem (show index < tokens.size by omega)
    simp only [inside, ↓reduceDIte, Sound.tokenAt_eq_ok present, Sound.ok_bind,
      slice_eq_cons present inside, scan, scanStep]
    generalize tokens[index] = token
    -- Behind the token the search goes on in one of these states.
    have later (next : Nat) := @jointsFrom_agrees (index + 1) next token.endsOperand bound
      (Nat.le_succ_of_le low_le_index) fun _ => Nat.lt_succ_of_le low_le_index
    by_cases opener : token.isOpener = true
    · simpa [opener] using later (depth + 1)
    · by_cases closer : token.isCloser = true
      · cases depth with
        | zero =>
            rw [if_neg opener, if_pos closer, if_neg opener, if_pos closer]
            exact ⟨ParseError.violationAt_arisesIn .., rfl⟩
        | succ outer => simpa [opener, closer] using later outer
      · by_cases between : depth = 0 ∧ behindOperand = true
        · cases ordered : token.order? with
          | none => simpa [opener, closer, between, ordered] using later depth
          | some order =>
              obtain ⟨rfl, rfl⟩ := between
              have rest := later 0
              simp only [opener, closer, and_self, Bool.false_eq_true, ↓reduceIte, ↓reduceDIte,
                Option.map_some, Option.toList_some, Option.bind_some]
              cases found : jointsFrom tokens low high (index + 1) 0 token.endsOperand
                (Nat.le_succ_of_le low_le_index) (fun _ => Nat.lt_succ_of_le low_le_index) with
              | ok joints =>
                  rw [found] at rest
                  obtain ⟨state, scanned⟩ := rest
                  exact ⟨state, by simp [scanned, Joint.noted]⟩
              | error error =>
                  rw [found] at rest
                  exact ⟨rest.1, by simp [rest.2]⟩
        · simpa [opener, closer, between] using later depth
  · rw [slice_eq_nil tokens (Nat.not_lt.mp inside)]
    simp [inside, scan, pure, Except.pure]
termination_by high - index

/-- The range of a scanned slice splits at each operator noted. -/
theorem scan_slice_split {before after : List (Nat × Nat)} {position order : Nat}
    {state : Nat × Bool} (bound : high ≤ tokens.size) (index_le_high : index ≤ high)
    (scanned : scan index depth behindOperand (slice tokens index high) =
      some (before ++ (position, order) :: after, state)) :
    index ≤ position ∧ position < high ∧
      ∃ operator, tokens[position]? = some operator ∧ operator.order? = some order ∧
        scan index depth behindOperand (slice tokens index position) = some (before, 0, true) ∧
        scan (position + 1) 0 false (slice tokens (position + 1) high) = some (after, state) := by
  obtain ⟨left, operator, right, equal, rfl, ordered, leftScanned, rightScanned⟩ :=
    scan_split scanned
  obtain ⟨seam, index_le_seam, seam_le_high, leftEqual, rightEqual⟩ :=
    eq_append_of_slice equal index_le_high bound
  obtain ⟨seam_lt_high, present, rightEqual⟩ := eq_cons_of_slice rightEqual
  have length : left.length = seam - index := by rw [← leftEqual, length_slice (by omega)]
  have place : index + left.length = seam := by omega
  rw [place] at rightScanned ⊢
  exact ⟨index_le_seam, seam_lt_high, operator, present, ordered, leftEqual ▸ leftScanned,
    rightEqual ▸ rightScanned⟩

/-! ### The loosest order -/

private theorem foldl_max_spec (joints : List (Joint low high)) (initial : Nat) :
    initial ≤ joints.foldl (fun loosest joint => max loosest joint.order) initial ∧
      (∀ joint ∈ joints,
        joint.order ≤ joints.foldl (fun loosest joint => max loosest joint.order) initial) ∧
      (joints.foldl (fun loosest joint => max loosest joint.order) initial = initial ∨
        ∃ joint ∈ joints,
          joint.order = joints.foldl (fun loosest joint => max loosest joint.order) initial) := by
  induction joints generalizing initial with
  | nil => simp
  | cons joint joints inductionHypothesis =>
      obtain ⟨initial_le, order_le, reached⟩ := inductionHypothesis (max initial joint.order)
      rw [List.foldl_cons]
      refine ⟨by omega, ?_, ?_⟩
      · intro other member
        rcases List.mem_cons.mp member with rfl | member
        · omega
        · exact order_le other member
      · rcases reached with reached | ⟨other, member, equal⟩
        · rcases Nat.le_total joint.order initial with order_le | initial_le
          · exact .inl (by rw [reached]; omega)
          · exact .inr ⟨joint, by simp, by rw [reached]; omega⟩
        · exact .inr ⟨other, by simp [member], equal⟩

theorem order_le_loosestOrder {joints : List (Joint low high)} {joint : Joint low high}
    (member : joint ∈ joints) : joint.order ≤ loosestOrder joints :=
  (foldl_max_spec joints 0).2.1 joint member

theorem exists_order_eq_loosestOrder {joints : List (Joint low high)} (nonempty : joints ≠ []) :
    ∃ joint ∈ joints, joint.order = loosestOrder joints := by
  rcases (foldl_max_spec joints 0).2.2 with zero | reached
  · obtain ⟨joint, member⟩ := List.exists_mem_of_ne_nil joints nonempty
    have bounded := order_le_loosestOrder member
    exact ⟨joint, member, by rw [loosestOrder, zero] at *; omega⟩
  · exact reached

/-- What the split points of a range are, in terms of its scan. -/
structure SplitsAt (tokens : Array Token) (low high : Nat) (points : List (Joint low high))
    (found : List (Nat × Nat)) (loosest : Nat) : Prop where
  scanned : ∃ state, scan low 0 false (slice tokens low high) = some (found, state)
  order_le : ∀ entry ∈ found, entry.2 ≤ loosest
  reached : found ≠ [] → ∃ entry ∈ found, entry.2 = loosest
  points_eq : points.map Joint.noted = found.filter (·.2 == loosest)

theorem splitPoints_agrees (bound : high ≤ tokens.size) :
    match splitPoints tokens low high with
    | .ok points => ∃ found loosest, SplitsAt tokens low high points found loosest
    | .error error => error.ArisesIn tokens ∧
        scan low 0 false (slice tokens low high) = none := by
  have agrees := @jointsFrom_agrees tokens low high low 0 false bound (Nat.le_refl low)
    fun behind => absurd behind Bool.false_ne_true
  unfold splitPoints
  cases ran : jointsFrom tokens low high low 0 false (Nat.le_refl low)
    (fun behind => absurd behind Bool.false_ne_true) with
  | error error =>
      rw [ran] at agrees
      exact agrees
  | ok joints =>
      rw [ran] at agrees
      refine ⟨joints.map Joint.noted, loosestOrder joints, agrees, ?_, ?_, ?_⟩
      · intro entry member
        obtain ⟨joint, held, rfl⟩ := List.mem_map.mp member
        exact order_le_loosestOrder held
      · intro nonempty
        obtain ⟨joint, member, equal⟩ :=
          exists_order_eq_loosestOrder (show joints ≠ [] by simpa using nonempty)
        exact ⟨joint.noted, List.mem_map_of_mem member, equal⟩
      · rw [List.filter_map]
        rfl

/-- An operator is noted exactly if some point is one of the loosest order. -/
theorem SplitsAt.found_eq_nil {points : List (Joint low high)} {found : List (Nat × Nat)}
    {loosest : Nat} (splits : SplitsAt tokens low high points found loosest)
    (none : points = []) : found = [] := by
  by_contra nonempty
  obtain ⟨entry, member, equal⟩ := splits.reached nonempty
  have kept : entry ∈ points.map Joint.noted := by
    rw [splits.points_eq]
    exact List.mem_filter.mpr ⟨member, by simp [equal]⟩
  simp [none] at kept

end TnslReader
