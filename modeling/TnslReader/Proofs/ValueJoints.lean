import TnslReader.Proofs.Joints
import TnslReader.Proofs.ValueNesting

/-!
Contract: which operators of a value or a type stand between operands.

In a value these are the operators that its grammar puts between operands outside brackets, and the
loosest of them have the order of the value. In a type they are the dots of its name. Either way a
scan that begins outside all brackets ends there, behind a token that can end an operand.
-/

set_option autoImplicit false

namespace TnslReader

/-- `Joined index text order found`: a scan of the text notes `found`, none looser than the order,
and ends outside all brackets behind an operand. -/
structure Joined (index : Nat) (text : List Token) (order : Nat) (found : List (Nat × Nat)) :
    Prop where
  scanned : scan index 0 false text = some (found, 0, true)
  order_le : ∀ entry ∈ found, entry.2 ≤ order

/-- An operator of the order and an operand that binds no looser extend a joined text. -/
theorem Joined.append {index order : Nat} {text rest : List Token} {operator : Token}
    {found later : List (Nat × Nat)} (joined : Joined index text order found)
    (ordered : operator.order? = some order)
    (restJoined : Joined (index + text.length + 1) rest order later) :
    Joined index (text ++ operator :: rest) order
      (found ++ (index + text.length, order) :: later) := by
  constructor
  · rw [scan_append_of_eq joined.scanned, scan_cons_of_order? ordered, restJoined.scanned]
    rfl
  · intro entry member
    simp only [List.mem_append, List.mem_cons] at member
    rcases member with member | rfl | member
    · exact joined.order_le entry member
    · exact Nat.le_refl _
    · exact restJoined.order_le entry member

theorem Joined.loosen {index order looser : Nat} {text : List Token} {found : List (Nat × Nat)}
    (joined : Joined index text order found) (order_le : order ≤ looser) :
    Joined index text looser found :=
  ⟨joined.scanned, fun entry member => Nat.le_trans (joined.order_le entry member) order_le⟩

namespace Token

variable {token : Token}

theorem order?_eq_none_of_class (notOperator : token.tokenClass ≠ .operator) :
    token.order? = none := by
  cases ordered : token.order? with
  | none => rfl
  | some order =>
      obtain ⟨operator, found, -⟩ := exists_operator_of_order? ordered
      exact absurd (tokenClass_of_operator? found) notOperator

theorem order?_eq_none_of_mayFollowOperand (follows : token.mayFollowOperand = true) :
    token.order? = none := by
  cases ordered : token.order? with
  | none => rfl
  | some order => simp [mayFollowOperand_eq_false_of_order? ordered] at follows

theorem endsOperand_of_operator? {operator : Operator} (found : token.operator? = some operator) :
    token.endsOperand = operator.mayFollow := by
  simp [endsOperand, tokenClass_of_operator? found, mayFollowOperand, found]

theorem endsOperand_of_mayFollowOperand (follows : token.mayFollowOperand = true) :
    token.endsOperand = true := by
  obtain ⟨operator, found, follows⟩ := exists_operator_of_mayFollowOperand follows
  rw [endsOperand_of_operator? found, follows]

/-- Of the operators that may come before an operand, those that step one may also end one. -/
theorem endsOperand_eq_stepsOperand (precedes : token.mayPrecedeOperand = true) :
    token.endsOperand = token.stepsOperand := by
  obtain ⟨operator, found, -⟩ := exists_operator_of_mayPrecedeOperand precedes
  rw [stepsOperand, ← mayFollowOperand_of_mayPrecedeOperand precedes,
    endsOperand_of_operator? found, mayFollowOperand, found, Option.any_some]

end Token

/-- An operator that may come before an operand is passed over, unless it is a minus behind one. -/
theorem scan_cons_of_mayPrecedeOperand {index : Nat} {behindOperand : Bool} {operator : Token}
    {rest : List Token} (precedes : operator.mayPrecedeOperand = true)
    (apart : behindOperand = true → operator.isOperator .minus = false) :
    scan index 0 behindOperand (operator :: rest) =
      scan (index + 1) 0 operator.stepsOperand rest := by
  rw [← Token.endsOperand_eq_stepsOperand precedes]
  refine scan_cons_of_plain (Token.isPlain_of_mayPrecedeOperand precedes) fun behind => ?_
  cases ordered : operator.order? with
  | none => rfl
  | some order =>
      have notMinus := apart behind
      simp [Token.isOperator_minus_of_order? ordered precedes] at notMinus

/-! ### Pieces without operators between operands -/

theorem PrimaryText.scan_eq {depth chain : Nat} {text : List Token} {node : Node}
    (index : Nat) (behindOperand : Bool) (primary : PrimaryText depth chain text node) :
    scan index 0 behindOperand text = some ([], 0, true) := by
  cases primary with
  | leaf isLeaf =>
      rename_i token kind
      have ends : token.endsOperand = true ∧ token.tokenClass ≠ .operator := by
        rcases Token.tokenClass_of_leafKind? isLeaf with classified | classified | classified <;>
          simp [Token.endsOperand, classified]
      rw [scan_cons_of_plain (Token.isPlain_of_leafKind? isLeaf)
        fun _ => Token.order?_eq_none_of_class ends.2, ends.1]
      rfl
  | grouped opens value closes => exact scan_pair opens value.nested.toSeparated closes

mutual

theorem MarksText.scan_eq {depth chain : Nat} {text : List Token} {nodes : List Node}
    (index : Nat) (behindOperand : Bool) : MarksText depth chain text nodes →
      ∃ behind, scan index 0 behindOperand text = some ([], 0, behind)
  | .done => ⟨behindOperand, rfl⟩
  | .pointer points later => by
      have found := Token.operator?_of_isOperator points
      obtain ⟨behind, scanned⟩ := later.scan_eq (index + 1) false
      refine ⟨behind, ?_⟩
      rw [scan_cons_of_plain (Token.isPlain_of_isOperator points) fun _ => by
        simp [Token.order?, found, Operator.order?], Token.endsOperand_of_operator? found]
      exact scanned
  | .unsized opens closes later => by
      obtain ⟨behind, scanned⟩ := later.scan_eq (index + 2) true
      have within : Nested true ([] : List Token) := .nil
      exact ⟨behind, (scan_pair opens within closes).trans scanned⟩
  | @MarksText.sized _ _ _ _ _ text _ _ _ opens value closes later => by
      obtain ⟨behind, scanned⟩ := later.scan_eq (index + text.length + 2) true
      exact ⟨behind, (scan_pair opens value.nested.toSeparated closes).trans scanned⟩

theorem FollowedText.scan_eq {depth chain : Nat} {base node : Node} {text : List Token}
    (index : Nat) : FollowedText depth chain base text node →
      scan index 0 true text = some ([], 0, true)
  | .done => rfl
  | .operator _ follows after => by
      rw [scan_cons_of_plain (Token.isPlain_of_mayFollowOperand follows)
        fun _ => Token.order?_eq_none_of_mayFollowOperand follows,
        Token.endsOperand_of_mayFollowOperand follows]
      exact after.scan_eq _
  | .call _ opens values closes after =>
      (scan_pair opens values.nested closes).trans (after.scan_eq _)
  | .index _ opens value closes after =>
      (scan_pair opens value.nested.toSeparated closes).trans (after.scan_eq _)
  | .cast _ opens types closes after =>
      (scan_pair opens types.nested closes).trans (after.scan_eq _)

/-- No operator of a unary value stands between operands, be it behind an operand or not, unless it
begins with a minus behind one. -/
theorem UnaryText.scan_eq {depth chain : Nat} {text : List Token} {node : Node} (index : Nat)
    (behindOperand : Bool)
    (apart : behindOperand = true → text.head?.any (·.isOperator .minus) = false) :
    UnaryText depth chain text node → scan index 0 behindOperand text = some ([], 0, true)
  | @UnaryText.preceded _ _ _ operator _ _ _ precedes steps operand => by
      rw [scan_cons_of_mayPrecedeOperand precedes apart]
      exact operand.scan_eq (index + 1) operator.stepsOperand steps
  | .followed primary after => by
      rw [scan_append_of_eq (primary.scan_eq index behindOperand), after.scan_eq]
      rfl

end

/-! ### Types -/

theorem DottedText.joined {text : List Token} {path : List Node} {name : Token}
    (dotted : DottedText text path name) (index : Nat) (behindOperand : Bool) :
    ∃ found, scan index 0 behindOperand text = some (found, 0, true) ∧
      ∀ entry ∈ found, entry.2 ≤ 1 := by
  induction dotted generalizing index behindOperand with
  | @word name isWord =>
      have plain : name.IsPlain :=
        Token.isPlain_of_class (by simp [isWord]) (by simp [isWord]) (by simp [isWord])
      refine ⟨[], ?_, by simp⟩
      rw [scan_cons_of_plain plain fun _ => Token.order?_eq_none_of_class (by simp [isWord])]
      simp [scan, Token.endsOperand, isWord]
  | @dot word dot name text path isWord isDot _ inductionHypothesis =>
      have plain : word.IsPlain :=
        Token.isPlain_of_class (by simp [isWord]) (by simp [isWord]) (by simp [isWord])
      obtain ⟨found, scanned, order_le⟩ := inductionHypothesis (index + 2) false
      have ordered : dot.order? = some 1 := by
        simp [Token.order?, Token.operator?_of_isOperator isDot, Operator.order?]
      have ends : word.endsOperand = true := by simp [Token.endsOperand, isWord]
      refine ⟨(index + 1, 1) :: found, ?_, by simpa using order_le⟩
      rw [scan_cons_of_plain plain fun _ => Token.order?_eq_none_of_class (by simp [isWord]), ends,
        scan_cons_of_order? ordered, scanned]
      rfl

theorem NameText.joined {text : List Token} {path : List Node} {name : Token}
    (named : NameText text path name) (index : Nat) (behindOperand : Bool) :
    ∃ found, scan index 0 behindOperand text = some (found, 0, true) ∧
      ∀ entry ∈ found, entry.2 ≤ 1 := by
  cases named with
  | builtin isBuiltin =>
      have plain : name.IsPlain := Token.isPlain_of_class (by simp [isBuiltin])
        (by simp [isBuiltin]) (by simp [isBuiltin])
      refine ⟨[], ?_, by simp⟩
      rw [scan_cons_of_plain plain fun _ => Token.order?_eq_none_of_class (by simp [isBuiltin])]
      simp [scan, Token.endsOperand, isBuiltin]
  | dotted words => exact words.joined index behindOperand

theorem ArgumentsText.scan_eq {depth chain : Nat} {name : Token} {text : List Token}
    {nodes : List Node} (index : Nat) (applied : ArgumentsText depth chain name text nodes) :
    scan index 0 true text = some ([], 0, true) := by
  cases applied with
  | none => rfl
  | arguments opens types closes => exact scan_pair opens types.nested closes
  | results _ opens types closes opensResults resultTypes closesResults =>
      rw [scan_pair opens types.nested closes]
      exact scan_pair opensResults resultTypes.nested closesResults

theorem ReferenceText.scan_eq {inParameter : Bool} {text : List Token} {nodes : List Node}
    (index : Nat) (referred : ReferenceText inParameter text nodes) :
    scan index 0 true text = some ([], 0, true) := by
  cases referred with
  | none => rfl
  | mark _ isMark =>
      have found := Token.operator?_of_isOperator isMark
      rw [scan_cons_of_plain (Token.isPlain_of_isOperator isMark) fun _ => by
        simp [Token.order?, found, Operator.order?], Token.endsOperand_of_operator? found]
      rfl

theorem scan_qualifiers {inParameter : Bool} {text : List Token}
    (qualified : ∀ token ∈ text, token.qualifies inParameter = true) (index : Nat) :
    scan index 0 false text = some ([], 0, false) := by
  induction text generalizing index with
  | nil => rfl
  | cons token rest inductionHypothesis =>
      have classified : token.tokenClass = .keyword := by
        have qualifies := qualified token (by simp)
        simp only [Token.qualifies, Bool.and_eq_true, beq_iff_eq] at qualifies
        exact qualifies.1.1
      rw [scan_cons_of_plain (Token.isPlain_of_qualifies (qualified token (by simp)))
        fun _ => Token.order?_eq_none_of_class (by simp [classified])]
      have ends : token.endsOperand = false := by simp [Token.endsOperand, classified]
      rw [ends]
      exact inductionHypothesis (fun later member => qualified later (by simp [member])) _

/-- The operators between operands in a type are the dots of its name. -/
theorem TypeText.joined {inParameter : Bool} {depth chain : Nat} {text : List Token} {node : Node}
    (type : TypeText inParameter depth chain text node) (index : Nat) :
    ∃ found, Joined index text 1 found := by
  obtain @⟨_, _, _, _, _, _, qualifiers, marks, words, arguments, reference, _, _, _, _, _,
    qualified, marked, named, applied, referred, _⟩ := type
  obtain ⟨behind, marksScanned⟩ := marked.scan_eq (index + qualifiers.length) false
  obtain ⟨found, wordsScanned, order_le⟩ :=
    named.joined (index + (qualifiers ++ marks).length) behind
  refine ⟨found, ?_, order_le⟩
  have prefixScanned : scan index 0 false (qualifiers ++ marks) = some ([], 0, behind) := by
    rw [scan_append_of_eq (scan_qualifiers qualified index), marksScanned]
    rfl
  have nameScanned : scan index 0 false (qualifiers ++ marks ++ words) = some (found, 0, true) := by
    rw [scan_append_of_eq prefixScanned, wordsScanned]
    rfl
  have argumentsScanned :
      scan index 0 false (qualifiers ++ marks ++ words ++ arguments) = some (found, 0, true) := by
    rw [scan_append_of_eq nameScanned, applied.scan_eq]
    simp
  rw [scan_append_of_eq argumentsScanned, referred.scan_eq]
  simp

/-! ### Values -/

mutual

/-- The operators between the operands of a value have at most its order, and if it has one then
some of them have it. -/
theorem ValueText.joined {depth chain order : Nat} {text : List Token} {node : Node} (index : Nat) :
    ValueText depth chain order text node →
      ∃ found, Joined index text order found ∧ (0 < order → ∃ entry ∈ found, entry.2 = order)
  | .unary _ operand =>
      ⟨[], ⟨operand.scan_eq index false (by simp), by simp⟩, by simp⟩
  | .composite _ opens values closes =>
      ⟨[], ⟨scan_pair opens values.nested closes, by simp⟩, by simp⟩
  | .chain _ _ joined operands => by
      obtain ⟨found, joins, reached⟩ := operands.joined index
      exact ⟨found, joins, fun _ => reached joined⟩

/-- As many operators of a chain as it has operands less one have its order. -/
theorem ChainText.joined {depth chain order count : Nat} {text : List Token} {node : Node}
    (index : Nat) : ChainText depth chain order count text node →
      ∃ found, Joined index text order found ∧ (0 < count → ∃ entry ∈ found, entry.2 = order)
  | .first operand binds => by
      obtain ⟨found, joined, -⟩ := operand.joined index
      exact ⟨found, joined.loosen (Nat.le_of_lt binds), by simp⟩
  | @ChainText.value _ _ _ _ _ _ leftText _ _ _ before ordered _ operand binds => by
      obtain ⟨found, joined, -⟩ := before.joined index
      obtain ⟨later, operandJoined, -⟩ := operand.joined (index + leftText.length + 1)
      refine ⟨_, joined.append ordered (operandJoined.loosen (Nat.le_of_lt binds)), fun _ => ?_⟩
      exact ⟨(index + leftText.length, order), by simp, rfl⟩
  | @ChainText.type _ _ _ _ _ leftText _ _ _ before ordered _ operand => by
      obtain ⟨found, joined, -⟩ := before.joined index
      obtain ⟨later, operandJoined⟩ := operand.joined (index + leftText.length + 1)
      refine ⟨_, joined.append ordered (operandJoined.loosen (Token.pos_of_order? ordered)),
        fun _ => ?_⟩
      exact ⟨(index + leftText.length, order), by simp, rfl⟩

end

end TnslReader
