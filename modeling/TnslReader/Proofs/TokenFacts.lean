import Mathlib.Tactic
import TnslReader.Token

/-!
Contract: what one question about a token says about the others.

A token is plain if it neither opens nor closes a bracket pair, is no marker, ends no statement and
is no comma. Words, literals and operators are plain whatever their text is. Of the operators only
the minus may stand both between operands and before one, and none that stands between operands may
follow one.
-/

set_option autoImplicit false

namespace TnslReader.Token

variable {token : Token}

/-- Whether the token has no part in the structure of brackets, markers, commas and statements. -/
structure IsPlain (token : Token) : Prop where
  opens? : token.opens? = none
  closes? : token.closes? = none
  marker? : token.marker? = none
  endsStatement : token.endsStatement = false
  isComma : token.isComma = false

theorem isPlain_of_class (notDelimiter : token.tokenClass ≠ .delimiter)
    (notLine : token.tokenClass ≠ .lineSeparator) (notInline : token.tokenClass ≠ .inlineSeparator) :
    token.IsPlain := by
  cases classified : token.tokenClass <;> simp_all <;>
    constructor <;> simp [Token.opens?, Token.closes?, Token.endsStatement, Token.isComma,
      Token.isBlockMarker, Token.marker?, classified]

/-! ### Classes -/

theorem tokenClass_of_operator? {operator : Operator} (found : token.operator? = some operator) :
    token.tokenClass = .operator := by
  unfold operator? at found
  split at found
  · assumption
  · cases found

theorem operator?_of_isOperator {operator : Operator} (is : token.isOperator operator = true) :
    token.operator? = some operator := by
  simpa [isOperator] using is

theorem isOperator_eq_false {operator : Operator} (notOperator : token.tokenClass ≠ .operator) :
    token.isOperator operator = false := by
  cases is : token.isOperator operator with
  | false => rfl
  | true => exact absurd (tokenClass_of_operator? (operator?_of_isOperator is)) notOperator

theorem exists_operator_of_order? {order : Nat} (ordered : token.order? = some order) :
    ∃ operator, token.operator? = some operator ∧ operator.order? = some order :=
  Option.bind_eq_some_iff.mp ordered

theorem exists_operator_of_mayPrecedeOperand (precedes : token.mayPrecedeOperand = true) :
    ∃ operator, token.operator? = some operator ∧ operator.mayPrecede = true :=
  (Option.any_eq_true _ _).mp precedes

theorem exists_operator_of_mayFollowOperand (follows : token.mayFollowOperand = true) :
    ∃ operator, token.operator? = some operator ∧ operator.mayFollow = true :=
  (Option.any_eq_true _ _).mp follows

theorem tokenClass_of_isKeyword {word : Keyword} (isWord : token.isKeyword word = true) :
    token.tokenClass = .keyword := by
  simp only [isKeyword, Bool.and_eq_true, beq_iff_eq] at isWord
  exact isWord.1

theorem text_of_isKeyword {word : Keyword} (isWord : token.isKeyword word = true) :
    token.text = word.spelling := by
  simp only [isKeyword, Bool.and_eq_true, beq_iff_eq] at isWord
  exact isWord.2

theorem tokenClass_of_isLineSeparator {rune : Char} (separates : token.isLineSeparator rune = true) :
    token.tokenClass = .lineSeparator := by
  simp only [isLineSeparator, Bool.and_eq_true, beq_iff_eq] at separates
  exact separates.1

theorem tokenClass_of_isComma (isComma : token.isComma = true) :
    token.tokenClass = .inlineSeparator := by
  simpa [Token.isComma] using isComma

theorem tokenClass_of_isQuotedText (quoted : token.isQuotedText = true) :
    token.tokenClass = .literal := by
  simp only [isQuotedText, Bool.and_eq_true, beq_iff_eq] at quoted
  exact quoted.1

theorem isKeyword_of_keyword? {word : Keyword} (isKeyword : token.tokenClass = .keyword)
    (found : token.keyword? = some word) : token.isKeyword word = true := by
  simp only [keyword?, isKeyword] at found
  simp [Token.isKeyword, isKeyword, Keyword.spelling_of_ofSpelling? found]

theorem isPlain_of_operator? {operator : Operator} (found : token.operator? = some operator) :
    token.IsPlain := by
  have classified := tokenClass_of_operator? found
  apply isPlain_of_class <;> simp [classified]

/-! ### Operators -/

theorem mayFollowOperand_eq_false_of_order? {order : Nat} (ordered : token.order? = some order) :
    token.mayFollowOperand = false := by
  obtain ⟨operator, found, ordered⟩ := exists_operator_of_order? ordered
  simp only [mayFollowOperand, found, Option.any_some]
  cases operator <;> simp_all [Operator.order?, Operator.mayFollow]

theorem pos_of_order? {order : Nat} (ordered : token.order? = some order) : 0 < order := by
  obtain ⟨operator, -, ordered⟩ := exists_operator_of_order? ordered
  cases operator <;> simp_all [Operator.order?] <;> omega

/-- An operator that may stand before an operand and also between operands is a minus. -/
theorem isOperator_minus_of_order? {order : Nat} (ordered : token.order? = some order)
    (precedes : token.mayPrecedeOperand = true) : token.isOperator .minus = true := by
  obtain ⟨operator, found, ordered⟩ := exists_operator_of_order? ordered
  simp only [mayPrecedeOperand, found, Option.any_some] at precedes
  have isMinus : operator = .minus := by
    cases operator <;> simp_all [Operator.order?, Operator.mayPrecede]
  simp [isOperator, found, isMinus]

/-- An operator that may stand before an operand and also after one is an increment or a
decrement. -/
theorem mayFollowOperand_of_mayPrecedeOperand (precedes : token.mayPrecedeOperand = true) :
    token.mayFollowOperand =
      (token.isOperator .increment || token.isOperator .decrement) := by
  obtain ⟨operator, found, precedes⟩ := exists_operator_of_mayPrecedeOperand precedes
  simp only [mayFollowOperand, isOperator, found, Option.any_some]
  cases operator <;> simp_all [Operator.mayPrecede, Operator.mayFollow]

/-! ### Brackets -/

theorem tokenClass_of_opens? {bracket : Bracket} (opens : token.opens? = some bracket) :
    token.tokenClass = .delimiter := by
  unfold Token.opens? at opens
  split at opens
  · assumption
  · cases opens

theorem tokenClass_of_closes? {bracket : Bracket} (closes : token.closes? = some bracket) :
    token.tokenClass = .delimiter := by
  unfold Token.closes? at closes
  split at closes
  · assumption
  · cases closes

theorem closes?_eq_none_of_opens? {bracket : Bracket} (opens : token.opens? = some bracket) :
    token.closes? = none := by
  have classified := tokenClass_of_opens? opens
  simp only [Token.opens?, classified] at opens
  simp only [Token.closes?, classified]
  unfold Bracket.ofOpeningText? at opens
  split at opens <;> simp_all [Bracket.ofClosingText?]

theorem opens?_eq_none_of_closes? {bracket : Bracket} (closes : token.closes? = some bracket) :
    token.opens? = none := by
  cases opens : token.opens? with
  | none => rfl
  | some other => simp [closes?_eq_none_of_opens? opens] at closes

theorem marker?_eq_none_of_opens? {bracket : Bracket} (opens : token.opens? = some bracket) :
    token.marker? = none := by
  have classified := tokenClass_of_opens? opens
  simp only [Token.opens?, classified] at opens
  simp only [Token.marker?, classified]
  unfold Bracket.ofOpeningText? at opens
  split at opens <;> simp_all <;> decide

theorem marker?_eq_none_of_closes? {bracket : Bracket} (closes : token.closes? = some bracket) :
    token.marker? = none := by
  have classified := tokenClass_of_closes? closes
  simp only [Token.closes?, classified] at closes
  simp only [Token.marker?, classified]
  unfold Bracket.ofClosingText? at closes
  split at closes <;> simp_all <;> decide

/-! ### Markers and ends of statements -/

/-- Markers are delimiters. -/
theorem tokenClass_of_marker? {marker : Marker} (found : token.marker? = some marker) :
    token.tokenClass = .delimiter := by
  unfold Token.marker? at found
  split at found
  · assumption
  · cases found

theorem marker?_eq_none_of_class (notDelimiter : token.tokenClass ≠ .delimiter) :
    token.marker? = none :=
  Option.eq_none_iff_forall_ne_some.mpr fun _ found => notDelimiter (tokenClass_of_marker? found)

theorem marker?_eq_none_of_isLineSeparator {rune : Char}
    (separates : token.isLineSeparator rune = true) : token.marker? = none :=
  marker?_eq_none_of_class (by simp [tokenClass_of_isLineSeparator separates])

theorem endsStatement_eq_false_of_unmarked (unmarked : token.marker? = none)
    (notLine : token.tokenClass ≠ .lineSeparator) : token.endsStatement = false := by
  simp [endsStatement, isBlockMarker, unmarked, notLine]

end TnslReader.Token
