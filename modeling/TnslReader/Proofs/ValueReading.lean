import TnslReader.Proofs.ValueCompleteness
import TnslReader.Proofs.ValueSoundness

/-!
Contract: the reading of a value answers with just the trees that the grammar gives the range.

What is read is a value by the grammar, whatever the limits are. In the other direction the limits
matter, and it is enough that the reading does not stop at one. It never does where as many levels
and chained operators are left as the range has tokens.
-/

set_option autoImplicit false

namespace TnslReader

namespace Usage

/-- Whether so many levels more, and so many chained operators more, are within the limits. -/
def HasRoomFor (usage : Usage) (count : Nat) : Prop :=
  usage.depth + count ≤ usage.limits.maxDepth ∧ usage.chain + count ≤ usage.limits.maxChain

theorem HasRoomFor.covers {usage : Usage} {count : Nat} (room : usage.HasRoomFor count) :
    usage.Covers count count := by
  obtain ⟨levels, links⟩ := room
  simp only [Covers, depthLeft, chainLeft]
  omega

end Usage

variable {tokens : Array Token} {low high : Nat} {usage : Usage} {node : Node}

/-- What is read is a value, under any limits. -/
theorem isValue_of_value (size : high ≤ tokens.size)
    (answered : (value tokens low high).answer usage = .ok node) :
    IsValue (slice tokens low high) node := by
  have sound := (@value_ensures tokens low high usage size).2
  rw [answered] at sound
  obtain ⟨order, value⟩ := sound
  exact ⟨_, _, order, value⟩

/-- A value is read with as much room as it has tokens. -/
theorem value_answers_of_room (size : high ≤ tokens.size) (room : usage.HasRoomFor (high - low))
    (isValue : IsValue (slice tokens low high) node) :
    (value tokens low high).answer usage = .ok node := by
  obtain ⟨depth, chain, order, value⟩ := isValue
  have length : (slice tokens low high).length = high - low := length_slice size
  have widened : ValueText (high - low) (high - low) order (slice tokens low high) node :=
    value.widen (.inr (Nat.le_of_eq length)) (.inr (Nat.le_of_eq length))
  exact (value_answers rfl size widened).answer_eq room.covers

/-- A value is read unless a limit is reached. -/
theorem value_answers_of_unlimited (size : high ≤ tokens.size)
    (unlimited : ∀ error, (value tokens low high).answer usage = .error error → ¬error.IsLimit)
    (isValue : IsValue (slice tokens low high) node) :
    (value tokens low high).answer usage = .ok node := by
  obtain ⟨depth, chain, order, value⟩ := isValue
  exact (value_answers rfl size value).answer_eq_of_unlimited unlimited

/-- With limits that are not reached, a range is read as a value with a given tree exactly if its
tokens are one with that tree. -/
theorem value_eq_ok_iff_isValue (size : high ≤ tokens.size)
    (unreached : usage.HasRoomFor (high - low) ∨
      ∀ error, (value tokens low high).answer usage = .error error → ¬error.IsLimit) :
    (value tokens low high).answer usage = .ok node ↔ IsValue (slice tokens low high) node := by
  constructor
  · exact isValue_of_value size
  · intro isValue
    rcases unreached with room | unlimited
    · exact value_answers_of_room size room isValue
    · exact value_answers_of_unlimited size unlimited isValue

/-- The tokens of `x - -y`. -/
def negatedDifference : Array Token :=
  #[⟨.userWord, "x", 1, 1, ⟨0, 1⟩⟩, ⟨.operator, "-", 1, 3, ⟨2, 3⟩⟩,
    ⟨.operator, "-", 1, 5, ⟨4, 5⟩⟩, ⟨.userWord, "y", 1, 6, ⟨5, 6⟩⟩]

/-- The first minus of `x - -y` joins two operands, and the second belongs to the operand. -/
theorem value_negatedDifference :
    (value negatedDifference 0 4).answer (.none .standard) =
      .ok ⟨.binary, negatedDifference[1], [.leaf .identifier negatedDifference[0],
        ⟨.precedingOperator, negatedDifference[2],
          [.leaf .identifier negatedDifference[3]]⟩]⟩ := by
  apply (value_eq_ok_iff_isValue (by decide) (.inl (by constructor <;> decide))).mpr
  have left : ValueText 2 0 0 [negatedDifference[0]] (.leaf .identifier negatedDifference[0]) :=
    .unary (Nat.lt_succ_self 1) (.followed (.leaf (by decide)) .done)
  have right : ValueText 2 0 0 [negatedDifference[2], negatedDifference[3]]
      ⟨.precedingOperator, negatedDifference[2], [.leaf .identifier negatedDifference[3]]⟩ :=
    .unary (Nat.lt_succ_self 1) (.preceded Nat.zero_lt_one (by decide) (by decide)
      (.followed (.leaf (by decide)) .done))
  exact ⟨3, 1, 4, .chain (Nat.lt_succ_self 2) (Nat.le_refl 1) Nat.zero_lt_one
    (.value (.first left (by decide)) (by decide) (by decide) right (by decide))⟩

end TnslReader
