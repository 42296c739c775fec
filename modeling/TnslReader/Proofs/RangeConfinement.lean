import TnslReader.Proofs.ValueLikeness

/-!
Contract: a value or a type is read from its range alone.

The reader holds the whole stream, looks one token back to tell whether an operator stands between
operands, and looks up to two tokens ahead along a dotted name. None of this reaches beyond the
range: two streams with the same tokens in it are alike there, whatever stands before and behind.
Only where an error points may differ, since a want at the end of the range is told by the token
that stands behind it.

The likeness has no offset and no excuse, and its limits are the same on both sides, so what
`ValueLikeness` says of it is that both streams give the same answer or none.

Owns: that the readings of values and types are confined to their ranges.
-/

set_option autoImplicit false

namespace TnslReader

/-- From the usage both readings have the same answer, or both fail, and each gives back what it
took of the limits. -/
def Reading.Concur {α : Type} (reading other : Reading α) (usage : Usage) : Prop :=
  (∃ result, reading usage = .ok result usage ∧ other usage = .ok result usage) ∨
    ∃ error otherError, reading usage = .error error usage ∧ other usage = .error otherError usage

variable {first second : Array Token} {low high : Nat}

/-- Where no error is excused, like readings have related answers or both fail. -/
theorem Likeness.AlikeFrom.concur {likeness : Likeness first second} {α : Type}
    {reading other : Reading α} {related : α → α → Prop} {usage : Usage}
    (unexcused : ∀ error, ¬likeness.excused error)
    (same : ∀ result otherResult, related result otherResult → result = otherResult)
    (alike : likeness.AlikeFrom usage usage reading other related) :
    reading.Concur other usage := by
  unfold AlikeFrom at alike
  cases ran : reading usage with
  | ok result after =>
      rw [ran] at alike
      obtain ⟨rfl, otherResult, answered, holds⟩ := alike
      obtain rfl := same result otherResult holds
      exact .inl ⟨result, ran, answered⟩
  | error error after =>
      rw [ran] at alike
      obtain ⟨rfl, held⟩ := alike
      obtain ⟨otherError, failed, -⟩ := held.resolve_left (unexcused error)
      exact .inr ⟨error, otherError, ran, failed⟩

/-- Of a range without tokens nothing is read. -/
theorem value_eq_throw {tokens : Array Token} (empty : high ≤ low) :
    value tokens low high = throw (.expected tokens high .value) := by
  rw [value, dif_neg (Nat.not_lt.mpr empty)]

theorem typeAt_eq_throw {tokens : Array Token} {inParameter : Bool} (empty : high ≤ low) :
    typeAt tokens inParameter low high = throw (.expected tokens low .type) := by
  rw [typeAt, dif_neg (Nat.not_lt.mpr empty)]

/-- Two streams that have the same tokens in a range have the same value in it, or neither has one,
and the same type at its beginning, up to the same index, or neither has one. This holds under any
limits and whatever is in use of them. If one stream reaches the end of the range, so does the
other, since they agree in it. -/
theorem readings_confined (size : high ≤ second.size)
    (agree : ∀ index, low ≤ index → index < high → first[index]? = second[index]?)
    (inParameter : Bool) (usage : Usage) :
    (value first low high).Concur (value second low high) usage ∧
      (typeAt first inParameter low high).Concur (typeAt second inParameter low high) usage := by
  rcases Nat.lt_or_ge low high with nonempty | empty
  · have pairs : (Likeness.ofRange size agree usage.limits).Pairs usage usage :=
      ⟨rfl, rfl, rfl, rfl⟩
    have maps {index : Nat} (low_le_index : low ≤ index) (index_le_high : index ≤ high) :
        (Likeness.ofRange size agree usage.limits).Maps index index :=
      ⟨(Nat.zero_add index).symm, low_le_index, index_le_high⟩
    have starts := maps (Nat.le_refl low) (Nat.le_of_lt nonempty)
    have stops := maps (Nat.le_of_lt nonempty) (Nat.le_refl high)
    constructor
    · exact (Likeness.value_alike starts stops usage usage pairs).concur (fun _ => id) fun _ _ => id
    · refine (Likeness.typeAt_alike starts stops usage usage pairs).concur (fun _ => id) ?_
      rintro ⟨type, next, _⟩ ⟨_, otherNext, _⟩ ⟨rfl, nexts, -⟩
      obtain rfl : next = otherNext := nexts.trans (Nat.zero_add otherNext)
      rfl
  · rw [value_eq_throw empty, value_eq_throw empty, typeAt_eq_throw empty, typeAt_eq_throw empty]
    exact ⟨.inr ⟨_, _, rfl, rfl⟩, .inr ⟨_, _, rfl, rfl⟩⟩

/-- The tokens of `++ x - y)`. -/
def closedDifference : Array Token :=
  #[⟨.operator, "++", 1, 1, ⟨0, 2⟩⟩, ⟨.userWord, "x", 1, 4, ⟨3, 4⟩⟩,
    ⟨.operator, "-", 1, 6, ⟨5, 6⟩⟩, ⟨.userWord, "y", 1, 8, ⟨7, 8⟩⟩,
    ⟨.delimiter, ")", 1, 9, ⟨8, 9⟩⟩]

/-- The same difference behind a name, and with a member and a call behind it. -/
def continuedDifference : Array Token :=
  #[⟨.userWord, "f", 1, 1, ⟨0, 1⟩⟩, ⟨.userWord, "x", 1, 4, ⟨3, 4⟩⟩,
    ⟨.operator, "-", 1, 6, ⟨5, 6⟩⟩, ⟨.userWord, "y", 1, 8, ⟨7, 8⟩⟩,
    ⟨.operator, ".", 1, 9, ⟨8, 9⟩⟩, ⟨.userWord, "z", 1, 10, ⟨9, 10⟩⟩,
    ⟨.delimiter, "(", 1, 11, ⟨10, 11⟩⟩]

/-- Neither the operator before `x`, nor the dot and the name behind `y` are any part of the
difference or of the type `y`. -/
theorem readings_confined_difference :
    (value closedDifference 1 4).Concur (value continuedDifference 1 4) (.none .standard) ∧
      (typeAt closedDifference false 3 4).Concur (typeAt continuedDifference false 3 4)
        (.none .standard) := by
  have agree : ∀ index, 1 ≤ index → index < 4 →
      closedDifference[index]? = continuedDifference[index]? := by
    intro index behind before
    interval_cases index <;> rfl
  exact ⟨(readings_confined (by decide) agree false _).1,
    (readings_confined (by decide) (fun index behind => agree index (by omega)) false _).2⟩

end TnslReader
