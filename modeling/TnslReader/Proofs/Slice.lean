import Mathlib.Tactic
import TnslReader.Token

/-!
Contract: the tokens of a range as a list.

The readings work on ranges of indexes, and the grammar speaks of lists of tokens. The lemmas here
carry facts from one to the other: a slice splits where its range splits, and wherever a slice is
known to be a concatenation, its range splits at the seam.
-/

set_option autoImplicit false

namespace TnslReader

def slice (tokens : Array Token) (low high : Nat) : List Token :=
  (tokens.toList.take high).drop low

variable {tokens : Array Token} {low high : Nat}

theorem slice_eq_nil (tokens : Array Token) {low high : Nat} (empty : high ≤ low) :
    slice tokens low high = [] := by
  simp only [slice, List.drop_eq_nil_iff, List.length_take]
  omega

theorem slice_eq_cons {token : Token} (present : tokens[low]? = some token)
    (inside : low < high) : slice tokens low high = token :: slice tokens (low + 1) high := by
  obtain ⟨bound, found⟩ := Array.getElem?_eq_some_iff.mp present
  unfold slice
  rw [List.drop_eq_getElem_cons (by simp; omega)]
  simp [found]

theorem slice_append (tokens : Array Token) {low mid high : Nat} (low_le_mid : low ≤ mid)
    (mid_le_high : mid ≤ high) :
    slice tokens low mid ++ slice tokens mid high = slice tokens low high := by
  unfold slice
  have shorter : tokens.toList.take mid = (tokens.toList.take high).take mid := by
    rw [List.take_take, Nat.min_eq_left mid_le_high]
  have later : (tokens.toList.take high).drop mid =
      ((tokens.toList.take high).drop low).drop (mid - low) := by
    rw [List.drop_drop, Nat.add_sub_cancel' low_le_mid]
  rw [shorter, List.drop_take, later, List.take_append_drop]

/-- One token more at the end of a range. -/
theorem slice_succ {index : Nat} {token : Token} (present : tokens[index]? = some token)
    (low_le_index : low ≤ index) :
    slice tokens low (index + 1) = slice tokens low index ++ [token] := by
  rw [← slice_append tokens low_le_index (Nat.le_succ index),
    slice_eq_cons present (Nat.lt_succ_self index), slice_eq_nil tokens (Nat.le_refl _)]

theorem slice_all (tokens : Array Token) : slice tokens 0 tokens.size = tokens.toList := by
  simp [slice]

theorem length_slice (bound : high ≤ tokens.size) :
    (slice tokens low high).length = high - low := by
  simp only [slice, List.length_drop, List.length_take, Array.length_toList]
  omega

/-- A slice that begins with a token has it at its lower bound. -/
theorem eq_cons_of_slice {token : Token} {rest : List Token}
    (equal : slice tokens low high = token :: rest) :
    low < high ∧ tokens[low]? = some token ∧ slice tokens (low + 1) high = rest := by
  have inside : low < high := by
    by_contra empty
    rw [slice_eq_nil tokens (Nat.not_lt.mp empty)] at equal
    cases equal
  cases present : tokens[low]? with
  | none =>
      have beyond := Array.getElem?_eq_none_iff.mp present
      have empty : slice tokens low high = [] := by
        simp only [slice, List.drop_eq_nil_iff, List.length_take, Array.length_toList]
        omega
      rw [empty] at equal
      cases equal
  | some found =>
      rw [slice_eq_cons present inside] at equal
      cases equal
      exact ⟨inside, rfl, rfl⟩

/-- The range of a slice splits at the seam of a concatenation. -/
theorem eq_append_of_slice {left right : List Token}
    (equal : slice tokens low high = left ++ right) (ordered : low ≤ high)
    (bound : high ≤ tokens.size) :
    ∃ mid, low ≤ mid ∧ mid ≤ high ∧ slice tokens low mid = left ∧
      slice tokens mid high = right := by
  have lengths := congrArg List.length equal
  rw [length_slice bound, List.length_append] at lengths
  refine ⟨low + left.length, by omega, by omega, ?_⟩
  rw [← slice_append tokens (show low ≤ low + left.length by omega) (by omega)] at equal
  exact List.append_inj equal (by rw [length_slice (by omega)]; omega)

/-- The slice of a bracket pair and what comes behind it. -/
theorem slice_eq_pair {opener closer : Token} {index close next : Nat}
    (present : tokens[index]? = some opener) (index_lt_close : index < close)
    (closerPresent : tokens[close]? = some closer) (close_lt_next : close < next) :
    slice tokens index next =
      opener :: (slice tokens (index + 1) close ++ closer :: slice tokens (close + 1) next) := by
  rw [slice_eq_cons present (Nat.lt_trans index_lt_close close_lt_next),
    ← slice_append tokens index_lt_close (Nat.le_of_lt close_lt_next),
    slice_eq_cons closerPresent close_lt_next]

/-- The range of a slice that is a bracket pair and what comes behind it. -/
theorem eq_pair_of_slice {opener closer : Token} {text rest : List Token}
    (equal : slice tokens low high = opener :: (text ++ closer :: rest))
    (bound : high ≤ tokens.size) :
    ∃ close, low < close ∧ close < high ∧ tokens[low]? = some opener ∧
      slice tokens (low + 1) close = text ∧ tokens[close]? = some closer ∧
      slice tokens (close + 1) high = rest := by
  obtain ⟨low_lt_high, present, equal⟩ := eq_cons_of_slice equal
  obtain ⟨close, low_lt_close, close_le_high, inside, equal⟩ :=
    eq_append_of_slice equal low_lt_high bound
  obtain ⟨close_lt_high, closerPresent, outside⟩ := eq_cons_of_slice equal
  exact ⟨close, low_lt_close, close_lt_high, present, inside, closerPresent, outside⟩

/-- An empty slice has an empty range. -/
theorem eq_of_slice_eq_nil (equal : slice tokens low high = []) (ordered : low ≤ high)
    (bound : high ≤ tokens.size) : low = high := by
  have length := congrArg List.length equal
  rw [length_slice bound, List.length_nil] at length
  omega

/-- The range of a slice with tokens in it is not empty. -/
theorem lt_of_slice {text : List Token} (equal : slice tokens low high = text)
    (nonempty : 0 < text.length) : low < high := by
  by_contra empty
  rw [slice_eq_nil tokens (Nat.not_lt.mp empty)] at equal
  simp [← equal] at nonempty

end TnslReader
