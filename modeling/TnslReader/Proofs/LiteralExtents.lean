import Mathlib.Data.List.TakeWhile
import TnslReader.Proofs.CharacterKinds

/-!
Contract: what the scans of literals take, and what they take of a longer text.

A scan looks at no more than one character behind the literal. So if anything is left behind a
literal, more text behind that changes nothing, and the literal alone is scanned to itself.

Owns:
- the form of numbers;
- the extent of a literal in a text that goes on, and before the end of a line.
-/

set_option autoImplicit false

namespace TnslReader.Literal

open TnslReader.Scan

/-! ### Numbers -/

/-- The form of numbers: digits, then at most one point, then perhaps digits. -/
inductive IsNumber : List Char → Prop where
  | whole {digits : List Char} (nonempty : digits ≠ [])
      (areDigits : ∀ character ∈ digits, isDigit character = true) : IsNumber digits
  | decimal {digits fraction : List Char} (nonempty : digits ≠ [])
      (areDigits : ∀ character ∈ digits, isDigit character = true)
      (areFraction : ∀ character ∈ fraction, isDigit character = true) :
      IsNumber (digits ++ '.' :: fraction)

theorem IsNumber.exists_cons {text : List Char} (number : IsNumber text) :
    ∃ first rest, text = first :: rest ∧ isDigit first = true := by
  cases number with
  | whole nonempty areDigits =>
      obtain ⟨first, rest, rfl⟩ := List.exists_cons_of_ne_nil nonempty
      exact ⟨first, rest, rfl, areDigits first List.mem_cons_self⟩
  | decimal nonempty areDigits =>
      obtain ⟨first, rest, rfl⟩ := List.exists_cons_of_ne_nil nonempty
      exact ⟨first, _, rfl, areDigits first List.mem_cons_self⟩

theorem IsNumber.digit_or_point {text : List Char} (number : IsNumber text) :
    ∀ character ∈ text, isDigit character = true ∨ character = '.' := by
  intro character member
  cases number with
  | whole nonempty areDigits => exact .inl (areDigits character member)
  | decimal nonempty areDigits areFraction =>
      rcases List.mem_append.mp member with inDigits | behind
      · exact .inl (areDigits character inDigits)
      · rcases List.mem_cons.mp behind with isPoint | inFraction
        · exact .inr isPoint
        · exact .inl (areFraction character inFraction)

theorem splitNumber_whole {digits rest : List Char}
    (areDigits : ∀ character ∈ digits, isDigit character = true) (stops : Stops isDigit rest)
    (noPoint : rest.head? ≠ some '.') : splitNumber (digits ++ rest) = (digits, rest) := by
  unfold splitNumber
  rw [dropWhile_append_of_stops areDigits stops, takeWhile_append_of_stops areDigits stops]
  split
  · exact absurd rfl noPoint
  · rfl

theorem splitNumber_decimal {digits fraction rest : List Char}
    (areDigits : ∀ character ∈ digits, isDigit character = true)
    (areFraction : ∀ character ∈ fraction, isDigit character = true)
    (stops : Stops isDigit rest) :
    splitNumber (digits ++ '.' :: (fraction ++ rest)) = (digits ++ '.' :: fraction, rest) := by
  have atPoint : Stops isDigit ('.' :: (fraction ++ rest)) := stops_cons.mpr (by decide)
  unfold splitNumber
  rw [dropWhile_append_of_stops areDigits atPoint, takeWhile_append_of_stops areDigits atPoint]
  simp only [dropWhile_append_of_stops areFraction stops,
    takeWhile_append_of_stops areFraction stops]

/-- Where the text is cut, in terms of the text alone. -/
theorem splitNumber_cases (characters : List Char) :
    (∃ digits rest, characters = digits ++ rest ∧
      (∀ character ∈ digits, isDigit character = true) ∧ Stops isDigit rest ∧
      rest.head? ≠ some '.' ∧ splitNumber characters = (digits, rest)) ∨
    (∃ digits fraction rest, characters = digits ++ '.' :: (fraction ++ rest) ∧
      (∀ character ∈ digits, isDigit character = true) ∧
      (∀ character ∈ fraction, isDigit character = true) ∧ Stops isDigit rest ∧
      splitNumber characters = (digits ++ '.' :: fraction, rest)) := by
  have areDigits : ∀ text : List Char, ∀ character ∈ text.takeWhile isDigit,
      isDigit character = true := fun text character => List.mem_takeWhile_imp
  have whole := List.takeWhile_append_dropWhile (p := isDigit) (l := characters)
  have stops := stops_dropWhile isDigit characters
  by_cases point : ∃ behind, characters.dropWhile isDigit = '.' :: behind
  · obtain ⟨behind, equation⟩ := point
    have fraction := List.takeWhile_append_dropWhile (p := isDigit) (l := behind)
    have cut : characters = characters.takeWhile isDigit ++
        '.' :: (behind.takeWhile isDigit ++ behind.dropWhile isDigit) := by
      rw [fraction, ← equation, whole]
    refine .inr ⟨_, _, _, cut, areDigits _, areDigits _, stops_dropWhile isDigit behind, ?_⟩
    conv_lhs => rw [cut]
    exact splitNumber_decimal (areDigits _) (areDigits _) (stops_dropWhile isDigit behind)
  · have noPoint : (characters.dropWhile isDigit).head? ≠ some '.' := by
      intro head
      obtain ⟨behind, equation⟩ := List.head?_eq_some_iff.mp head
      exact point ⟨behind, equation⟩
    refine .inl ⟨_, _, whole.symm, areDigits _, stops, noPoint, ?_⟩
    conv_lhs => rw [← whole]
    exact splitNumber_whole (areDigits _) stops noPoint

theorem isNumber_splitNumber {first : Char} (digit : isDigit first = true) (rest : List Char) :
    IsNumber (splitNumber (first :: rest)).1 := by
  rcases splitNumber_cases (first :: rest) with
    ⟨digits, behind, cut, areDigits, stops, noPoint, split⟩ |
    ⟨digits, fraction, behind, cut, areDigits, areFraction, stops, split⟩
  · rw [split]
    refine .whole ?_ areDigits
    rintro rfl
    rw [List.nil_append] at cut
    rw [← cut, stops_cons, digit] at stops
    cases stops
  · rw [split]
    refine .decimal ?_ areDigits areFraction
    rintro rfl
    rw [List.nil_append, List.cons.injEq] at cut
    rw [cut.1] at digit
    revert digit
    decide

/-- If something is left behind a number, more text behind that is left as well. -/
theorem splitNumber_append_of_ne_nil {characters : List Char}
    (left : (splitNumber characters).2 ≠ []) (more : List Char) :
    splitNumber (characters ++ more) =
      ((splitNumber characters).1, (splitNumber characters).2 ++ more) := by
  rcases splitNumber_cases characters with
    ⟨digits, rest, rfl, areDigits, stops, noPoint, split⟩ |
    ⟨digits, fraction, rest, rfl, areDigits, areFraction, stops, split⟩
  · rw [split] at left ⊢
    rw [List.append_assoc]
    refine splitNumber_whole areDigits (stops.append left more) ?_
    rwa [List.head?_append, Option.or_of_isSome (List.isSome_head?.mpr left)]
  · rw [split] at left ⊢
    rw [List.append_assoc, List.cons_append, List.append_assoc]
    exact splitNumber_decimal areDigits areFraction (stops.append left more)

/-- A number is scanned to itself where nothing that may belong to a number comes behind it. -/
theorem splitNumber_isNumber {text rest : List Char} (number : IsNumber text)
    (stops : Stops isDigit rest) (noPoint : rest.head? ≠ some '.') :
    splitNumber (text ++ rest) = (text, rest) := by
  cases number with
  | whole nonempty areDigits => exact splitNumber_whole areDigits stops noPoint
  | decimal nonempty areDigits areFraction =>
      rw [List.append_assoc, List.cons_append]
      exact splitNumber_decimal areDigits areFraction stops

/-! ### Quoted text -/

/-- If something is left behind quoted text, more text behind that is left as well. -/
theorem splitQuoted_append_of_ne_nil {quote : Char} {escaped : Bool} {characters : List Char}
    (left : (splitQuoted quote escaped characters).2 ≠ []) (more : List Char) :
    splitQuoted quote escaped (characters ++ more) =
      ((splitQuoted quote escaped characters).1,
        (splitQuoted quote escaped characters).2 ++ more) := by
  induction characters generalizing escaped with
  | nil => exact absurd rfl left
  | cons character rest inductionHypothesis =>
      rw [List.cons_append]
      unfold splitQuoted at left ⊢
      split_ifs at left ⊢
      · rw [inductionHypothesis left]
      · rfl
      · rfl
      · rw [inductionHypothesis left]

/-- Quoted text that something is left behind is scanned to itself before the end of a line. -/
theorem splitQuoted_again {quote : Char} {escaped : Bool} {characters more : List Char}
    (left : (splitQuoted quote escaped characters).2 ≠ []) (ends : Stops (· != '\n') more) :
    splitQuoted quote escaped ((splitQuoted quote escaped characters).1 ++ more) =
      ((splitQuoted quote escaped characters).1, more) := by
  induction characters generalizing escaped with
  | nil => exact absurd rfl left
  | cons character rest inductionHypothesis =>
      unfold splitQuoted at left
      rw [splitQuoted]
      split_ifs at left ⊢ with isEscaped newline isQuote
      · rw [List.cons_append, splitQuoted, if_pos isEscaped, inductionHypothesis left]
      · cases more with
        | nil => rfl
        | cons first more =>
            have isNewline : first = '\n' := by simpa using stops_cons.mp ends
            rw [List.nil_append, splitQuoted, if_neg isEscaped, if_pos isNewline]
      · rw [List.cons_append, splitQuoted, if_neg isEscaped, if_neg newline, if_pos isQuote]
        rfl
      · rw [List.cons_append, splitQuoted, if_neg isEscaped, if_neg newline, if_neg isQuote,
          inductionHypothesis left]

end TnslReader.Literal
