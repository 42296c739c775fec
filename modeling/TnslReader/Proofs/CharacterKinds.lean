import Mathlib.Tactic.IntervalCases
import TnslReader.Token.Scan

/-!
Contract: the kinds of characters that scanning tells apart.

A blank, a digit, a quote and a reserved rune exclude one another, so the first character alone
decides what a step of scanning takes. A digit may stand within a word; the others end it.

Owns:
- what each kind says about the others;
- what may follow a text that a test on characters ends.
-/

set_option autoImplicit false

namespace TnslReader

variable {character : Char}

theorem isReserved_iff :
    isReserved character = true ↔ ∃ entry ∈ ReservedRune.all, entry.rune = character := by
  simp [isReserved, classifyRune, ReservedRune.find?, List.find?_isSome]

namespace Scan

theorem isQuote_iff : isQuote character = true ↔ character = '"' ∨ character = '\'' := by
  simp [isQuote]

theorem isDigit_iff :
    Literal.isDigit character = true ↔ 48 ≤ character.toNat ∧ character.toNat ≤ 57 := by
  simp only [Literal.isDigit, Bool.and_eq_true, decide_eq_true_eq, Char.le_def,
    UInt32.le_iff_toNat_le]
  rfl

/-! ### Each kind excludes the others -/

theorem isReserved_excludes (reserved : isReserved character = true) :
    isBlank character = false ∧ Literal.isDigit character = false ∧
      isQuote character = false := by
  have entries : ∀ entry ∈ ReservedRune.all, isBlank entry.rune = false ∧
      Literal.isDigit entry.rune = false ∧ isQuote entry.rune = false := by decide
  obtain ⟨entry, member, rfl⟩ := isReserved_iff.mp reserved
  exact entries entry member

theorem isQuote_excludes (quote : isQuote character = true) :
    isBlank character = false ∧ Literal.isDigit character = false ∧
      isReserved character = false := by
  rcases isQuote_iff.mp quote with rfl | rfl <;> decide

theorem isDigit_excludes (digit : Literal.isDigit character = true) :
    isBlank character = false ∧ isQuote character = false ∧ isReserved character = false := by
  obtain ⟨least, most⟩ := isDigit_iff.mp digit
  rw [← Char.ofNat_toNat character]
  generalize character.toNat = code at least most
  interval_cases code <;> decide

theorem continuesWord_iff : continuesWord character = true ↔
    isBlank character = false ∧ isQuote character = false ∧ isReserved character = false := by
  simp [continuesWord, and_assoc]

theorem continuesWord_eq_false_of_isBlank (blank : isBlank character = true) :
    continuesWord character = false := by
  simp [continuesWord, blank]

theorem isReserved_eq_false_of_isBlank (blank : isBlank character = true) :
    isReserved character = false := by
  by_contra reserved
  rw [(isReserved_excludes (by simpa using reserved)).1] at blank
  cases blank

theorem isDigit_eq_false_of_isBlank (blank : isBlank character = true) :
    Literal.isDigit character = false := by
  by_contra digit
  rw [(isDigit_excludes (by simpa using digit)).1] at blank
  cases blank

/-! ### Where a test stops -/

/-- Whether a run of characters that pass the test ends before the text. -/
def Stops (test : Char → Bool) (text : List Char) : Prop :=
  ∀ character ∈ text.head?, test character = false

section Stops

variable {test : Char → Bool}

theorem stops_nil : Stops test [] := by
  intro character member
  cases member

theorem stops_cons {text : List Char} : Stops test (character :: text) ↔
    test character = false := by
  simp [Stops]

theorem stops_dropWhile (test : Char → Bool) (text : List Char) :
    Stops test (text.dropWhile test) := by
  intro character member
  have fails := List.head?_dropWhile_not test text
  rw [Option.mem_def.mp member] at fails
  simpa using fails

theorem Stops.append {text : List Char} (stops : Stops test text) (nonempty : text ≠ [])
    (more : List Char) : Stops test (text ++ more) := by
  cases text with
  | nil => exact absurd rfl nonempty
  | cons first rest => exact stops_cons.mpr (stops_cons.mp stops)

theorem takeWhile_append_of_stops {text rest : List Char} (passes : ∀ one ∈ text, test one = true)
    (stops : Stops test rest) : (text ++ rest).takeWhile test = text := by
  rw [List.takeWhile_append_of_pos passes]
  cases rest with
  | nil => simp
  | cons first rest => simp [stops_cons.mp stops]

theorem dropWhile_append_of_stops {text rest : List Char} (passes : ∀ one ∈ text, test one = true)
    (stops : Stops test rest) : (text ++ rest).dropWhile test = rest := by
  rw [List.dropWhile_append_of_pos passes]
  cases rest with
  | nil => rfl
  | cons first rest => simp [stops_cons.mp stops]

end Stops

end Scan

end TnslReader
