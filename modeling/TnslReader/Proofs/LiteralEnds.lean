import TnslReader.Proofs.LiteralExtents

/-!
Contract: where literals end, in terms of the text alone.

A number is the longest beginning of the text that has the form of one. Quoted text is scanned with
one bit, which says whether the next character is escaped and is set anew at every character. The law
knows no such bit: a character is escaped if an odd number of backslashes stands right before it, and
what counts are the first quote and the first newline that are not.

Owns:
- escaped characters by the backslashes before them, and the first place where one is not escaped;
- that quoted text ends where these say, and numbers where no longer one begins the text;
- that quoted text which is closed takes nothing of what comes behind it.
-/

set_option autoImplicit false

namespace TnslReader.Literal

open TnslReader.Scan

/-! ### Escaped characters -/

/-- Whether a character right behind the text is escaped: the text ends with an odd number of
backslashes. -/
def escapesNext (before : List Char) : Bool :=
  (before.reverse.takeWhile (· == '\\')).length % 2 == 1

/-- A backslash escapes the next character unless it is escaped itself, and nothing else does. -/
theorem escapesNext_concat (before : List Char) (character : Char) :
    escapesNext (before ++ [character]) = (!escapesNext before && character == '\\') := by
  unfold escapesNext
  rw [List.reverse_append, List.reverse_singleton, List.singleton_append]
  by_cases backslash : character = '\\'
  · have parity (count : Nat) : ((count + 1) % 2 == 1) = !(count % 2 == 1) := by
      rcases Nat.mod_two_eq_zero_or_one count with even | odd <;> simp [Nat.add_mod, *]
    rw [List.takeWhile_cons_of_pos (by simpa using backslash), List.length_cons, parity]
    simp [backslash]
  · rw [List.takeWhile_cons_of_neg (by simpa using backslash)]
    simp [backslash]

/-- The first index in the text where the character stands and is not escaped. The text stands
behind `before` in its literal. -/
def firstUnescaped? (before : List Char) (character : Char) (text : List Char) : Option Nat :=
  (List.range text.length).find? fun index =>
    text[index]? == some character && !escapesNext (before ++ text.take index)

section FirstUnescaped

variable {before rest : List Char} {character first : Char}

theorem firstUnescaped?_here (plain : escapesNext before = false) :
    firstUnescaped? before character (character :: rest) = some 0 := by
  rw [firstUnescaped?, List.length_cons, List.range_succ_eq_map]
  simp [plain]

theorem firstUnescaped?_later (passes : escapesNext before = true ∨ first ≠ character) :
    firstUnescaped? before character (first :: rest) =
      (firstUnescaped? (before ++ [first]) character rest).map (· + 1) := by
  have fails : (some first == some character && !escapesNext before) = false := by
    rcases passes with escaped | differs
    · simp [escaped]
    · simp [differs]
  rw [firstUnescaped?, List.length_cons, List.range_succ_eq_map, List.find?_cons]
  simp only [List.getElem?_cons_zero, List.take_zero, List.append_nil, fails, List.find?_map]
  simp [firstUnescaped?, Function.comp_def]

end FirstUnescaped

/-! ### Quoted text -/

/-- How many characters quoted text has behind its opening quote, where `text` stands: those up to
its first unescaped quote and that quote, if it comes before the first unescaped newline, and
otherwise all before that newline, or to the end. -/
def quotedLength (quote : Char) (before text : List Char) : Nat :=
  let line := (firstUnescaped? before '\n' text).getD text.length
  match firstUnescaped? before quote text with
  | some close => if close < line then close + 1 else line
  | none => line

section QuotedLength

variable {quote first : Char} {before rest : List Char}

theorem quotedLength_newline (differs : quote ≠ '\n') (plain : escapesNext before = false) :
    quotedLength quote before ('\n' :: rest) = 0 := by
  unfold quotedLength
  rw [firstUnescaped?_here plain, firstUnescaped?_later (.inr differs.symm)]
  cases firstUnescaped? (before ++ ['\n']) quote rest <;> rfl

theorem quotedLength_quote (differs : quote ≠ '\n') (plain : escapesNext before = false) :
    quotedLength quote before (quote :: rest) = 1 := by
  unfold quotedLength
  rw [firstUnescaped?_here plain, firstUnescaped?_later (.inr differs)]
  cases firstUnescaped? (before ++ [quote]) '\n' rest <;> simp

/-- A character that is escaped, or neither a newline nor the quote, does not end the text. -/
theorem quotedLength_cons
    (goesOn : escapesNext before = true ∨ first ≠ '\n' ∧ first ≠ quote) :
    quotedLength quote before (first :: rest) = quotedLength quote (before ++ [first]) rest + 1 := by
  unfold quotedLength
  rw [firstUnescaped?_later (goesOn.imp_right And.left),
    firstUnescaped?_later (goesOn.imp_right And.right)]
  cases firstUnescaped? (before ++ [first]) '\n' rest <;>
    cases firstUnescaped? (before ++ [first]) quote rest <;>
      simp only [Option.map_none, Option.map_some, Option.getD_none, Option.getD_some,
        List.length_cons] <;> grind

end QuotedLength

/-- The bit that a scan of quoted text carries says whether the next character is escaped, so the
scan cuts the text where the first unescaped quote or newline says. -/
theorem splitQuoted_eq {quote : Char} (differs : quote ≠ '\n') (before text : List Char) :
    splitQuoted quote (escapesNext before) text =
      (text.take (quotedLength quote before text), text.drop (quotedLength quote before text)) := by
  induction text generalizing before with
  | nil => simp [splitQuoted]
  | cons first rest inductionHypothesis =>
      have later := inductionHypothesis (before ++ [first])
      rw [escapesNext_concat] at later
      rw [splitQuoted]
      split_ifs with escaped newline isQuote
      · rw [escaped, Bool.not_true, Bool.false_and] at later
        simp [quotedLength_cons (.inl escaped), later]
      · have plain : escapesNext before = false := by simpa using escaped
        subst newline
        simp [quotedLength_newline differs plain]
      · have plain : escapesNext before = false := by simpa using escaped
        subst isQuote
        simp [quotedLength_quote differs plain]
      · have plain : escapesNext before = false := by simpa using escaped
        rw [plain, Bool.not_false, Bool.true_and] at later
        simp [quotedLength_cons (.inr ⟨newline, isQuote⟩), later]

/-- Quoted text that takes all of a text because it is closed there takes no more of a longer one. -/
theorem splitQuoted_append_of_closed {quote : Char} {before body : List Char}
    (all : splitQuoted quote (escapesNext before) body = (body, []))
    (closed : (firstUnescaped? before quote body).isSome = true) (more : List Char) :
    splitQuoted quote (escapesNext before) (body ++ more) = (body, more) := by
  induction body generalizing before with
  | nil => cases closed
  | cons first rest inductionHypothesis =>
      have later := @inductionHypothesis (before ++ [first])
      rw [escapesNext_concat] at later
      rw [List.cons_append]
      rw [splitQuoted] at all ⊢
      split_ifs at all ⊢ with escaped newline isQuote
      · rw [firstUnescaped?_later (.inl escaped), Option.isSome_map] at closed
        rw [escaped, Bool.not_true, Bool.false_and] at later
        simp only [Prod.mk.injEq, List.cons.injEq, true_and] at all
        rw [later (Prod.ext all.1 all.2) closed]
      · simp at all
      · obtain rfl : rest = [] := (Prod.ext_iff.mp all).2
        rfl
      · have plain : escapesNext before = false := by simpa using escaped
        rw [firstUnescaped?_later (.inr isQuote), Option.isSome_map] at closed
        rw [plain, Bool.not_false, Bool.true_and] at later
        simp only [Prod.mk.injEq, List.cons.injEq, true_and] at all
        rw [later (Prod.ext all.1 all.2) closed]

/-! ### Numbers -/

structure IsLongest (form : List Char → Prop) (text characters : List Char) : Prop where
  begins : text <+: characters
  fits : form text
  longest : ∀ other, other <+: characters → form other → other.length ≤ text.length

/-- A text that begins with a number is cut no earlier than behind it. -/
theorem IsNumber.prefix_splitNumber {text : List Char} (number : IsNumber text)
    (more : List Char) : text <+: (splitNumber (text ++ more)).1 := by
  cases number with
  | whole nonempty areDigits =>
      unfold splitNumber
      rw [List.takeWhile_append_of_pos areDigits]
      split
      · exact (List.prefix_append _ _).trans (List.prefix_append _ _)
      · exact List.prefix_append _ _
  | @decimal digits fraction nonempty areDigits areFraction =>
      have atPoint : Stops isDigit ('.' :: (fraction ++ more)) := stops_cons.mpr (by decide)
      rw [List.append_assoc, List.cons_append]
      unfold splitNumber
      rw [dropWhile_append_of_stops areDigits atPoint, takeWhile_append_of_stops areDigits atPoint]
      change _ <+: digits ++ '.' :: (fraction ++ more).takeWhile isDigit
      rw [List.takeWhile_append_of_pos areFraction]
      exact ⟨more.takeWhile isDigit, by simp⟩

theorem isLongest_splitNumber {first : Char} (digit : isDigit first = true) (rest : List Char) :
    IsLongest IsNumber (splitNumber (first :: rest)).1 (first :: rest) where
  begins := ⟨_, splitNumber_append (first :: rest)⟩
  fits := isNumber_splitNumber digit rest
  longest := by
    rintro other ⟨more, whole⟩ number
    rw [← whole]
    exact (number.prefix_splitNumber more).length_le

/-! ### Steps -/

theorem step_of_isQuote {quote : Char} (quoted : isQuote quote = true) (state : State)
    (rest : List Char) : step state quote rest = takeToken state .literal
      (quote :: (splitQuoted quote false rest).1) (splitQuoted quote false rest).2 := by
  simp [step, isQuote_excludes quoted, quoted]

/-- Where a digit comes next, a step takes the longest number that stands there. Where a quote comes
next, it takes the quote and what follows up to the first unescaped quote of that kind, unless an
unescaped newline or the end of the text comes before that, where it stops. -/
theorem step_takes_literal (state : State) (first : Char) (rest : List Char) :
    (isDigit first = true → ∃ text behind, first :: rest = text ++ behind ∧
      IsLongest IsNumber text (first :: rest) ∧
      step state first rest = takeToken state .literal text behind) ∧
    (isQuote first = true → step state first rest =
      takeToken state .literal (first :: rest.take (quotedLength first [] rest))
        (rest.drop (quotedLength first [] rest))) := by
  constructor
  · intro digit
    refine ⟨_, _, (splitNumber_append (first :: rest)).symm, isLongest_splitNumber digit rest, ?_⟩
    simp [step, isDigit_excludes digit, digit]
  · intro quoted
    have differs : first ≠ '\n' := by
      rintro rfl
      exact absurd quoted (by decide)
    have split : splitQuoted first false rest = _ := splitQuoted_eq differs [] rest
    rw [step_of_isQuote quoted, split]

/-- Of `1.5.2` a step takes `1.5`. Behind a single quote it passes over an escaped one, and ends with
the one behind two backslashes. -/
theorem step_takes_literal_escapedQuote :
    (isDigit '1' = true ∧ ∃ text behind, "1.5.2".toList = text ++ behind ∧
      IsLongest IsNumber text "1.5.2".toList ∧
      step .start '1' ".5.2".toList = takeToken .start .literal text behind) ∧
    isQuote '\'' = true ∧ quotedLength '\'' [] "a\\'b\\\\' c".toList = 7 ∧
    step .start '\'' "a\\'b\\\\' c".toList =
      takeToken .start .literal "'a\\'b\\\\'".toList " c".toList := by
  have length : quotedLength '\'' [] "a\\'b\\\\' c".toList = 7 := by decide +kernel
  refine ⟨⟨by decide, (step_takes_literal .start '1' ".5.2".toList).1 (by decide)⟩, by decide,
    length, ?_⟩
  have taken := (step_takes_literal .start '\'' "a\\'b\\\\' c".toList).2 (by decide)
  rwa [length] at taken

end TnslReader.Literal
