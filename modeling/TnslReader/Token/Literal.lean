/-!
Contract: how far a numeric or quoted literal reaches.

Each scan gives the text of the literal and the characters behind it; the two together are always
the characters that were scanned.

Does not own: where a literal may begin.
-/

set_option autoImplicit false

namespace TnslReader.Literal

def isDigit (character : Char) : Bool :=
  '0' ≤ character && character ≤ '9'

/-- Splits off a number: ASCII digits with at most one point, which the digits may end with. -/
def splitNumber (characters : List Char) : List Char × List Char :=
  match characters.dropWhile isDigit with
  | '.' :: rest =>
      (characters.takeWhile isDigit ++ '.' :: rest.takeWhile isDigit, rest.dropWhile isDigit)
  | rest => (characters.takeWhile isDigit, rest)

/-- Splits off the rest of a literal opened by `quote`. It ends with the next unescaped quote of
that kind, or before an unescaped newline, or with the text. A backslash that is not itself escaped
escapes the character behind it. -/
def splitQuoted (quote : Char) (escaped : Bool) : List Char → List Char × List Char
  | [] => ([], [])
  | character :: rest =>
      if escaped then
        let (body, behind) := splitQuoted quote false rest
        (character :: body, behind)
      else if character = '\n' then
        ([], character :: rest)
      else if character = quote then
        ([character], rest)
      else
        let (body, behind) := splitQuoted quote (character == '\\') rest
        (character :: body, behind)

theorem splitQuoted_append (quote : Char) (escaped : Bool) (characters : List Char) :
    (splitQuoted quote escaped characters).1 ++ (splitQuoted quote escaped characters).2 =
      characters := by
  induction characters generalizing escaped with
  | nil => rfl
  | cons character rest inductionHypothesis =>
      unfold splitQuoted
      split
      · simp [inductionHypothesis]
      · split
        · rfl
        · split
          · rfl
          · simp [inductionHypothesis]

theorem splitNumber_append (characters : List Char) :
    (splitNumber characters).1 ++ (splitNumber characters).2 = characters := by
  have whole := List.takeWhile_append_dropWhile (p := isDigit) (l := characters)
  unfold splitNumber
  split
  · rename_i rest equation
    rw [equation] at whole
    simpa [List.append_assoc] using whole
  · exact whole

end TnslReader.Literal
