import TnslReader.Vocabulary.DirectiveWord
import TnslReader.Vocabulary.Keyword
import TnslReader.Vocabulary.Marker
import TnslReader.Vocabulary.Operator
import TnslReader.Vocabulary.Rune

/-!
Contract: the class of a rune, of a group of runes and of a word.

Classification looks a text up in the vocabulary and keeps no state. The one piece of context that
it depends on, whether a word stands in preprocessor context, is an argument; `contextAfter?` says
how separators and markers change that context.
-/

set_option autoImplicit false

namespace TnslReader

def classifyRune (rune : Char) : Option TokenClass :=
  (ReservedRune.find? rune).map (·.tokenClass)

/-- Whether no word may contain the rune. -/
def isReserved (rune : Char) : Bool :=
  (classifyRune rune).isSome

/-- The class of a group of several runes: markers are delimiters, and every other group is an
operator that is not a word. -/
def classifyCompound (text : String) : Option TokenClass :=
  match Marker.ofSpelling? text with
  | some _ => some .delimiter
  | none =>
      match Operator.ofSpelling? text with
      | some operator => if operator.isWordOperator then none else some .operator
      | none => none

def classifyGroup (text : String) : Option TokenClass :=
  match text.toList with
  | [] => none
  | [rune] => classifyRune rune
  | _ => classifyCompound text

/-- The class of a word. In preprocessor context a directive word wins over a reserved word of the
same spelling; every word that is not reserved is a user word. -/
def classifyWord (text : String) (inPreprocessor : Bool) : TokenClass :=
  if inPreprocessor && (DirectiveWord.ofSpelling? text).isSome then
    .directiveWord
  else
    match Keyword.ofSpelling? text with
    | some keyword => keyword.tokenClass
    | none => .userWord

def maxGroupLength : Nat :=
  let markers := Marker.all.map (·.spelling.length)
  let operators := (Operator.all.filter (!·.isWordOperator)).map (·.spelling.length)
  (markers ++ operators).foldl max 1

/-- What a separator or marker does to the preprocessor context: `true` enters it, `false` leaves
it for code, and `none` keeps it. -/
def contextAfter? (text : String) : Option Bool :=
  if text = ":" then some true
  else if text = ";" then some false
  else
    match Marker.ofSpelling? text with
    | none => none
    | some marker =>
        match marker.opens?, marker.role with
        | some .preprocessor, _ => some true
        | some .code, _ => some false
        | _, .closes => some false
        | _, _ => none

end TnslReader
