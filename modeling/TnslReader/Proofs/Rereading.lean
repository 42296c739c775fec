import Mathlib.Data.List.Forall2
import TnslReader.Proofs.LexicalClasses
import TnslReader.Proofs.TokenFacts

/-!
Contract: what one text is read as from two places, in two contexts.

A place has no say in what a text is read as. A context has one in the class of directive words and
in nothing else: not in where a token ends, and so not in what is a comment either. This is the
crux of moving text about, as the same text is then scanned from another state.

Owns:
- what a token is apart from its place, and what two contexts may make of the same text;
- that scanning, and removing comments, keep tokens alike that were so.
-/

set_option autoImplicit false

namespace TnslReader

namespace Token

def reading (token : Token) : TokenClass × String :=
  (token.tokenClass, token.text)

theorem isCommentMarker_eq_of_reading {token other : Token}
    (same : token.reading = other.reading) : token.isCommentMarker = other.isCommentMarker := by
  obtain ⟨sameClass, sameText⟩ := Prod.mk.inj same
  simp only [isCommentMarker, marker?, sameClass, sameText]

/-- Whether two tokens are the same apart from their places and, where the contexts that they are
read in differ, apart from the class of a directive word. -/
structure Alike (differ : Prop) (token other : Token) : Prop where
  text_eq : token.text = other.text
  tokenClass_eq : token.tokenClass = other.tokenClass ∨
    differ ∧ (DirectiveWord.ofSpelling? token.text).isSome = true
  marker?_eq : token.marker? = other.marker?

theorem alike_of_reading {differ : Prop} {token other : Token}
    (same : token.reading = other.reading) : Alike differ token other := by
  obtain ⟨sameClass, sameText⟩ := Prod.mk.inj same
  refine ⟨sameText, .inl sameClass, ?_⟩
  simp only [marker?, sameClass, sameText]

theorem Alike.mono {differ weaker : Prop} {token other : Token} (alike : Alike differ token other)
    (implies : differ → weaker) : Alike weaker token other :=
  ⟨alike.text_eq, alike.tokenClass_eq.imp_right (And.imp_left implies), alike.marker?_eq⟩

theorem Alike.reading_eq {differ : Prop} {token other : Token} (alike : Alike differ token other)
    (same : ¬differ) : token.reading = other.reading := by
  rcases alike.tokenClass_eq with sameClass | ⟨differs, -⟩
  · exact Prod.ext sameClass alike.text_eq
  · exact absurd differs same

end Token

/-- A word that is no directive word has the same class in all contexts. -/
theorem classifyWord_eq {text : String} (other : DirectiveWord.ofSpelling? text = none)
    (context otherContext : Bool) : classifyWord text context = classifyWord text otherContext := by
  simp [classifyWord, other]

namespace Scan

/-! ### Scanning -/

theorem forall₂_groupTokens (differ : Prop) (position otherPosition : Position)
    (groups : List (List Char)) :
    List.Forall₂ (Token.Alike differ) (groupTokens position groups)
      (groupTokens otherPosition groups) := by
  induction groups generalizing position otherPosition with
  | nil => exact .nil
  | cons group groups inductionHypothesis =>
      exact .cons (Token.alike_of_reading rfl) (inductionHypothesis _ _)

/-- From another state a step takes the same text. -/
theorem Takes.elsewhere {state : State} {text : List Char} {taken : Step}
    (takes : Takes state text taken) (other : State) :
    ∃ otherTaken, Takes other text otherTaken ∧ otherTaken.rest = taken.rest ∧
      (state.inPreprocessor = other.inPreprocessor →
        taken.state.inPreprocessor = otherTaken.state.inPreprocessor) ∧
      List.Forall₂ (Token.Alike (state.inPreprocessor ≠ other.inPreprocessor)) taken.tokens
        otherTaken.tokens := by
  cases takes with
  | blank blank => exact ⟨_, .blank blank, rfl, id, .nil⟩
  | number number split =>
      exact ⟨_, .number number split, rfl, id, .cons (Token.alike_of_reading rfl) .nil⟩
  | quoted quoted split =>
      exact ⟨_, .quoted quoted split, rfl, id, .cons (Token.alike_of_reading rfl) .nil⟩
  | groups nonempty reserved cut bare stops =>
      exact ⟨_, .groups nonempty reserved cut bare stops, rfl,
        congrArg (contextAfterGroups · _), forall₂_groupTokens _ _ _ _⟩
  | lineComment reserved cut bare stops within ends =>
      exact ⟨_, .lineComment reserved cut bare stops within ends, rfl,
        congrArg (contextAfterGroups · _), forall₂_groupTokens _ _ _ _⟩
  | @word word rest nonempty continues noDigit stops =>
      refine ⟨_, .word nonempty continues noDigit stops, rfl, id, .cons ?_ .nil⟩
      refine ⟨rfl, ?_, ?_⟩
      · by_cases same : state.inPreprocessor = other.inPreprocessor
        · exact .inl (congrArg (classifyWord (String.ofList word)) same)
        · cases directive : DirectiveWord.ofSpelling? (String.ofList word) with
          | none => exact .inl (classifyWord_eq directive _ _)
          | some found => exact .inr ⟨same, by simp [tokenAt, directive]⟩
      · rw [(Lexeme.word nonempty continues noDigit).marker?_eq,
          (Lexeme.word nonempty continues noDigit).marker?_eq]

theorem forall₂_tokensFrom (state other : State) (text : List Char) :
    (state.inPreprocessor = other.inPreprocessor →
      (stateAfter state text).inPreprocessor = (stateAfter other text).inPreprocessor) ∧
    List.Forall₂ (Token.Alike (state.inPreprocessor ≠ other.inPreprocessor))
      (tokensFrom state text) (tokensFrom other text) := by
  induction state, text using scan_induction generalizing other with
  | nil state => simp
  | cons state first rest inductionHypothesis =>
      obtain ⟨otherTaken, takes, sameRest, sameContext, alike⟩ :=
        (takes_step state first rest).elsewhere other
      rw [tokensFrom_cons, tokensFrom_cons, stateAfter_cons, stateAfter_cons, takes.step_eq,
        sameRest]
      obtain ⟨contexts, later⟩ := inductionHypothesis otherTaken.state
      refine ⟨fun same => contexts (sameContext same), List.rel_append alike ?_⟩
      apply later.imp
      intro token other laterAlike
      exact laterAlike.mono fun differs same => differs (sameContext same)

end Scan

namespace Comment

/-! ### Removing comments -/

theorem alike_resolve {differ : Prop} {token other : Token} (alike : token.Alike differ other)
    (inComment : Bool) :
    (resolve inComment token).2 = (resolve inComment other).2 ∧
      List.Forall₂ (Token.Alike differ) (resolve inComment token).1.toList
        (resolve inComment other).1.toList := by
  have outside : List.Forall₂ (Token.Alike differ) (if inComment then none else some token).toList
      (if inComment then none else some other).toList := by
    cases inComment with
    | true => exact .nil
    | false => exact .cons alike .nil
  cases found : token.marker? with
  | none =>
      have otherFound : other.marker? = none := alike.marker?_eq ▸ found
      unfold resolve
      rw [found, otherFound]
      exact ⟨rfl, outside⟩
  | some marker =>
      have otherFound : other.marker? = some marker := alike.marker?_eq ▸ found
      have sameClass : token.tokenClass = other.tokenClass :=
        (Token.tokenClass_of_marker? found).trans (Token.tokenClass_of_marker? otherFound).symm
      have respelled : ∀ left : Option Marker, List.Forall₂ (Token.Alike differ)
          (left.map fun left => token.respelled token.tokenClass left.spelling).toList
          (left.map fun left => other.respelled other.tokenClass left.spelling).toList := by
        intro left
        cases left with
        | none => exact .nil
        | some left => exact .cons (Token.alike_of_reading (Prod.ext sameClass rfl)) .nil
      unfold resolve
      rw [found, otherFound]
      by_cases opens : marker.opensComment = true
      · simp only [opens, if_true, true_and]
        cases inComment with
        | true => exact .nil
        | false => exact respelled marker.leftByOpening?
      · by_cases closes : marker.closesComment = true
        · simp only [opens, closes, Bool.false_eq_true, if_false, if_true, true_and]
          cases leftBy : marker.leftByClosing? with
          | none => exact outside
          | some left => exact respelled (some left)
        · simp only [opens, closes, Bool.false_eq_true, if_false, true_and]
          exact outside

theorem forall₂_remains {differ : Prop} {tokens others : List Token}
    (alike : List.Forall₂ (Token.Alike differ) tokens others) (inComment : Bool) :
    List.Forall₂ (Token.Alike differ) (remains inComment tokens) (remains inComment others) := by
  induction alike generalizing inComment with
  | nil => exact .nil
  | @cons token other tokens others here later inductionHypothesis =>
      obtain ⟨sameComment, resolved⟩ := alike_resolve here inComment
      rw [remains, remains, sameComment]
      exact List.rel_append resolved (inductionHypothesis _)

end Comment

end TnslReader
