import Mathlib.Data.List.Induction
import TnslReader.Proofs.ScanRuns

/-!
Contract: how the tokens of a scan lie in the text that was scanned.

The text is the texts of the tokens in order, with skipped text between them: blanks, and line
comments. Where a token stands is what comes before it, counted in bytes, lines and characters.

Owns:
- what the text of a scanned token can be, for each class;
- that scanning lays tokens out, and what follows of their places.

Does not own: tokens that are left behind when comments are removed.
-/

set_option autoImplicit false

namespace TnslReader

namespace Position

/-! ### Counting -/

theorem offset_afterAll (position : Position) (text : List Char) :
    (position.afterAll text).offset = position.offset + (String.ofList text).utf8ByteSize := by
  induction text generalizing position with
  | nil => simp
  | cons character rest inductionHypothesis =>
      have next : (position.after character).offset = position.offset + character.utf8Size := by
        unfold after
        split_ifs <;> rfl
      rw [afterAll_cons, inductionHypothesis, next, ← List.singleton_append]
      simp only [String.ofList_append, String.utf8ByteSize_append, ← String.singleton_eq_ofList,
        String.utf8ByteSize_singleton]
      omega

def lastLine (text : List Char) : List Char :=
  (text.reverse.takeWhile (· != '\n')).reverse

theorem lastLine_newline (text : List Char) : lastLine (text ++ ['\n']) = [] := by
  simp [lastLine]

theorem lastLine_append {character : Char} (text : List Char) (other : character ≠ '\n') :
    lastLine (text ++ [character]) = lastLine text ++ [character] := by
  simp [lastLine, other]

theorem line_afterAll (position : Position) (text : List Char) :
    (position.afterAll text).line = position.line + text.count '\n' := by
  induction text generalizing position with
  | nil => simp
  | cons character rest inductionHypothesis =>
      rw [afterAll_cons, inductionHypothesis, List.count_cons]
      by_cases newline : character = '\n'
      · simp [after, newline]
        omega
      · simp [after, newline]

theorem column_afterAll (text : List Char) :
    (start.afterAll text).column = (lastLine text).length + 1 := by
  induction text using List.reverseRecOn with
  | nil => rfl
  | append_singleton text character inductionHypothesis =>
      rw [afterAll_append]
      by_cases newline : character = '\n'
      · rw [newline, lastLine_newline]
        rfl
      · rw [lastLine_append text newline, List.length_append, List.length_singleton]
        simp only [afterAll_cons, afterAll_nil, after, newline, if_false, inductionHypothesis]

end Position

def Span.Covers (span : Span) (offset : Nat) : Prop :=
  span.start ≤ offset ∧ offset < span.stop

instance (span : Span) (offset : Nat) : Decidable (span.Covers offset) :=
  inferInstanceAs (Decidable (_ ∧ _))

namespace Scan

/-! ### Texts of tokens -/

/-- What the text of a scanned token can be, for each class. -/
inductive Lexeme : TokenClass → List Char → Prop where
  | number {text : List Char} (number : Literal.IsNumber text) : Lexeme .literal text
  | quoted {quote : Char} {body rest : List Char} (quoted : isQuote quote = true)
      (split : Literal.splitQuoted quote false (body ++ rest) = (body, rest)) :
      Lexeme .literal (quote :: body)
  | group {group : List Char} {tokenClass : TokenClass}
      (isGroup : Run.IsGroup maxGroupLength group) (bare : group ≠ ['#'])
      (classified : classifyGroup (String.ofList group) = some tokenClass) :
      Lexeme tokenClass group
  | word {word : List Char} {context : Bool} (nonempty : word ≠ [])
      (continues : ∀ character ∈ word, continuesWord character = true)
      (noDigit : Stops Literal.isDigit word) :
      Lexeme (classifyWord (String.ofList word) context) word

theorem Lexeme.ne_nil {tokenClass : TokenClass} {text : List Char}
    (lexeme : Lexeme tokenClass text) : text ≠ [] := by
  cases lexeme with
  | number number =>
      obtain ⟨first, rest, rfl, -⟩ := number.exists_cons
      exact List.cons_ne_nil first rest
  | quoted quoted split => exact List.cons_ne_nil _ _
  | group isGroup bare classified => exact isGroup.nonempty
  | word nonempty continues noDigit => exact nonempty

/-! ### Tokens in a text -/

/-- Text that gives no token: blanks, or a line comment. -/
def IsSkipped (text : List Char) : Prop :=
  (∀ character ∈ text, isBlank character = true) ∨ '#' ∈ text

inductive Laid : Position → List Token → List Char → Prop where
  | nil {position : Position} : Laid position [] []
  | skip {position : Position} {tokens : List Token} {skipped text : List Char}
      (isSkipped : IsSkipped skipped) (later : Laid (position.afterAll skipped) tokens text) :
      Laid position tokens (skipped ++ text)
  | token {position : Position} {tokens : List Token} {tokenClass : TokenClass}
      {text rest : List Char} (lexeme : Lexeme tokenClass text)
      (later : Laid (position.afterAll text) tokens rest) :
      Laid position (tokenAt position tokenClass text :: tokens) (text ++ rest)

theorem laid_groupTokens {position : Position} {groups : List (List Char)} {tokens : List Token}
    {text : List Char} (areGroups : ∀ group ∈ groups, Run.IsGroup maxGroupLength group)
    (bare : ['#'] ∉ groups) (later : Laid (position.afterAll groups.flatten) tokens text) :
    Laid position (groupTokens position groups ++ tokens) (groups.flatten ++ text) := by
  induction groups generalizing position with
  | nil => exact later
  | cons group groups inductionHypothesis =>
      obtain ⟨isGroup, areLater⟩ := List.forall_mem_cons.mp areGroups
      obtain ⟨notComment, bareLater⟩ := not_or.mp (mt List.mem_cons.mpr bare)
      obtain ⟨tokenClass, classified⟩ := Option.isSome_iff_exists.mp isGroup.classified
      rw [List.flatten_cons, Position.afterAll_append] at later
      rw [groupTokens, classified, Option.getD_some, List.cons_append, List.flatten_cons,
        List.append_assoc]
      exact .token (.group isGroup (Ne.symm notComment) classified)
        (inductionHypothesis areLater bareLater later)

/-- Each step lays its tokens out in what it takes. -/
theorem Takes.laid {state : State} {text : List Char} {taken : Step} {tokens : List Token}
    (takes : Takes state text taken) (later : Laid taken.state.position tokens taken.rest) :
    Laid state.position (taken.tokens ++ tokens) text := by
  have positive : 0 < maxGroupLength := one_le_maxGroupLength
  cases takes with
  | @blank character rest blank =>
      exact @Laid.skip _ _ [character] _ (.inl (by simpa using blank)) later
  | number number split => exact .token (.number number) later
  | quoted quoted split => exact .token (.quoted quoted split) later
  | groups nonempty reserved cut bare stops =>
      apply laid_groupTokens _ bare later
      intro group member
      rw [← cut] at member
      exact Run.isGroup_of_mem_groups positive reserved member
  | @lineComment groups comment line rest reserved cut bare stops within ends =>
      rw [List.append_assoc groups.flatten, List.append_assoc groups.flatten]
      apply laid_groupTokens _ bare
      · apply Laid.skip (.inr (by simp))
        rwa [← Position.afterAll_append, ← List.append_assoc]
      · intro group member
        apply Run.isGroup_of_mem_groups positive reserved
        rw [cut]
        exact List.mem_append_left _ member
  | word nonempty continues noDigit stops => exact .token (.word nonempty continues noDigit) later

theorem laid_tokensFrom (state : State) (text : List Char) :
    Laid state.position (tokensFrom state text) text := by
  induction state, text using scan_induction with
  | nil state =>
      rw [tokensFrom_nil]
      exact .nil
  | cons state first rest inductionHypothesis =>
      rw [tokensFrom_cons]
      exact (takes_step state first rest).laid inductionHypothesis

/-! ### Where tokens lie -/

theorem Laid.exists_slice {position : Position} {tokens : List Token} {text : List Char}
    (laid : Laid position tokens text) :
    ∀ token ∈ tokens, ∃ before slice behind tokenClass, text = before ++ slice ++ behind ∧
      Lexeme tokenClass slice ∧ token = tokenAt (position.afterAll before) tokenClass slice := by
  intro token member
  induction laid with
  | nil => cases member
  | @skip position tokens skipped text isSkipped later inductionHypothesis =>
      obtain ⟨before, slice, behind, tokenClass, rfl, lexeme, rfl⟩ := inductionHypothesis member
      refine ⟨skipped ++ before, slice, behind, tokenClass, ?_, lexeme, ?_⟩
      · simp only [List.append_assoc]
      · rw [Position.afterAll_append]
  | @token position tokens tokenClass text rest lexeme later inductionHypothesis =>
      rcases List.mem_cons.mp member with rfl | behindIt
      · exact ⟨[], text, rest, tokenClass, rfl, lexeme, rfl⟩
      · obtain ⟨before, slice, behind, tokenClass, rfl, lexeme, rfl⟩ :=
          inductionHypothesis behindIt
        refine ⟨text ++ before, slice, behind, tokenClass, ?_, lexeme, ?_⟩
        · simp only [List.append_assoc]
        · rw [Position.afterAll_append]

/-- Tokens lie in order and apart. -/
theorem Laid.pairwise {position : Position} {tokens : List Token} {text : List Char}
    (laid : Laid position tokens text) :
    tokens.Pairwise fun first second => first.span.stop ≤ second.span.start := by
  induction laid with
  | nil => exact .nil
  | skip isSkipped later inductionHypothesis => exact inductionHypothesis
  | @token position tokens tokenClass text rest lexeme later inductionHypothesis =>
      refine .cons ?_ inductionHypothesis
      intro token member
      obtain ⟨before, slice, behind, otherClass, -, -, rfl⟩ := later.exists_slice token member
      simp [tokenAt, Position.offset_afterAll]

private theorem character_in {first second before behind : List Char} {character : Char}
    (cut : first ++ second = before ++ character :: behind) :
    (∃ within, first = before ++ character :: within) ∨
      ∃ within, before = first ++ within ∧ second = within ++ character :: behind := by
  rcases List.append_eq_append_iff.mp cut with ⟨within, inSecond⟩ | ⟨within, rfl, rest⟩
  · exact .inr ⟨within, inSecond⟩
  · cases within with
    | nil => exact .inr ⟨[], by simp, rest.symm⟩
    | cons head within =>
        rw [List.cons_append, List.cons.injEq] at rest
        exact .inl ⟨within, by rw [rest.1]⟩

/-- Every character of a text without line comments is a blank or in a token. -/
theorem Laid.covers {position : Position} {tokens : List Token} {text before behind : List Char}
    {character : Char} (laid : Laid position tokens text)
    (cut : text = before ++ character :: behind) (plain : '#' ∉ text) :
    isBlank character = true ∨
      ∃ token ∈ tokens, token.span.Covers (position.afterAll before).offset := by
  induction laid generalizing before with
  | nil => simp at cut
  | @skip position tokens skipped text isSkipped later inductionHypothesis =>
      obtain ⟨noneSkipped, noneLater⟩ := not_or.mp (mt List.mem_append.mpr plain)
      rcases character_in cut with ⟨within, rfl⟩ | ⟨within, rfl, laterCut⟩
      · rcases isSkipped with blanks | comment
        · exact .inl (blanks character (by simp))
        · exact absurd comment noneSkipped
      · rw [Position.afterAll_append]
        exact inductionHypothesis laterCut noneLater
  | @token position tokens tokenClass text rest lexeme later inductionHypothesis =>
      obtain ⟨-, noneLater⟩ := not_or.mp (mt List.mem_append.mpr plain)
      rcases character_in cut with ⟨within, rfl⟩ | ⟨within, rfl, laterCut⟩
      · refine .inr ⟨_, List.mem_cons_self, ?_⟩
        simp [Span.Covers, tokenAt, Position.offset_afterAll, Char.utf8Size_pos]
      · rw [Position.afterAll_append]
        obtain isBlank | ⟨token, member, covers⟩ := inductionHypothesis laterCut noneLater
        · exact .inl isBlank
        · exact .inr ⟨token, List.mem_cons_of_mem _ member, covers⟩

end Scan

end TnslReader
