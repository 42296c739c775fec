import TnslReader.Proofs.LexicalClasses
import TnslReader.Proofs.LongestGroups
import TnslReader.Proofs.TokenFacts
import TnslReader.Reader
import TnslReader.Tree.Include

/-!
Contract: what text in double quotes is without them.

The scanner ends quoted text with the first quote that is not escaped, or before the end of a line or
of the text if none comes. Unquoting knows nothing of escapes: it takes off the quote in front, and a
quote at the end if there is one. The two agree wherever the text is closed, because what it ends
with then is the quote that closes it. If the text is cut off they agree unless it ends with an
escaped quote, which unquoting takes for one that closes.

Owns:
- where a token in double quotes ends in the source text;
- what is left of each such token by unquoting.
-/

set_option autoImplicit false

namespace TnslReader

open Literal (escapesNext firstUnescaped? splitQuoted)
open Scan (State Step Takes isQuote takeToken tokenAt tokensFrom)

/-! ### The end of quoted text -/

namespace Literal

/-- How the body of quoted text ends that stands behind `before` in its literal: with its first
unescaped quote, or without one, where the line or the text ends. -/
inductive QuotedEnd (quote : Char) (before : List Char) : List Char → List Char → Prop where
  | closed {inner behind : List Char}
      (first : firstUnescaped? before quote (inner ++ [quote]) = some inner.length) :
      QuotedEnd quote before (inner ++ [quote]) behind
  | cutOff {body behind : List Char} (unclosed : firstUnescaped? before quote body = none)
      (ends : behind = [] ∨ behind.head? = some '\n') : QuotedEnd quote before body behind

theorem QuotedEnd.cons {quote first : Char} {before rest behind : List Char}
    (passes : escapesNext before = true ∨ first ≠ quote)
    (later : QuotedEnd quote (before ++ [first]) rest behind) :
    QuotedEnd quote before (first :: rest) behind := by
  cases later with
  | @closed inner _ found =>
      rw [← List.cons_append]
      apply QuotedEnd.closed
      rw [List.cons_append, firstUnescaped?_later passes, found]
      rfl
  | cutOff unclosed ends =>
      refine .cutOff ?_ ends
      rw [firstUnescaped?_later passes, unclosed]
      rfl

theorem quotedEnd_of_splitQuoted {quote : Char} {before body behind : List Char}
    (split : splitQuoted quote (escapesNext before) (body ++ behind) = (body, behind)) :
    QuotedEnd quote before body behind := by
  induction body generalizing before with
  | nil =>
      refine .cutOff rfl ?_
      cases behind with
      | nil => exact .inl rfl
      | cons first rest =>
          rw [List.nil_append, splitQuoted] at split
          split_ifs at split with escaped newline isQuote
          · simp at split
          · exact .inr (by rw [newline, List.head?_cons])
          · simp at split
          · simp at split
  | cons first rest inductionHypothesis =>
      have later := @inductionHypothesis (before ++ [first])
      rw [escapesNext_concat] at later
      rw [List.cons_append, splitQuoted] at split
      split_ifs at split with escaped newline isQuote
      · rw [escaped, Bool.not_true, Bool.false_and] at later
        simp only [Prod.mk.injEq, List.cons.injEq, true_and] at split
        exact .cons (.inl escaped) (later (Prod.ext split.1 split.2))
      · simp at split
      · have plain : escapesNext before = false := by simpa using escaped
        obtain rfl : [] = rest := (List.cons.inj (Prod.ext_iff.mp split).1).2
        subst isQuote
        have found : firstUnescaped? before first [first] = some 0 := firstUnescaped?_here plain
        exact @QuotedEnd.closed first before [] behind found
      · have plain : escapesNext before = false := by simpa using escaped
        rw [plain, Bool.not_false, Bool.true_and] at later
        simp only [Prod.mk.injEq, List.cons.injEq, true_and] at split
        exact .cons (.inr isQuote) (later (Prod.ext split.1 split.2))

/-- A quote at the end of a text without unescaped ones is escaped. -/
theorem escapesNext_of_firstUnescaped?_eq_none {quote : Char} {inner : List Char}
    (unfound : firstUnescaped? [] quote (inner ++ [quote]) = none) : escapesNext inner = true := by
  have atEnd := List.find?_eq_none.mp unfound inner.length (by simp)
  simpa using atEnd

end Literal

/-! ### Tokens in double quotes -/

namespace Scan

theorem isQuotedText_tokenAt {position : Position} {tokenClass : TokenClass} {text : List Char}
    (quoted : (tokenAt position tokenClass text).isQuotedText = true) :
    ∃ body, text = '"' :: body := by
  simp only [Token.isQuotedText, tokenAt, String.toList_ofList, Bool.and_eq_true,
    beq_iff_eq] at quoted
  obtain ⟨body, rfl⟩ := List.head?_eq_some_iff.mp quoted.2
  exact ⟨body, rfl⟩

/-- A group is no text in double quotes. -/
theorem isQuotedText_groupTokens {position : Position} {groups : List (List Char)}
    (reserved : ∀ rune ∈ groups.flatten, isReserved rune = true) {token : Token}
    (member : token ∈ groupTokens position groups) : token.isQuotedText = false := by
  obtain ⟨group, among, place, rfl⟩ := exists_of_mem_groupTokens member
  by_contra quoted
  obtain ⟨body, rfl⟩ := isQuotedText_tokenAt (Bool.not_eq_false _ ▸ quoted)
  have isRune := reserved '"' (List.mem_flatten.mpr ⟨_, among, List.mem_cons_self⟩)
  exact absurd isRune (by decide)

/-- A step that gives a token in double quotes takes quoted text, and the token begins it. -/
theorem Takes.exists_quoted {state : State} {text : List Char} {taken : Step} {token : Token}
    (takes : Takes state text taken) (member : token ∈ taken.tokens)
    (quoted : token.isQuotedText = true) :
    ∃ body, text = '"' :: body ++ taken.rest ∧
      splitQuoted '"' false (body ++ taken.rest) = (body, taken.rest) ∧
      token = tokenAt state.position .literal ('"' :: body) := by
  cases takes with
  | blank blank => cases member
  | number number split =>
      obtain rfl := List.mem_singleton.mp member
      obtain ⟨first, rest, rfl, digit⟩ := number.exists_cons
      obtain ⟨body, begins⟩ := isQuotedText_tokenAt quoted
      rw [(List.cons.inj begins).1] at digit
      exact absurd digit (by decide)
  | @quoted quote body rest isQuote split =>
      obtain rfl := List.mem_singleton.mp member
      obtain ⟨other, begins⟩ := isQuotedText_tokenAt quoted
      obtain rfl := (List.cons.inj begins).1
      exact ⟨body, rfl, split, rfl⟩
  | groups nonempty reserved cut bare stops =>
      rw [isQuotedText_groupTokens reserved member] at quoted
      cases quoted
  | lineComment reserved cut bare stops within ends =>
      have isRunes := fun rune among => reserved rune (List.mem_append_left _ among)
      rw [isQuotedText_groupTokens isRunes member] at quoted
      cases quoted
  | word nonempty continues noDigit stops =>
      obtain rfl := List.mem_singleton.mp member
      obtain ⟨body, rfl⟩ := isQuotedText_tokenAt quoted
      exact absurd (continues '"' List.mem_cons_self) (by decide)

/-- A scanned token in double quotes, with the text before and behind it. -/
theorem exists_quoted_of_mem_tokensFrom {state : State} {text : List Char} {token : Token}
    (member : token ∈ tokensFrom state text) (quoted : token.isQuotedText = true) :
    ∃ before body behind, text = before ++ '"' :: body ++ behind ∧
      splitQuoted '"' false (body ++ behind) = (body, behind) ∧
      token = tokenAt (state.position.afterAll before) .literal ('"' :: body) := by
  induction state, text using scan_induction with
  | nil state =>
      rw [tokensFrom_nil] at member
      cases member
  | cons state first rest inductionHypothesis =>
      have takes := takes_step state first rest
      rw [takes.tokensFrom_eq] at member
      rcases List.mem_append.mp member with here | later
      · obtain ⟨body, split, ends, made⟩ := takes.exists_quoted here quoted
        exact ⟨[], body, _, split, ends, made⟩
      · obtain ⟨before, body, behind, split, ends, made⟩ := inductionHypothesis later
        obtain ⟨consumed, begins, moved⟩ := takes.exists_consumed
        refine ⟨consumed ++ before, body, behind, ?_, ends, ?_⟩
        · rw [begins, split]
          simp only [List.append_assoc]
        · rw [made, moved, Position.afterAll_append]

end Scan

/-- To remove comments makes no token in double quotes. -/
theorem Comment.Leaves.eq_of_isQuotedText {token left : Token} (leaves : Leaves token left)
    (quoted : left.isQuotedText = true) : left = token := by
  cases leaves with
  | kept keeps => rfl
  | respelled found leaves =>
      have isLiteral := Token.tokenClass_of_isQuotedText quoted
      change token.tokenClass = .literal at isLiteral
      cases isLiteral.symm.trans (Token.tokenClass_of_marker? found)

/-! ### What is left without the quotes -/

/-- `Unquotes body behind left`: of quoted text with such a body, and such text behind it in the
source, `left` is left. A text that is cut off has lost no closing quote, but an escaped quote at
its end is taken for one. -/
inductive Unquotes : List Char → List Char → List Char → Prop where
  | closed {inner behind : List Char}
      (first : firstUnescaped? [] '"' (inner ++ ['"']) = some inner.length) :
      Unquotes (inner ++ ['"']) behind inner
  | cutOff {body behind : List Char} (unclosed : firstUnescaped? [] '"' body = none)
      (ends : behind = [] ∨ behind.head? = some '\n') (other : body.getLast? ≠ some '"') :
      Unquotes body behind body
  | cutOffEscaped {inner behind : List Char}
      (unclosed : firstUnescaped? [] '"' (inner ++ ['"']) = none)
      (ends : behind = [] ∨ behind.head? = some '\n') (escaped : escapesNext inner = true) :
      Unquotes (inner ++ ['"']) behind inner

theorem unquote_quoted (body : List Char) : unquote (String.ofList ('"' :: body)) =
    String.ofList (if body.getLast? = some '"' then body.dropLast else body) := by
  simp [unquote]

theorem unquote_quoted_concat (inner : List Char) :
    unquote (String.ofList ('"' :: (inner ++ ['"']))) = String.ofList inner := by
  rw [unquote_quoted]
  simp

/-- Every token in double quotes stands in the source as a quote and a body that ends where quoted
text ends. If a quote closes it, unquoting takes off that quote and the one in front, and nothing
else. If it is cut off, unquoting takes off the one in front, and an escaped quote at its end. -/
theorem unquote_of_mem_lex {source : String} {token : Token} (member : token ∈ lex source)
    (quoted : token.isQuotedText = true) :
    ∃ before body behind left, source.toList = before ++ '"' :: body ++ behind ∧
      token = tokenAt (Position.start.afterAll before) .literal ('"' :: body) ∧
      Unquotes body behind left ∧ unquote token.text = String.ofList left := by
  rw [← Array.mem_toList_iff, toList_lex] at member
  obtain ⟨origin, scanned, leaves⟩ := Comment.exists_leaves_of_mem_remains member
  obtain rfl := leaves.eq_of_isQuotedText quoted
  obtain ⟨before, body, behind, cut, split, rfl⟩ :=
    Scan.exists_quoted_of_mem_tokensFrom scanned quoted
  have ends : Literal.QuotedEnd '"' [] body behind := Literal.quotedEnd_of_splitQuoted split
  cases ends with
  | @closed inner _ first =>
      exact ⟨before, _, behind, inner, cut, rfl, .closed first, unquote_quoted_concat inner⟩
  | cutOff unclosed ends =>
      by_cases quoteLast : body.getLast? = some '"'
      · obtain ⟨inner, rfl⟩ := List.getLast?_eq_some_iff.mp quoteLast
        exact ⟨before, _, behind, inner, cut, rfl,
          .cutOffEscaped unclosed ends (Literal.escapesNext_of_firstUnescaped?_eq_none unclosed),
          unquote_quoted_concat inner⟩
      · refine ⟨before, body, behind, body, cut, rfl, .cutOff unclosed ends quoteLast, ?_⟩
        exact (unquote_quoted body).trans (by rw [if_neg quoteLast])

/-- The token of the path in `:include "a\"b" `, which holds an escaped quote. -/
def pathWithQuote : Token :=
  ⟨.literal, "\"a\\\"b\"", 1, 10, ⟨9, 15⟩⟩

theorem unquote_of_mem_lex_pathWithQuote :
    pathWithQuote ∈ lex ":include \"a\\\"b\" " ∧ pathWithQuote.isQuotedText = true ∧
      ∃ before body behind left,
        ":include \"a\\\"b\" ".toList = before ++ '"' :: body ++ behind ∧
        pathWithQuote = tokenAt (Position.start.afterAll before) .literal ('"' :: body) ∧
        Unquotes body behind left ∧ unquote pathWithQuote.text = String.ofList left := by
  have member : pathWithQuote ∈ lex ":include \"a\\\"b\" " := by decide +kernel
  have quoted : pathWithQuote.isQuotedText = true := by decide
  exact ⟨member, quoted, unquote_of_mem_lex member quoted⟩

/-- The token of the path in `:include "a\"`, which is cut off behind an escaped quote. -/
def cutOffPath : Token :=
  ⟨.literal, "\"a\\\"", 1, 10, ⟨9, 13⟩⟩

/-- No quote closes the path, and yet unquoting takes off the one that it ends with, so that another
file is included. -/
theorem cutOffPath_loses_escapedQuote :
    cutOffPath ∈ lex ":include \"a\\\"" ∧ cutOffPath.text = "\"" ++ "a\\\"" ∧
      firstUnescaped? [] '"' "a\\\"".toList = none ∧ unquote cutOffPath.text = "a\\" ∧
      unquote cutOffPath.text ≠ "a\\\"" ∧
      (readTree (lex ":include \"a\\\"") "file" .standard).map Node.includePaths =
        .ok ["a\\"] := by
  refine ⟨?_, ?_, ?_, ?_, ?_, ?_⟩ <;> decide +kernel

end TnslReader
