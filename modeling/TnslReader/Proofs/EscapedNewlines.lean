import TnslReader.Proofs.LexicalPlaces

/-!
Contract: a newline in the text of a token is escaped.

Quoted text ends before a newline unless a backslash escapes it, and no other token holds a newline
at all. So a newline that does not stand right behind a backslash is in no token.

Owns: texts whose newlines are escaped, and that those of tokens are such texts.
-/

set_option autoImplicit false

namespace TnslReader

/-- Whether every newline of the text stands right behind a backslash. -/
def EscapesNewlines (text : List Char) : Prop :=
  ∀ before behind, text = before ++ '\n' :: behind → ['\\'] <:+ before

namespace EscapesNewlines

variable {text other : List Char}

theorem of_notMem (unbroken : '\n' ∉ text) : EscapesNewlines text := by
  rintro before behind rfl
  exact absurd (by simp) unbroken

theorem append (first : EscapesNewlines text) (second : EscapesNewlines other) :
    EscapesNewlines (text ++ other) := by
  intro before behind cut
  rcases List.append_eq_append_iff.mp cut with ⟨within, rfl, rest⟩ | ⟨within, rfl, rest⟩
  · exact (second within behind rest).trans (List.suffix_append text within)
  · cases within with
    | nil => exact (second [] behind rest.symm).trans List.nil_suffix
    | cons first within =>
        rw [List.cons_append, List.cons.injEq] at rest
        obtain ⟨rfl, -⟩ := rest
        exact first before within rfl

theorem cons {first : Char} (other : first ≠ '\n') (later : EscapesNewlines text) :
    EscapesNewlines (first :: text) := by
  have begins : EscapesNewlines [first] := .of_notMem (by simpa using other.symm)
  exact begins.append later

end EscapesNewlines

/-! ### Texts of tokens -/

/-- A newline in quoted text stands right behind a backslash, or comes first in what is scanned
behind one. -/
theorem Literal.splitQuoted_newline {quote : Char} {escaped : Bool}
    {characters before behind : List Char}
    (cut : (splitQuoted quote escaped characters).1 = before ++ '\n' :: behind) :
    before = [] ∧ escaped = true ∨ ['\\'] <:+ before := by
  induction characters generalizing escaped before with
  | nil => simp [splitQuoted] at cut
  | cons character rest inductionHypothesis =>
      unfold splitQuoted at cut
      split_ifs at cut with isEscaped newline isQuote
      · cases before with
        | nil => exact .inl ⟨rfl, isEscaped⟩
        | cons first before =>
            obtain ⟨-, escapes⟩ | escapes := inductionHypothesis (List.cons.inj cut).2
            · cases escapes
            · exact .inr (escapes.trans (List.suffix_cons first before))
      · simp at cut
      · cases before with
        | nil => exact absurd (List.cons.inj cut).1 newline
        | cons first before => simp at cut
      · cases before with
        | nil => exact absurd (List.cons.inj cut).1 newline
        | cons first before =>
            have first_eq : character = first := (List.cons.inj cut).1
            obtain ⟨rfl, escapes⟩ | escapes := inductionHypothesis (List.cons.inj cut).2
            · rw [← first_eq, beq_iff_eq.mp escapes]
              exact .inr (List.suffix_refl _)
            · exact .inr (escapes.trans (List.suffix_cons first before))

theorem Scan.Lexeme.escapesNewlines {tokenClass : TokenClass} {text : List Char}
    (lexeme : Scan.Lexeme tokenClass text) : EscapesNewlines text := by
  by_cases broken : '\n' ∈ text
  · obtain ⟨-, quote, body, rest, rfl, quoted, split⟩ :=
      lexeme.exists_split_of_isBlank broken (by decide)
    intro before behind cut
    cases before with
    | nil =>
        rw [(List.cons.inj cut).1] at quoted
        exact absurd quoted (by decide)
    | cons first before =>
        have body_eq : (Literal.splitQuoted quote false (body ++ rest)).1 = body := by rw [split]
        obtain ⟨-, escapes⟩ | escapes :=
          Literal.splitQuoted_newline (body_eq.trans (List.cons.inj cut).2)
        · cases escapes
        · exact escapes.trans (List.suffix_cons first before)
  · exact .of_notMem broken

theorem Marker.newline_notMem (marker : Marker) : '\n' ∉ marker.spelling.toList :=
  fun member => absurd (marker.isBlank_eq_false '\n' member) (by decide)

/-- Newlines in the tokens of a source text are escaped, and only quoted text holds any. -/
theorem escapesNewlines_of_mem_lex {source : String} {token : Token} (member : token ∈ lex source) :
    EscapesNewlines token.text.toList ∧
      ('\n' ∈ token.text.toList → token.tokenClass = .literal ∧ IsQuoted token.text) := by
  obtain ⟨before, slice, behind, tokenClass, -, lexeme, leaves⟩ := exists_leaves_of_mem_lex member
  cases leaves with
  | kept keeps =>
      rw [Scan.tokenAt, String.toList_ofList]
      exact ⟨lexeme.escapesNewlines, fun broken => lexeme.isQuoted_of_isBlank broken (by decide)⟩
  | @respelled _ left found leaves =>
      have unbroken := left.newline_notMem
      exact ⟨.of_notMem unbroken, fun broken => absurd broken unbroken⟩

/-- The lines of a source text are counted from 1. -/
theorem line_pos_of_mem_lex {source : String} {token : Token} (member : token ∈ lex source) :
    0 < token.line := by
  obtain ⟨before, slice, behind, tokenClass, cut, lexeme, leaves⟩ := exists_leaves_of_mem_lex member
  rw [(standsAs_of_leaves cut lexeme leaves).line_eq]
  exact Nat.succ_pos _

end TnslReader
