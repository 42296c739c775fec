import TnslReader.Proofs.LineByLine
import TnslReader.Proofs.LiteralEnds

/-!
Contract: a line comment changes nothing but the bytes before what stands behind it.

Between a text and the end of its line there may be nothing, or a line comment. Either way the same
tokens are scanned and the next line begins in the same context, whatever the text ends with, as long
as that is not quoted text that nothing closes. A word, a number or a run of runes ends before the
blank in front of the comment; another line comment, which takes all up to the newline, takes that
one as well. So the tokens of the next line only stand some bytes further on.

Owns:
- what may stand before a newline without a token of its own;
- that removing block comments goes along with moving tokens;
- the law for a line comment.
-/

set_option autoImplicit false

namespace TnslReader

namespace Scan

/-! ### What stands before a newline -/

/-- Whether the text, before a newline, ends what stands before it and is skipped itself. -/
structure Inert (gap : List Char) : Prop where
  begins : ∀ rest, ∃ first more, gap ++ '\n' :: rest = first :: more ∧ isBlank first = true
  unbroken : '\n' ∉ gap
  skipped : ∀ state rest, tokensFrom state (gap ++ '\n' :: rest) =
    tokensFrom ⟨state.position.afterAll (gap ++ ['\n']), state.inPreprocessor⟩ rest

theorem tokensFrom_newline (state : State) (rest : List Char) :
    tokensFrom state ('\n' :: rest) =
      tokensFrom ⟨state.position.after '\n', state.inPreprocessor⟩ rest := by
  have blank : isBlank '\n' = true := by decide
  rw [(Takes.blank blank).tokensFrom_eq, List.nil_append]

theorem inert_nil : Inert [] where
  begins rest := ⟨'\n', rest, rfl, by decide⟩
  unbroken := List.not_mem_nil
  skipped := tokensFrom_newline

theorem groups_hash : Run.groups maxGroupLength ['#'] = [['#']] := by
  decide +kernel

/-- A line comment that a blank stands before. -/
theorem inert_lineComment {comment : List Char} (unbroken : '\n' ∉ comment) :
    Inert (' ' :: '#' :: ' ' :: comment) where
  begins rest := ⟨' ', _, rfl, by decide⟩
  unbroken := by simpa using unbroken
  skipped := by
    intro state rest
    have blank : isBlank ' ' = true := by decide
    have noRune : Stops isReserved (' ' :: comment ++ '\n' :: rest) := stops_cons.mpr (by decide)
    have noNewline : '\n' ∉ ' ' :: comment := by simpa using unbroken
    have ends : Stops (· != '\n') ('\n' :: rest) := stops_cons.mpr (by decide)
    have reserved : ∀ rune ∈ ['#'], isReserved rune = true :=
      List.forall_mem_singleton.mpr (by decide)
    have takes := @Takes.lineComment ⟨state.position.after ' ', state.inPreprocessor⟩ [] []
      (' ' :: comment) ('\n' :: rest) reserved groups_hash List.not_mem_nil noRune noNewline ends
    have behindBlank := takes.tokensFrom_eq
    rw [tokensFrom_newline] at behindBlank
    rw [List.cons_append, (Takes.blank blank).tokensFrom_eq, List.nil_append]
    apply behindBlank.trans
    simp [groupTokens, contextAfterGroups, Position.afterAll_append]

/-! ### Text before an inert one -/

/-- Whether all quoted text that ends at the place is closed there. -/
def ClosesQuotes (stop : Nat) (tokens : List Token) : Prop :=
  ∀ token ∈ tokens, token.tokenClass = .literal → token.span.stop = stop →
    ∀ quote body, token.text.toList = quote :: body → isQuote quote = true →
      (Literal.firstUnescaped? [] quote body).isSome = true

/-- Quoted text that a step takes all of a text for, and that is closed, stops before more text. -/
theorem Takes.stops_of_closes {state : State} {quote : Char} {body : List Char} {taken : Step}
    (takes : Takes state (quote :: body) taken) (all : taken.rest = [])
    (quoted : isQuote quote = true)
    (closes : ClosesQuotes (state.position.afterAll (quote :: body)).offset taken.tokens)
    (more : List Char) : Literal.splitQuoted quote false (body ++ more) = (body, more) := by
  have whole := Literal.splitQuoted_append quote false body
  have taken_eq : taken = takeToken state .literal (quote :: (Literal.splitQuoted quote false body).1)
      (Literal.splitQuoted quote false body).2 := by
    rw [← takes.step_eq, Literal.step_of_isQuote quoted]
  have noRest : (Literal.splitQuoted quote false body).2 = [] := by
    rw [taken_eq] at all
    exact all
  rw [noRest, List.append_nil] at whole
  rw [noRest, whole] at taken_eq
  subst taken_eq
  have closed := closes _ (List.mem_singleton_self _) rfl rfl quote body (by simp [tokenAt]) quoted
  exact Literal.splitQuoted_append_of_closed (Prod.ext whole noRest) closed more

/-- A step that takes all of a text leaves the same tokens if an inert text and a newline stand
behind. -/
theorem Takes.append_inert {gap text : List Char} {state : State} {taken : Step} (inert : Inert gap)
    (takes : Takes state text taken) (all : taken.rest = [])
    (closes : ClosesQuotes (state.position.afterAll text).offset taken.tokens)
    (rest : List Char) :
    tokensFrom state (text ++ (gap ++ '\n' :: rest)) = taken.tokens ++
      tokensFrom ⟨state.position.afterAll (text ++ (gap ++ ['\n'])), taken.state.inPreprocessor⟩
        rest := by
  obtain ⟨blank, more, begins, isBlank⟩ := inert.begins rest
  have stops : ∀ quote body, text = quote :: body → isQuote quote = true →
      Literal.splitQuoted quote false (body ++ blank :: more) = (body, blank :: more) := by
    rintro quote body rfl quoted
    exact takes.stops_of_closes all quoted closes _
  obtain ⟨consumed, whole, moved⟩ := takes.exists_consumed
  rw [all, List.append_nil] at whole
  subst whole
  rcases takes.before_blank all isBlank more stops with ends | ⟨-, comments⟩
  · rw [begins, ends.tokensFrom_eq, Step.onto, all, List.nil_append, ← begins, inert.skipped, moved,
      ← Position.afterAll_append]
  · -- The step takes a line comment, which goes on up to the newline.
    have ends : Stops (· != '\n') ('\n' :: rest) := stops_cons.mpr (by decide)
    have longer := (comments gap ('\n' :: rest) begins.symm inert.unbroken ends).tokensFrom_eq
    rw [tokensFrom_newline] at longer
    rw [begins, longer]
    simp only [Position.afterAll_append, Position.afterAll_cons, Position.afterAll_nil]

/-- A text leaves the same tokens whatever inert text stands between it and the end of its line. -/
theorem tokensFrom_append_inert {gap : List Char} (inert : Inert gap) (rest : List Char)
    (state : State) (text : List Char)
    (closes : ClosesQuotes (state.position.afterAll text).offset (tokensFrom state text)) :
    tokensFrom state (text ++ (gap ++ '\n' :: rest)) = tokensFrom state text ++
      tokensFrom ⟨state.position.afterAll (text ++ (gap ++ ['\n'])),
        (stateAfter state text).inPreprocessor⟩ rest := by
  induction state, text using scan_induction with
  | nil state =>
      rw [List.nil_append, inert.skipped, tokensFrom_nil, stateAfter_nil]
      rfl
  | cons state first remaining inductionHypothesis =>
      have takes := takes_step state first remaining
      rw [tokensFrom_cons] at closes
      obtain ⟨here, later⟩ := List.forall_mem_append.mp closes
      by_cases all : (step state first remaining).rest = []
      · rw [takes.append_inert inert all here, tokensFrom_cons, stateAfter_cons, all, tokensFrom_nil,
          stateAfter_nil, List.append_nil]
      · obtain ⟨consumed, whole, moved⟩ := takes.exists_consumed
        have stands : state.position.afterAll (first :: remaining ++ (gap ++ ['\n'])) =
            (step state first remaining).state.position.afterAll
              ((step state first remaining).rest ++ (gap ++ ['\n'])) := by
          rw [whole, List.append_assoc, Position.afterAll_append, moved]
        rw [whole, Position.afterAll_append, ← moved] at later
        rw [(takes.append all _).tokensFrom_eq, Step.onto, inductionHypothesis later,
          tokensFrom_cons, stateAfter_cons, stands, List.append_assoc]

end Scan

/-! ### Tokens that stand further on -/

/-- Behind a newline it does not matter what stood before it on its line, apart from the bytes. -/
theorem Position.afterAll_newline {gap : List Char} (unbroken : '\n' ∉ gap) (position : Position) :
    position.afterAll (gap ++ ['\n']) =
      (position.after '\n').moved (String.ofList gap).utf8ByteSize 0 := by
  have line := line_afterAll position gap
  rw [List.count_eq_zero_of_not_mem unbroken] at line
  have offset := offset_afterAll position gap
  rw [afterAll_append, afterAll_cons, afterAll_nil]
  simp only [after, if_true, moved, line, offset]
  congr 1
  omega

namespace Comment

theorem resolve_moved (bytes lines : Nat) (inComment : Bool) (token : Token) :
    resolve inComment (token.moved bytes lines) =
      ((resolve inComment token).1.map (·.moved bytes lines), (resolve inComment token).2) := by
  have same : (token.moved bytes lines).marker? = token.marker? := rfl
  unfold resolve
  rw [same]
  cases token.marker? with
  | none => cases inComment <;> rfl
  | some marker => cases marker <;> cases inComment <;> rfl

/-- What is left of tokens that stand further on is left further on. -/
theorem remains_moved (bytes lines : Nat) (inComment : Bool) (tokens : List Token) :
    remains inComment (tokens.map (·.moved bytes lines)) =
      (remains inComment tokens).map (·.moved bytes lines) := by
  induction tokens generalizing inComment with
  | nil => rfl
  | cons token tokens inductionHypothesis =>
      rw [List.map_cons, remains, remains, resolve_moved, inductionHypothesis, List.map_append]
      cases (resolve inComment token).1 <;> rfl

end Comment

def Token.standing (token : Token) : TokenClass × String × Nat × Nat :=
  (token.tokenClass, token.text, token.line, token.column)

/-! ### Line comments -/

/-- Whether scanning a text ends within quoted text: some reaches to the end of the text, and has no
unescaped quote of its kind behind the quote that opens it. -/
def LeavesQuoteOpen (source : String) : Prop :=
  ∃ token ∈ Scan.scan source, token.tokenClass = .literal ∧
    token.span.stop = source.utf8ByteSize ∧ ∃ quote body, token.text.toList = quote :: body ∧
      Scan.isQuote quote = true ∧ Literal.firstUnescaped? [] quote body = none

theorem closesQuotes_of_not_leavesQuoteOpen {source : String} (closed : ¬LeavesQuoteOpen source) :
    Scan.ClosesQuotes (Position.start.afterAll source.toList).offset
      (Scan.tokensFrom .start source.toList) := by
  intro token member isLiteral stop quote body text quoted
  rw [Position.offset_afterAll, String.ofList_toList] at stop
  by_contra unclosed
  refine closed ⟨token, Array.mem_toList_iff.mp member, isLiteral, ?_, quote, body, text, quoted, ?_⟩
  · simpa [Position.start] using stop
  · simpa using unclosed

/-- The tokens of a text with an inert text at the end of a line are, up to their spans, those before
that and those of the next line, whatever the inert text is. -/
theorem standing_append_inert {gap : List Char} (inert : Scan.Inert gap) {before : String}
    (closed : ¬LeavesQuoteOpen before) (behind : List Char) :
    (Comment.remains false
        (Scan.tokensFrom .start (before.toList ++ (gap ++ '\n' :: behind)))).map Token.standing =
      (lex before).toList.map Token.standing ++
        (Comment.remains (Comment.isOpenAfter false (Scan.scan before).toList)
          (Scan.tokensFrom ⟨(Position.start.afterAll before.toList).after '\n',
            (Scan.stateAfter .start before.toList).inPreprocessor⟩ behind)).map
              Token.standing := by
  have place : Position.start.afterAll (before.toList ++ (gap ++ ['\n'])) =
      ((Position.start.afterAll before.toList).after '\n').moved
        (String.ofList gap).utf8ByteSize 0 := by
    rw [Position.afterAll_append, Position.afterAll_newline inert.unbroken]
  have closes := closesQuotes_of_not_leavesQuoteOpen closed
  rw [Scan.tokensFrom_append_inert inert behind .start before.toList closes, Comment.remains_append,
    List.map_append, ← toList_lex, ← Scan.toList_scan,
    show Scan.State.start.position = .start from rfl, place]
  have moved := @Scan.tokensFrom_moved (String.ofList gap).utf8ByteSize 0
    ⟨(Position.start.afterAll before.toList).after '\n',
      (Scan.stateAfter .start before.toList).inPreprocessor⟩ behind
  rw [Scan.State.moved] at moved
  rw [moved, Comment.remains_moved, List.map_map]
  rfl

/-- Up to their spans, the tokens of a text are the same with a line comment at the end of a line and
without it, unless the text before it ends within quoted text. -/
theorem lex_lineComment (before comment behind : String) (closed : ¬LeavesQuoteOpen before)
    (unbroken : '\n' ∉ comment.toList) :
    (lex (before ++ " # " ++ comment ++ "\n" ++ behind)).toList.map Token.standing =
      (lex (before ++ "\n" ++ behind)).toList.map Token.standing := by
  have commented := standing_append_inert (Scan.inert_lineComment unbroken) closed behind.toList
  have plain := standing_append_inert Scan.inert_nil closed behind.toList
  rw [toList_lex, toList_lex]
  simpa using commented.trans plain.symm

/-- A line that begins a directive and ends with an operator, and a comment that holds a quote, a
separator and the marker of a block comment. -/
theorem lex_lineComment_behindOperator :
    ¬LeavesQuoteOpen ": 'n' <" ∧ '\n' ∉ "it's ; /#".toList ∧
      (lex (": 'n' <" ++ " # " ++ "it's ; /#" ++ "\n" ++ "include")).toList.map Token.standing =
        (lex (": 'n' <" ++ "\n" ++ "include")).toList.map Token.standing := by
  have closed : ¬LeavesQuoteOpen ": 'n' <" := by
    have noLiteral : ∀ token ∈ Scan.scan ": 'n' <", token.tokenClass = .literal →
        token.span.stop ≠ ": 'n' <".utf8ByteSize := by decide +kernel
    rintro ⟨token, member, isLiteral, stop, -⟩
    exact noLiteral token member isLiteral stop
  have unbroken : '\n' ∉ "it's ; /#".toList := by decide
  exact ⟨closed, unbroken, lex_lineComment _ _ _ closed unbroken⟩

end TnslReader
