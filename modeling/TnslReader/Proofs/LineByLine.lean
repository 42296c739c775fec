import TnslReader.Proofs.CommentedText

/-!
Contract: a source text may be scanned line by line.

What is scanned is the same wherever it stands, up to places: from a place so many bytes and lines
further on come the same tokens, so much further on. At the end of a line outside quoted text, where
the column is again the first, nothing else of what came before is left than the context. So the
lines behind can be scanned as a text of their own, from the first place and in that context.

Owns:
- places and tokens moved by bytes and lines, and that scanning moves with them;
- the law for a text whose first part ends a line.
-/

set_option autoImplicit false

namespace TnslReader

/-- The place so many bytes and lines further on, in the same column. -/
def Position.moved (position : Position) (bytes lines : Nat) : Position :=
  ⟨position.offset + bytes, position.line + lines, position.column⟩

def Token.moved (token : Token) (bytes lines : Nat) : Token :=
  { token with
    line := token.line + lines
    span := ⟨token.span.start + bytes, token.span.stop + bytes⟩ }

namespace Position

variable {position : Position} {bytes lines : Nat}

theorem after_moved (character : Char) :
    (position.moved bytes lines).after character =
      (position.after character).moved bytes lines := by
  by_cases newline : character = '\n'
  · simp only [after, moved, newline, if_true, Nat.add_right_comm]
  · simp only [after, moved, newline, if_false, Nat.add_right_comm]

theorem afterAll_moved (text : List Char) :
    (position.moved bytes lines).afterAll text = (position.afterAll text).moved bytes lines := by
  induction text generalizing position with
  | nil => rfl
  | cons character rest inductionHypothesis =>
      rw [afterAll_cons, afterAll_cons, after_moved, inductionHypothesis]

end Position

namespace Scan

def State.moved (state : State) (bytes lines : Nat) : State :=
  { state with position := state.position.moved bytes lines }

def Step.moved (step : Step) (bytes lines : Nat) : Step :=
  ⟨step.tokens.map (·.moved bytes lines), step.state.moved bytes lines, step.rest⟩

variable {state : State} {bytes lines : Nat}

/-! ### Scanning further on -/

theorem tokenAt_moved (position : Position) (tokenClass : TokenClass) (text : List Char) :
    tokenAt (position.moved bytes lines) tokenClass text =
      (tokenAt position tokenClass text).moved bytes lines := by
  simp only [tokenAt, Position.afterAll_moved]
  rfl

theorem takeToken_moved (tokenClass : TokenClass) (text rest : List Char) :
    takeToken (state.moved bytes lines) tokenClass text rest =
      (takeToken state tokenClass text rest).moved bytes lines := by
  simp only [takeToken, Step.moved, State.moved, tokenAt_moved, Position.afterAll_moved,
    List.map_cons, List.map_nil]

theorem groupTokens_moved (position : Position) (groups : List (List Char)) :
    groupTokens (position.moved bytes lines) groups =
      (groupTokens position groups).map (·.moved bytes lines) := by
  induction groups generalizing position with
  | nil => rfl
  | cons group groups inductionHypothesis =>
      rw [groupTokens, groupTokens, tokenAt_moved, Position.afterAll_moved, inductionHypothesis,
        List.map_cons]

theorem takeRun_moved (run rest : List Char) :
    takeRun (state.moved bytes lines) run rest = (takeRun state run rest).moved bytes lines := by
  simp only [takeRun, Step.moved, State.moved, groupTokens_moved, Position.afterAll_moved]

theorem step_moved (first : Char) (rest : List Char) :
    step (state.moved bytes lines) first rest = (step state first rest).moved bytes lines := by
  unfold step
  split_ifs with blank digit quoted reserved
  · simp only [Step.moved, State.moved, Position.after_moved, List.map_nil]
  · exact takeToken_moved ..
  · exact takeToken_moved ..
  · exact takeRun_moved ..
  · exact takeToken_moved ..

/-- Further on, a text is scanned to the same tokens, so much further on. -/
theorem tokensFrom_moved (state : State) (text : List Char) :
    tokensFrom (state.moved bytes lines) text =
      (tokensFrom state text).map (·.moved bytes lines) := by
  induction state, text using scan_induction with
  | nil state => simp only [tokensFrom_nil, List.map_nil]
  | cons state first rest inductionHypothesis =>
      rw [tokensFrom_cons, tokensFrom_cons, step_moved, List.map_append, ← inductionHypothesis]
      rfl

theorem stateAfter_moved (state : State) (text : List Char) :
    stateAfter (state.moved bytes lines) text = (stateAfter state text).moved bytes lines := by
  induction state, text using scan_induction with
  | nil state => simp only [stateAfter_nil]
  | cons state first rest inductionHypothesis =>
      rw [stateAfter_cons, stateAfter_cons, step_moved, ← inductionHypothesis]
      rfl

/-! ### The state behind whole lines -/

/-- Behind a text scanning stands behind its last character. -/
theorem position_stateAfter (state : State) (text : List Char) :
    (stateAfter state text).position = state.position.afterAll text := by
  induction state, text using scan_induction with
  | nil state => rw [stateAfter_nil, Position.afterAll_nil]
  | cons state first rest inductionHypothesis =>
      obtain ⟨consumed, whole, moved⟩ := (takes_step state first rest).exists_consumed
      rw [stateAfter_cons, inductionHypothesis, moved, whole, Position.afterAll_append]

end Scan

/-- Whole lines end in the first column. -/
theorem EndsLine.position_eq {source : String} (ends : EndsLine source) :
    Position.start.afterAll source.toList =
      Position.start.moved source.utf8ByteSize (source.toList.count '\n') := by
  have offset := Position.offset_afterAll .start source.toList
  have line := Position.line_afterAll .start source.toList
  have column : (Position.start.afterAll source.toList).column = 1 := by
    rcases ends with rfl | ⟨lines, rfl, -⟩
    · rfl
    · have cut : (lines ++ "\n").toList = lines.toList ++ ['\n'] := by simp
      rw [cut, Position.column_afterAll, Position.lastLine_newline, List.length_nil]
  rw [String.ofList_toList] at offset
  cases reached : Position.start.afterAll source.toList with
  | mk => simp_all only [Position.moved, Position.start]

/-- Behind whole lines scanning stands as at the start, but further on and in the context that they
leave. -/
theorem EndsLine.stateAfter_eq {source : String} (ends : EndsLine source) :
    Scan.stateAfter .start source.toList =
      Scan.State.moved ⟨.start, contextAfter false source⟩ source.utf8ByteSize
        (source.toList.count '\n') := by
  have stands := Scan.position_stateAfter .start source.toList
  rw [show Scan.State.start.position = .start from rfl, ends.position_eq] at stands
  rw [Scan.State.moved, ← stands]
  rfl

/-- A text whose first part ends a line is scanned in two parts. The tokens of the second are those
that it has as a text of its own, in the context that the first part leaves, only further on by the
bytes and the lines of the first part. -/
theorem scan_lines_append {before : String} (ends : EndsLine before) (behind : String) :
    (Scan.scan (before ++ behind)).toList = (Scan.scan before).toList ++
        (Scan.tokensFrom ⟨.start, contextAfter false before⟩ behind.toList).map
          (·.moved before.utf8ByteSize (before.toList.count '\n')) ∧
      contextAfter false (before ++ behind) = contextAfter (contextAfter false before) behind := by
  obtain ⟨tokens, state⟩ := (ends.apart behind).append
  rw [ends.stateAfter_eq] at tokens state
  rw [Scan.tokensFrom_moved] at tokens
  rw [Scan.stateAfter_moved] at state
  constructor
  · rw [Scan.toList_scan, Scan.toList_scan, String.toList_append, tokens]
  · have contexts := congrArg Scan.State.inPreprocessor state
    rw [← String.toList_append] at contexts
    exact contexts

/-- Two lines that begin a section of directives, with an escaped newline in quoted text and a quote
in a line comment. -/
def directiveLines : String :=
  ": \"é\\\n\" # it's\n"

/-- Behind them a directive word is one, on the third line. -/
theorem scan_lines_append_directive :
    EndsLine directiveLines ∧
      (Scan.scan (directiveLines ++ "include 'm'")).toList = (Scan.scan directiveLines).toList ++
        [⟨.directiveWord, "include", 3, 1, ⟨16, 23⟩⟩, ⟨.literal, "'m'", 3, 9, ⟨24, 27⟩⟩] := by
  have ends : EndsLine directiveLines :=
    .inr ⟨": \"é\\\n\" # it's", by decide, by decide +kernel⟩
  have later : (Scan.tokensFrom ⟨.start, contextAfter false directiveLines⟩
      "include 'm'".toList).map
        (·.moved directiveLines.utf8ByteSize (directiveLines.toList.count '\n')) =
      [⟨.directiveWord, "include", 3, 1, ⟨16, 23⟩⟩, ⟨.literal, "'m'", 3, 9, ⟨24, 27⟩⟩] := by
    decide +kernel
  exact ⟨ends, later ▸ (scan_lines_append ends "include 'm'").1⟩

end TnslReader
