import TnslReader.Proofs.Rereading

/-!
Contract: the texts of tokens, printed one to a line, are scanned to the same tokens.

A token stands before the end of a line if its text is scanned to it there and to nothing else. The
context that a token needs is the one that the tokens before it leave, because only the groups that
are kept change the context. The one token that may not stand before the end of a line is quoted
text which the source text ends in, and nothing is printed behind that.

Owns:
- printing tokens one to a line;
- that all tokens of a scan can be printed, and that what is printed is scanned to them.
-/

set_option autoImplicit false

namespace TnslReader

/-- The texts of the tokens, one to a line. -/
def printedTokens (tokens : Array Token) : String :=
  "\n".intercalate (tokens.toList.map (·.text))

namespace Scan

def printed (tokens : List Token) : List Char :=
  ['\n'].intercalate (tokens.map (·.text.toList))

/-- What is printed behind a token that the given tokens follow. -/
def printedBehind : List Token → List Char
  | [] => []
  | token :: tokens => '\n' :: printed (token :: tokens)

theorem printed_cons (token : Token) (tokens : List Token) :
    printed (token :: tokens) = token.text.toList ++ printedBehind tokens := by
  cases tokens with
  | nil => simp [printed, printedBehind]
  | cons next tokens => simp [printed, printedBehind, List.intercalate_cons_cons]

theorem printedBehind_ends (tokens : List Token) : Stops (· != '\n') (printedBehind tokens) := by
  cases tokens with
  | nil => exact stops_nil
  | cons token tokens => exact stops_cons.mpr rfl

/-! ### Tokens that can be printed -/

/-- Whether a text gives one token of the given class, and the given context behind that, where
`more` comes behind the text. -/
def Stands (context : Bool) (tokenClass : TokenClass) (text : List Char) (after : Bool)
    (more : List Char) : Prop :=
  ∀ position, Takes ⟨position, context⟩ (text ++ more)
    ⟨[tokenAt position tokenClass text], ⟨position.afterAll text, after⟩, more⟩

section Stands

variable {context : Bool} {more : List Char}

theorem stops_of_ends {test : Char → Bool} (ends : Stops (· != '\n') more)
    (fails : test '\n' = false) : Stops test more := by
  cases more with
  | nil => exact stops_nil
  | cons first more =>
      have isNewline : first = '\n' := by simpa using stops_cons.mp ends
      exact stops_cons.mpr (isNewline ▸ fails)

theorem stands_number {text : List Char} (number : Literal.IsNumber text)
    (ends : Stops (· != '\n') more) : Stands context .literal text context more := by
  intro position
  apply Takes.number number
  apply Literal.splitNumber_isNumber number (stops_of_ends ends (by decide))
  intro point
  have stops : Stops (· == '.') more := stops_of_ends ends (by decide)
  cases stops '.' point

theorem stands_quoted {quote : Char} {body : List Char} (quoted : isQuote quote = true)
    (split : Literal.splitQuoted quote false (body ++ more) = (body, more)) :
    Stands context .literal (quote :: body) context more := by
  intro position
  exact .quoted quoted split

theorem stands_group {group : List Char} {tokenClass : TokenClass}
    (isGroup : Run.IsGroup maxGroupLength group) (bare : group ≠ ['#'])
    (classified : classifyGroup (String.ofList group) = some tokenClass)
    (stops : Stops isReserved more) :
    Stands context tokenClass group (contextAfterGroups context [group]) more := by
  intro position
  have alone : [group].flatten = group := by simp
  have takes := @Takes.groups ⟨position, context⟩ _ _ (List.cons_ne_nil group [])
    (by rw [alone]; exact isGroup.reserved) (by rw [alone]; exact Run.groups_of_isGroup isGroup)
    (by simpa using bare.symm) stops
  rw [alone, groupTokens, groupTokens, classified] at takes
  exact takes

theorem stands_word {word : List Char} (nonempty : word ≠ [])
    (continues : ∀ character ∈ word, continuesWord character = true)
    (noDigit : Stops Literal.isDigit word) (ends : Stops (· != '\n') more) :
    Stands context (classifyWord (String.ofList word) context) word context more := by
  intro position
  exact .word nonempty continues noDigit (stops_of_ends ends (by decide))

end Stands

inductive Prints : Bool → List Token → Prop where
  | nil {context : Bool} : Prints context []
  | cons {context after : Bool} {token : Token} {tokens : List Token}
      (stands : Stands context token.tokenClass token.text.toList after (printedBehind tokens))
      (later : Prints after tokens) : Prints context (token :: tokens)

theorem prints_tokenAt {context after : Bool} {position : Position} {tokenClass : TokenClass}
    {text : List Char} {tokens : List Token}
    (stands : Stands context tokenClass text after (printedBehind tokens))
    (later : Prints after tokens) :
    Prints context (tokenAt position tokenClass text :: tokens) := by
  apply Prints.cons _ later
  simpa [tokenAt] using stands

theorem prints_groupTokens {groups : List (List Char)} {context : Bool} {tokens : List Token}
    (position : Position) (areGroups : ∀ group ∈ groups, Run.IsGroup maxGroupLength group)
    (bare : ['#'] ∉ groups) (later : Prints (contextAfterGroups context groups) tokens) :
    Prints context (groupTokens position groups ++ tokens) := by
  induction groups generalizing context position with
  | nil => exact later
  | cons group groups inductionHypothesis =>
      obtain ⟨isGroup, areLater⟩ := List.forall_mem_cons.mp areGroups
      obtain ⟨notComment, bareLater⟩ := not_or.mp (mt List.mem_cons.mpr bare)
      obtain ⟨tokenClass, classified⟩ := Option.isSome_iff_exists.mp isGroup.classified
      rw [groupTokens, classified, Option.getD_some, List.cons_append]
      apply prints_tokenAt _ (inductionHypothesis _ areLater bareLater later)
      exact stands_group isGroup (Ne.symm notComment) classified
        (stops_of_ends (printedBehind_ends _) (by decide))

/-- The tokens of each step can be printed, before tokens that can. -/
theorem Takes.prints {state : State} {text : List Char} {taken : Step} {tokens : List Token}
    (takes : Takes state text taken) (later : Prints taken.state.inPreprocessor tokens)
    (left : tokens ≠ [] → taken.rest ≠ []) :
    Prints state.inPreprocessor (taken.tokens ++ tokens) := by
  have ends := printedBehind_ends tokens
  cases takes with
  | blank blank => exact later
  | number number split => exact prints_tokenAt (stands_number number ends) later
  | @quoted quote body rest quoted split =>
      apply prints_tokenAt (stands_quoted quoted _) later
      by_cases last : rest = []
      · -- The text ends with the quoted text, so no token comes behind it.
        have none : tokens = [] := by_contra fun some => left some last
        rwa [none, printedBehind, ← last]
      · have again := @Literal.splitQuoted_again quote false (body ++ rest) _
          (by rwa [split]) ends
        rwa [split] at again
  | groups nonempty reserved cut bare stops =>
      apply prints_groupTokens _ _ bare later
      intro group member
      rw [← cut] at member
      exact Run.isGroup_of_mem_groups one_le_maxGroupLength reserved member
  | lineComment reserved cut bare stops within lineEnds =>
      apply prints_groupTokens _ _ bare later
      intro group member
      apply Run.isGroup_of_mem_groups one_le_maxGroupLength reserved
      rw [cut]
      exact List.mem_append_left _ member
  | word nonempty continues noDigit stops =>
      exact prints_tokenAt (stands_word nonempty continues noDigit ends) later

theorem prints_tokensFrom (state : State) (text : List Char) :
    Prints state.inPreprocessor (tokensFrom state text) := by
  induction state, text using scan_induction with
  | nil state =>
      rw [tokensFrom_nil]
      exact .nil
  | cons state first rest inductionHypothesis =>
      rw [tokensFrom_cons]
      apply (takes_step state first rest).prints inductionHypothesis
      intro more none
      rw [none, tokensFrom_nil] at more
      exact more rfl

/-! ### Scanning what is printed -/

theorem tokensFrom_printed {context : Bool} {tokens : List Token}
    (prints : Prints context tokens) (position : Position) :
    (tokensFrom ⟨position, context⟩ (printed tokens)).map Token.reading =
      tokens.map Token.reading := by
  induction prints generalizing position with
  | nil => simp [printed]
  | @cons context after token tokens stands later inductionHypothesis =>
      rw [printed_cons, (stands position).tokensFrom_eq, List.singleton_append, List.map_cons,
        List.map_cons]
      have same : (tokenAt position token.tokenClass token.text.toList).reading =
          token.reading := by
        simp [Token.reading, tokenAt]
      rw [same]
      cases tokens with
      | nil => simp [printedBehind]
      | cons next tokens =>
          have newline : isBlank '\n' = true := by decide
          rw [printedBehind, (Takes.blank newline).tokensFrom_eq, List.nil_append]
          rw [inductionHypothesis]

end Scan

/-! ### Tokens of a source text -/

/-- Where no comment markers stand, the texts of the tokens, one to a line, are read as the same
tokens. -/
theorem lex_printedTokens (source : String)
    (plain : ∀ token ∈ Scan.scan source, token.isCommentMarker = false) :
    (lex (printedTokens (lex source))).toList.map Token.reading =
      (lex source).toList.map Token.reading := by
  have scanned : (lex source).toList = Scan.tokensFrom .start source.toList := by
    apply toList_lex_of_plain
    intro token member
    exact plain token (Array.mem_toList_iff.mp member)
  have prints : (printedTokens (lex source)).toList =
      Scan.printed (Scan.tokensFrom .start source.toList) := by
    simp [printedTokens, Scan.printed, scanned, Function.comp_def]
  have again : (Scan.tokensFrom .start
      (Scan.printed (Scan.tokensFrom .start source.toList))).map Token.reading =
        (Scan.tokensFrom .start source.toList).map Token.reading :=
    Scan.tokensFrom_printed (Scan.prints_tokensFrom .start source.toList) .start
  rw [toList_lex_of_plain, prints, scanned]
  · exact again
  · intro token member
    rw [prints] at member
    have reread := List.mem_map_of_mem (f := Token.reading) member
    rw [again] at reread
    obtain ⟨origin, inScan, same⟩ := List.mem_map.mp reread
    rw [← Token.isCommentMarker_eq_of_reading same]
    exact plain origin (Array.mem_toList_iff.mp inScan)

/-- A directive, a line comment, a run of two groups, and quoted text that the text ends in. -/
theorem lex_printedTokens_unclosed :
    (∀ token ∈ Scan.scan ":include \"a b\" # note\n;x>==-1.5 'c\\", token.isCommentMarker = false) ∧
      (lex (printedTokens (lex ":include \"a b\" # note\n;x>==-1.5 'c\\"))).toList.map
          Token.reading =
        (lex ":include \"a b\" # note\n;x>==-1.5 'c\\").toList.map Token.reading := by
  have plain : ∀ token ∈ Scan.scan ":include \"a b\" # note\n;x>==-1.5 'c\\",
      token.isCommentMarker = false := by decide +kernel
  exact ⟨plain, lex_printedTokens _ plain⟩

end TnslReader
