import TnslReader.Proofs.PrintedTokens

/-!
Contract: what a block comment does to the text around it.

Comments are removed from the tokens and not from the text, so the text of a comment is scanned like
any other. It cannot change where tokens behind it begin or end. But a separator or a block marker
in it changes the context, so the directive words behind the comment may be of another class than
without it.

Owns:
- the two kinds of text that are scanned apart from what comes behind them: whole lines, and plain
  text before a blank;
- that a text without separators keeps the context;
- what a comment does to the tokens around it, and that a change of context leaks from it.
-/

set_option autoImplicit false

namespace TnslReader

/-- Whether a text is empty or ends with a newline that stands outside all quoted text. -/
def EndsLine (source : String) : Prop :=
  source = "" ∨ ∃ lines, source = lines ++ "\n" ∧
    ∀ token ∈ Scan.scan source, token.tokenClass = .literal → IsQuoted token.text →
      ¬token.span.Covers lines.utf8ByteSize

/-- Whether a block comment that begins in a text is still open behind it. -/
def LeavesCommentOpen (source : String) : Prop :=
  Comment.isOpenAfter false (Scan.scan source).toList = true

/-- The context that a text leaves to the words behind it, if it begins in the given one. -/
def contextAfter (context : Bool) (source : String) : Bool :=
  (Scan.stateAfter ⟨.start, context⟩ source.toList).inPreprocessor

namespace Scan

/-! ### Whole lines -/

/-- A step that takes all of a text up to a newline outside quoted text takes that newline only. -/
theorem Takes.eq_nil_of_newline {state : State} {text lines : List Char} {taken : Step}
    (takes : Takes state text taken) (cut : text = lines ++ ['\n']) (all : taken.rest = [])
    (outside : ∀ token ∈ taken.tokens, token.tokenClass = .literal → IsQuoted token.text →
      ¬token.span.Covers (state.position.afterAll lines).offset) : lines = [] := by
  have newline : '\n' ∈ text := by simp [cut]
  cases takes with
  | @blank character rest blank =>
      subst all
      simpa using congrArg List.length cut
  | @number text rest number split =>
      subst all
      rw [List.append_nil] at newline
      exact absurd (number.digit_or_point '\n' newline) (by decide)
  | @quoted quote body rest quoted split =>
      subst all
      rw [List.append_nil] at cut
      have isQuoted : IsQuoted (tokenAt state.position .literal (quote :: body)).text :=
        ⟨quote, by simp [tokenAt], quoted⟩
      refine absurd ?_ (outside _ (List.mem_singleton_self _) rfl isQuoted)
      have newlineSize : 0 < "\n".utf8ByteSize := by decide
      simp [Span.Covers, tokenAt, Position.offset_afterAll, cut]
      omega
  | @groups groups rest nonempty reserved cut bare stops =>
      subst all
      rw [List.append_nil] at newline
      exact absurd (reserved '\n' newline) (by decide)
  | @lineComment groups later line rest reserved cut bare stops within ends =>
      subst all
      rw [List.append_nil] at newline
      rcases List.mem_append.mp newline with inRun | inLine
      · exact absurd (reserved '\n' inRun) (by decide)
      · exact absurd inLine within
  | @word word rest nonempty continues noDigit stops =>
      subst all
      rw [List.append_nil] at newline
      exact absurd (continues '\n' newline) (by decide)

/-- Whole lines are scanned apart from all text behind them. -/
theorem apart_lines (more : List Char) (state : State) (text : List Char) {lines : List Char}
    (cut : text = lines ++ ['\n'])
    (outside : ∀ token ∈ tokensFrom state text, token.tokenClass = .literal →
      IsQuoted token.text → ¬token.span.Covers (state.position.afterAll lines).offset) :
    Apart more state text := by
  induction state, text using scan_induction generalizing lines with
  | nil state => exact .nil
  | cons state first rest inductionHypothesis =>
      have takes := takes_step state first rest
      rw [tokensFrom_cons] at outside
      obtain ⟨here, behind⟩ := List.forall_mem_append.mp outside
      -- The last step takes the newline alone, and every step before it leaves something behind.
      by_cases all : (step state first rest).rest = []
      · have noLines := takes.eq_nil_of_newline cut all here
        rw [noLines, List.nil_append, List.cons.injEq] at cut
        obtain ⟨rfl, rfl⟩ := cut
        have blank : isBlank '\n' = true := by decide
        refine .cons ?_ (all ▸ .nil)
        rw [(Takes.blank blank).step_eq, (Takes.blank blank).step_eq]
        rfl
      · refine .cons (takes.append all more).step_eq ?_
        obtain ⟨consumed, whole, moved⟩ := takes.exists_consumed
        obtain ⟨later, last, ending⟩ := (List.eq_nil_or_concat' _).resolve_left all
        rw [cut, ending, ← List.append_assoc] at whole
        obtain ⟨rfl, isLast⟩ := List.append_inj' whole rfl
        apply @inductionHypothesis later
        · rw [ending, ← isLast]
        · rwa [moved, ← Position.afterAll_append]

/-! ### Plain text -/

/-- Text without quotes and `#` is scanned apart from a blank behind it. -/
theorem apart_plain {blank : Char} (isBlank : isBlank blank = true) (more : List Char)
    (state : State) (text : List Char) (noQuote : ∀ character ∈ text, isQuote character = false)
    (noComment : '#' ∉ text) : Apart (blank :: more) state text := by
  induction state, text using scan_induction with
  | nil state => exact .nil
  | cons state first rest inductionHypothesis =>
      have takes := takes_step state first rest
      refine .cons ?_ (inductionHypothesis ?_ ?_)
      · by_cases all : (step state first rest).rest = []
        · exact (takes.append_blank all noQuote noComment isBlank more).step_eq
        · exact (takes.append all (blank :: more)).step_eq
      · intro character member
        exact noQuote character (takes.rest_subset member)
      · intro member
        exact noComment (takes.rest_subset member)

/-! ### Contexts -/

theorem separator_mem_of_contextAfter? {text : String} {context : Bool}
    (changes : contextAfter? text = some context) : ':' ∈ text.toList ∨ ';' ∈ text.toList := by
  have markers : ∀ marker : Marker, contextAfter? marker.spelling ≠ none →
      ':' ∈ marker.spelling.toList ∨ ';' ∈ marker.spelling.toList := by
    intro marker
    cases marker <;> decide +kernel
  cases found : Marker.ofSpelling? text with
  | some marker =>
      rw [← Marker.spelling_of_ofSpelling? found] at changes ⊢
      apply markers marker
      rw [changes]
      exact Option.some_ne_none context
  | none =>
      unfold contextAfter? at changes
      rw [found] at changes
      split_ifs at changes with isPreprocessor isCode
      · exact .inl (by rw [isPreprocessor]; decide)
      · exact .inr (by rw [isCode]; decide)

theorem contextAfterGroups_eq {groups : List (List Char)} (context : Bool)
    (noSeparator : ∀ character ∈ groups.flatten, character ≠ ':' ∧ character ≠ ';') :
    contextAfterGroups context groups = context := by
  induction groups with
  | nil => rfl
  | cons group groups inductionHypothesis =>
      rw [List.flatten_cons] at noSeparator
      obtain ⟨here, later⟩ := List.forall_mem_append.mp noSeparator
      have keeps : contextAfter? (String.ofList group) = none := by
        cases changes : contextAfter? (String.ofList group) with
        | none => rfl
        | some context =>
            have separator := separator_mem_of_contextAfter? changes
            rw [String.toList_ofList] at separator
            rcases separator with isPreprocessor | isCode
            · exact absurd rfl (here ':' isPreprocessor).1
            · exact absurd rfl (here ';' isCode).2
      rw [contextAfterGroups, List.foldl_cons, keeps]
      exact inductionHypothesis later

theorem Takes.inPreprocessor_eq {state : State} {text : List Char} {taken : Step}
    (takes : Takes state text taken)
    (noSeparator : ∀ character ∈ text, character ≠ ':' ∧ character ≠ ';') :
    taken.state.inPreprocessor = state.inPreprocessor := by
  cases takes with
  | blank blank => rfl
  | number number split => rfl
  | quoted quoted split => rfl
  | groups nonempty reserved cut bare stops =>
      apply contextAfterGroups_eq
      intro character member
      exact noSeparator character (by simp only [List.mem_append, member, true_or])
  | lineComment reserved cut bare stops within ends =>
      apply contextAfterGroups_eq
      intro character member
      exact noSeparator character (by simp only [List.mem_append, member, true_or])
  | word nonempty continues noDigit stops => rfl

theorem stateAfter_inPreprocessor_eq (state : State) (text : List Char)
    (noSeparator : ∀ character ∈ text, character ≠ ':' ∧ character ≠ ';') :
    (stateAfter state text).inPreprocessor = state.inPreprocessor := by
  induction state, text using scan_induction with
  | nil state => rw [stateAfter_nil]
  | cons state first rest inductionHypothesis =>
      have takes := takes_step state first rest
      rw [stateAfter_cons, inductionHypothesis, takes.inPreprocessor_eq noSeparator]
      intro character member
      exact noSeparator character (takes.rest_subset member)

/-! ### Comments -/

theorem classifyGroup_spelling (marker : Marker) :
    classifyGroup (String.ofList marker.spelling.toList) = some .delimiter := by
  cases marker <;> decide

theorem isGroup_spelling (marker : Marker) :
    Run.IsGroup maxGroupLength marker.spelling.toList where
  nonempty := by cases marker <;> decide
  reserved := by
    apply List.all_eq_true.mp
    cases marker <;> decide
  length_le := by
    have twoRunes : marker.spelling.toList.length = 2 := by cases marker <;> decide
    have window : 2 ≤ maxGroupLength := by decide +kernel
    omega
  classified := by rw [classifyGroup_spelling, Option.isSome_some]

theorem marker?_spelling (position : Position) (marker : Marker) :
    (tokenAt position .delimiter marker.spelling.toList).marker? = some marker := by
  simp [Token.marker?, tokenAt, Marker.ofSpelling?_spelling]

/-- A marker that keeps the context, before a blank. -/
theorem tokensFrom_spelling {marker : Marker} (keeps : contextAfter? marker.spelling = none)
    {blank : Char} (isBlank : isBlank blank = true) (state : State) (more : List Char) :
    tokensFrom state (marker.spelling.toList ++ blank :: more) =
      tokenAt state.position .delimiter marker.spelling.toList ::
        tokensFrom ⟨(state.position.afterAll marker.spelling.toList).after blank,
          state.inPreprocessor⟩ more := by
  have bare : marker.spelling.toList ≠ ['#'] := by cases marker <;> decide
  have same : contextAfterGroups state.inPreprocessor [marker.spelling.toList] =
      state.inPreprocessor := by
    simp [contextAfterGroups, keeps]
  have stands : Stands state.inPreprocessor .delimiter marker.spelling.toList
      (contextAfterGroups state.inPreprocessor [marker.spelling.toList]) (blank :: more) :=
    stands_group (isGroup_spelling marker) bare (classifyGroup_spelling marker)
      (stops_cons.mpr (isReserved_eq_false_of_isBlank isBlank))
  rw [same] at stands
  rw [(stands state.position).tokensFrom_eq, (Takes.blank isBlank).tokensFrom_eq]
  rfl

end Scan

/-! ### Comments in a source text -/

/-- Text without separators keeps the context. -/
theorem contextAfter_eq {context : Bool} {source : String}
    (noSeparator : ∀ character ∈ source.toList, character ≠ ':' ∧ character ≠ ';') :
    contextAfter context source = context :=
  Scan.stateAfter_inPreprocessor_eq _ _ noSeparator

theorem EndsLine.apart {before : String} (ends : EndsLine before) (behind : String) :
    Scan.Apart behind.toList .start before.toList := by
  rcases ends with rfl | ⟨lines, rfl, outside⟩
  · exact .nil
  · have cut : (lines ++ "\n").toList = lines.toList ++ ['\n'] := by simp
    apply Scan.apart_lines _ _ _ cut
    intro token member isLiteral quoted
    have notCovered := outside token (Array.mem_toList_iff.mp member) isLiteral quoted
    simpa [Position.offset_afterAll, Scan.State.start, Position.start] using notCovered

/-- Where a source text may be cut: behind whole lines, outside comments. -/
theorem toList_lex_append {before : String} (ends : EndsLine before)
    (closed : ¬LeavesCommentOpen before) (behind : String) :
    (lex (before ++ behind)).toList = (lex before).toList ++
      Comment.remains false
        (Scan.tokensFrom (Scan.stateAfter .start before.toList) behind.toList) := by
  have stillClosed : Comment.isOpenAfter false (Scan.tokensFrom .start before.toList) = false := by
    simpa [LeavesCommentOpen, Scan.toList_scan] using closed
  rw [toList_lex, toList_lex, String.toList_append, (ends.apart behind).append.1,
    Comment.remains_append, stillClosed]

theorem stateAfter_eq_contextAfter (state : Scan.State) (source : String) :
    (Scan.stateAfter state source.toList).inPreprocessor =
      contextAfter state.inPreprocessor source :=
  (Scan.forall₂_tokensFrom state ⟨.start, state.inPreprocessor⟩ source.toList).1 rfl

/-- Behind a comment stand the tokens that are scanned in the context that its text leaves. -/
theorem remains_comment_eq (state : Scan.State) {comment : String}
    (plain : ∀ character ∈ comment.toList, character ≠ '#' ∧ Scan.isQuote character = false)
    (behind : String) :
    ∃ position, Comment.remains false
        (Scan.tokensFrom state ("/# " ++ comment ++ " #/ " ++ behind).toList) =
      Comment.remains false
        (Scan.tokensFrom ⟨position, contextAfter state.inPreprocessor comment⟩
          behind.toList) := by
  have blank : isBlank ' ' = true := by decide
  have noComment : '#' ∉ comment.toList := fun member => (plain '#' member).1 rfl
  have noQuote := fun character member => (plain character member).2
  have cut : ("/# " ++ comment ++ " #/ " ++ behind).toList =
      Marker.openComment.spelling.toList ++ ' ' :: (comment.toList ++
        ' ' :: (Marker.closeComment.spelling.toList ++ ' ' :: behind.toList)) := by
    simp [Marker.spelling]
  have apart := fun state => Scan.apart_plain blank
    (Marker.closeComment.spelling.toList ++ ' ' :: behind.toList) state _ noQuote noComment
  rw [cut, Scan.tokensFrom_spelling (by decide +kernel) blank, (apart _).append.1,
    (Scan.Takes.blank blank).tokensFrom_eq, List.nil_append,
    Scan.tokensFrom_spelling (by decide +kernel) blank, Comment.remains_comment,
    stateAfter_eq_contextAfter]
  · exact ⟨_, rfl⟩
  · exact Scan.marker?_spelling _ _
  · exact Scan.isCommentMarker_eq_false noComment _
  · exact Scan.marker?_spelling _ _

/-- With and without a comment the tokens are alike: they are read in contexts that differ only
behind the comment, and only if its text changes the context. -/
theorem alike_across_comment {before comment : String} (ends : EndsLine before)
    (closed : ¬LeavesCommentOpen before)
    (plain : ∀ character ∈ comment.toList, character ≠ '#' ∧ Scan.isQuote character = false)
    (behind : String) :
    List.Forall₂
      (Token.Alike (contextAfter (contextAfter false before) comment ≠ contextAfter false before))
      (lex (before ++ "/# " ++ comment ++ " #/ " ++ behind)).toList
      (lex (before ++ behind)).toList := by
  have cut : before ++ "/# " ++ comment ++ " #/ " ++ behind =
      before ++ ("/# " ++ comment ++ " #/ " ++ behind) := by
    simp only [String.append_assoc]
  obtain ⟨position, across⟩ :=
    remains_comment_eq (Scan.stateAfter .start before.toList) plain behind
  rw [cut, toList_lex_append ends closed, toList_lex_append ends closed, across]
  apply List.rel_append
  · exact List.forall₂_same.mpr fun token _ => Token.alike_of_reading rfl
  · apply Comment.forall₂_remains
    exact (Scan.forall₂_tokensFrom ⟨position, contextAfter (contextAfter false before) comment⟩
      (Scan.stateAfter .start before.toList) behind.toList).2

/-- What stands behind a block comment is the same tokens as without it, up to the classes of
directive words, and the same altogether if the text of the comment keeps the context. -/
theorem lex_across_comment (before comment behind : String) (ends : EndsLine before)
    (closed : ¬LeavesCommentOpen before)
    (plain : ∀ character ∈ comment.toList, character ≠ '#' ∧ Scan.isQuote character = false) :
    (contextAfter (contextAfter false before) comment = contextAfter false before →
      (lex (before ++ "/# " ++ comment ++ " #/ " ++ behind)).toList.map Token.reading =
        (lex (before ++ behind)).toList.map Token.reading) ∧
    List.Forall₂ (fun token other => token.text = other.text ∧
        (token.tokenClass = other.tokenClass ∨
          (DirectiveWord.ofSpelling? token.text).isSome = true))
      (lex (before ++ "/# " ++ comment ++ " #/ " ++ behind)).toList
      (lex (before ++ behind)).toList := by
  have alike := alike_across_comment ends closed plain behind
  constructor
  · intro same
    rw [← List.forall₂_eq_eq_eq, List.forall₂_map_left_iff, List.forall₂_map_right_iff]
    apply alike.imp
    intro token other tokensAlike
    exact tokensAlike.reading_eq (not_not.mpr same)
  · apply alike.imp
    intro token other tokensAlike
    exact ⟨tokensAlike.text_eq, tokensAlike.tokenClass_eq.imp_right And.right⟩

/-- A comment that says nothing of sections, within a section of directives. -/
theorem lex_across_comment_prose :
    EndsLine "/: 'n'\n" ∧ ¬LeavesCommentOpen "/: 'n'\n" ∧
      (∀ character ∈ "two, or (more)".toList,
        character ≠ '#' ∧ Scan.isQuote character = false) ∧
      contextAfter (contextAfter false "/: 'n'\n") "two, or (more)" =
        contextAfter false "/: 'n'\n" ∧
      (lex ("/: 'n'\n" ++ "/# " ++ "two, or (more)" ++ " #/ " ++ "include 'm'")).toList.map
          Token.reading =
        (lex ("/: 'n'\n" ++ "include 'm'")).toList.map Token.reading := by
  have ends : EndsLine "/: 'n'\n" := .inr ⟨"/: 'n'", by decide, by decide +kernel⟩
  have closed : ¬LeavesCommentOpen "/: 'n'\n" := by
    unfold LeavesCommentOpen
    decide +kernel
  have plain : ∀ character ∈ "two, or (more)".toList,
      character ≠ '#' ∧ Scan.isQuote character = false := by simp [Scan.isQuote]
  have keeps : contextAfter (contextAfter false "/: 'n'\n") "two, or (more)" =
      contextAfter false "/: 'n'\n" := contextAfter_eq (by simp)
  exact ⟨ends, closed, plain, keeps, (lex_across_comment _ _ _ ends closed plain).1 keeps⟩

/-- A separator in a comment makes a directive word of a user word behind the comment. -/
theorem lex_separatorInComment :
    EndsLine "" ∧ ¬LeavesCommentOpen "" ∧
      (∀ character ∈ ":".toList, character ≠ '#' ∧ Scan.isQuote character = false) ∧
      (lex ("" ++ "/# " ++ ":" ++ " #/ " ++ "include")).toList.map Token.reading =
        [(.directiveWord, "include")] ∧
      (lex ("" ++ "include")).toList.map Token.reading = [(.userWord, "include")] := by
  refine ⟨.inl rfl, ?_, by simp [Scan.isQuote], by decide +kernel, by decide +kernel⟩
  unfold LeavesCommentOpen
  decide +kernel

end TnslReader
