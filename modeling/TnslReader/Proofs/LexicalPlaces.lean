import TnslReader.Proofs.LexicalClasses

/-!
Contract: where the tokens of a source text stand.

The place of a token says exactly which part of the source text it was made of. All tokens carry
that part as their text, except the markers that a comment leaves for a block: these stand in the
place of a comment marker and are spelled without `#`.

Owns:
- the text that a token carries for a part of the source text;
- that places are exact and apart, and that nothing but blanks lies between them where nothing is
  commented out.
-/

set_option autoImplicit false

namespace TnslReader

/-- The text that a token carries for the part of the source text it is made of. -/
def carriedText : String → String
  | ";#" => ";/"
  | ":#" => ":/"
  | "#;" => "/;"
  | "#:" => "/:"
  | slice => slice

/-- Where a token stands in a source text: the part that it is made of, with the text before that
and behind it. -/
structure StandsAs (source : String) (token : Token) (before slice behind : List Char) : Prop where
  source_eq : source.toList = before ++ slice ++ behind
  start_eq : token.span.start = (String.ofList before).utf8ByteSize
  stop_eq : token.span.stop = (String.ofList (before ++ slice)).utf8ByteSize
  start_lt_stop : token.span.start < token.span.stop
  text_eq : token.text = carriedText (String.ofList slice)
  line_eq : token.line = before.count '\n' + 1
  column_eq : token.column = (Position.lastLine before).length + 1

/-! ### Texts -/

theorem carriedText_spelling {marker left : Marker} (leaves : marker.left? = some left) :
    carriedText marker.spelling = left.spelling := by
  cases marker <;> cases left <;> revert leaves <;> decide

theorem carriedText_eq_self {text : String}
    (keeps : ∀ marker, Marker.ofSpelling? text = some marker →
      marker.isBlockMarker = true ∨ marker = .closeComment) : carriedText text = text := by
  unfold carriedText
  split
  · exact absurd (keeps .codeToComment (by decide)) (by decide)
  · exact absurd (keeps .preprocessorToComment (by decide)) (by decide)
  · exact absurd (keeps .commentToCode (by decide)) (by decide)
  · exact absurd (keeps .commentToPreprocessor (by decide)) (by decide)
  · rfl

/-- A token that holds a blank is scanned as quoted text. -/
theorem Scan.Lexeme.exists_split_of_isBlank {tokenClass : TokenClass} {text : List Char}
    (lexeme : Scan.Lexeme tokenClass text) {character : Char} (member : character ∈ text)
    (blank : isBlank character = true) :
    tokenClass = .literal ∧ ∃ quote body rest, text = quote :: body ∧ isQuote quote = true ∧
      Literal.splitQuoted quote false (body ++ rest) = (body, rest) := by
  cases lexeme with
  | number number =>
      rcases number.digit_or_point character member with digit | rfl
      · rw [(Scan.isDigit_excludes digit).1] at blank
        cases blank
      · exact absurd blank (by decide)
  | @quoted quote body rest quoted split => exact ⟨rfl, quote, body, rest, rfl, quoted, split⟩
  | group isGroup bare classified =>
      rw [(Scan.isReserved_excludes (isGroup.reserved character member)).1] at blank
      cases blank
  | word nonempty continues noDigit =>
      rw [(Scan.continuesWord_iff.mp (continues character member)).1] at blank
      cases blank

/-- Of all tokens, quoted text alone may hold a blank. -/
theorem Scan.Lexeme.isQuoted_of_isBlank {tokenClass : TokenClass} {text : List Char}
    (lexeme : Scan.Lexeme tokenClass text) {character : Char} (member : character ∈ text)
    (blank : isBlank character = true) :
    tokenClass = .literal ∧ IsQuoted (String.ofList text) := by
  obtain ⟨isLiteral, quote, body, rest, rfl, quoted, -⟩ :=
    lexeme.exists_split_of_isBlank member blank
  exact ⟨isLiteral, quote, by simp, quoted⟩

theorem Marker.isBlank_eq_false (marker : Marker) :
    ∀ character ∈ marker.spelling.toList, isBlank character = false := by
  have noBlank : marker.spelling.toList.all (!isBlank ·) = true := by cases marker <;> decide
  simpa using noBlank

/-! ### Places -/

theorem standsAs_of_leaves {source : String} {token : Token} {before slice behind : List Char}
    {tokenClass : TokenClass} (cut : source.toList = before ++ slice ++ behind)
    (lexeme : Scan.Lexeme tokenClass slice)
    (leaves : Comment.Leaves
      (Scan.tokenAt (Position.start.afterAll before) tokenClass slice) token) :
    StandsAs source token before slice behind := by
  have found := lexeme.marker?_eq (Position.start.afterAll before)
  have positive : 0 < (String.ofList slice).utf8ByteSize := by
    apply Nat.pos_of_ne_zero
    intro empty
    exact lexeme.ne_nil (by simpa using empty)
  have text_eq : token.text = carriedText (String.ofList slice) := by
    cases leaves with
    | kept keeps =>
        rw [found] at keeps
        exact (carriedText_eq_self keeps).symm
    | respelled isMarker leaves =>
        rw [found] at isMarker
        rw [← Marker.spelling_of_ofSpelling? isMarker, carriedText_spelling leaves]
        rfl
  obtain ⟨span_eq, line_eq, column_eq⟩ := leaves.place_eq
  constructor
  · exact cut
  · simp [span_eq, Scan.tokenAt, Position.offset_afterAll, Position.start]
  · simp [span_eq, Scan.tokenAt, Position.offset_afterAll, Position.start]
  · simpa [span_eq, Scan.tokenAt, Position.offset_afterAll, Position.start] using positive
  · exact text_eq
  · rw [line_eq, Nat.add_comm]
    exact Position.line_afterAll .start before
  · rw [column_eq]
    exact Position.column_afterAll before

theorem lex_pairwise (source : String) : (lex source).toList.Pairwise fun first second =>
    first.span.stop ≤ second.span.start := by
  have scanned := (Scan.laid_tokensFrom .start source.toList).pairwise
  rw [toList_lex]
  rw [← List.pairwise_map (f := Token.span) (R := fun first second => first.stop ≤ second.start)]
    at scanned ⊢
  exact scanned.sublist (Comment.span_remains_sublist false _)

/-- Tokens have exact places and lie apart, in order. Where nothing is commented out, every
character between them is a blank, and none of them but quoted text holds a blank. -/
theorem lex_places (source : String) :
    (∀ token ∈ lex source, ∃ before slice behind, StandsAs source token before slice behind) ∧
      ((lex source).toList.Pairwise fun first second =>
        first.span.start < second.span.start ∧ first.span.stop ≤ second.span.start) ∧
      ('#' ∉ source.toList →
        (∀ before character behind, source.toList = before ++ character :: behind →
          isBlank character = true ∨
            ∃ token ∈ lex source, token.span.Covers (String.ofList before).utf8ByteSize) ∧
        ∀ token ∈ lex source, ∀ character ∈ token.text.toList, isBlank character = true →
          token.tokenClass = .literal ∧ IsQuoted token.text) := by
  have places : ∀ token ∈ lex source,
      ∃ before slice behind, StandsAs source token before slice behind := by
    intro token member
    obtain ⟨before, slice, behind, tokenClass, cut, lexeme, leaves⟩ :=
      exists_leaves_of_mem_lex member
    exact ⟨before, slice, behind, standsAs_of_leaves cut lexeme leaves⟩
  refine ⟨places, ?_, fun plain => ⟨?_, ?_⟩⟩
  · apply (lex_pairwise source).imp_of_mem
    intro first second member _ apart
    obtain ⟨before, slice, behind, stands⟩ := places first (Array.mem_toList_iff.mp member)
    exact ⟨Nat.lt_of_lt_of_le stands.start_lt_stop apart, apart⟩
  · intro before character behind cut
    have laid := Scan.laid_tokensFrom .start source.toList
    have isScan := toList_lex_of_plain (Scan.isCommentMarker_eq_false plain .start)
    rcases laid.covers cut plain with blank | ⟨token, member, covers⟩
    · exact .inl blank
    · refine .inr ⟨token, Array.mem_toList_iff.mp (isScan ▸ member), ?_⟩
      simpa [Position.offset_afterAll, Scan.State.start, Position.start] using covers
  · intro token member character inText blank
    obtain ⟨before, slice, behind, tokenClass, -, lexeme, leaves⟩ :=
      exists_leaves_of_mem_lex member
    cases leaves with
    | kept keeps =>
        simp only [Scan.tokenAt, String.toList_ofList] at inText
        exact lexeme.isQuoted_of_isBlank inText blank
    | @respelled _ left found leaves =>
        rw [left.isBlank_eq_false character inText] at blank
        cases blank

/-- An accented word, an operator, and quoted text with a blank. -/
theorem lex_places_accented :
    (⟨.literal, "\"a b\"", 1, 5, ⟨5, 10⟩⟩ : Token) ∈ lex "é = \"a b\"" ∧
      '#' ∉ "é = \"a b\"".toList ∧
      (∃ before slice behind, StandsAs "é = \"a b\""
        ⟨.literal, "\"a b\"", 1, 5, ⟨5, 10⟩⟩ before slice behind) ∧
      ((lex "é = \"a b\"").toList.Pairwise fun first second =>
        first.span.start < second.span.start ∧ first.span.stop ≤ second.span.start) ∧
      (isBlank '=' = true ∨ ∃ token ∈ lex "é = \"a b\"",
        token.span.Covers (String.ofList ['é', ' ']).utf8ByteSize) ∧
      (TokenClass.literal = .literal ∧ IsQuoted "\"a b\"") := by
  have member : (⟨.literal, "\"a b\"", 1, 5, ⟨5, 10⟩⟩ : Token) ∈ lex "é = \"a b\"" := by
    decide +kernel
  have plain : '#' ∉ "é = \"a b\"".toList := by decide
  obtain ⟨places, apart, bare⟩ := lex_places "é = \"a b\""
  obtain ⟨covered, quoted⟩ := bare plain
  refine ⟨member, plain, places _ member, apart, ?_, ?_⟩
  · exact covered ['é', ' '] '=' [' ', '"', 'a', ' ', 'b', '"'] (by decide)
  · exact quoted _ member ' ' (by decide) (by decide)

end TnslReader
