import TnslReader.Proofs.CommentStripping
import TnslReader.Proofs.TextLayout

/-!
Contract: the class of a token and its text fit each other.

A grammar asks for the class of a token and looks its text up in the vocabulary, so a token whose
text is not in the table of its class would be read as nothing at all.

Owns:
- what the text of a token of each class is;
- that every token of a source text is of a lexical class and has a text that fits it.
-/

set_option autoImplicit false

namespace TnslReader

/-- The texts of delimiters: the brackets, the markers of blocks, and `#/`. -/
def delimiterTexts : List String :=
  ["(", ")", "[", "]", "\x7b", "\x7d", "/;", ";/", "/:", ":/", ";;", "::", ";:", ":;", "#/"]

def IsReservedWord (tokenClass : TokenClass) (text : String) : Prop :=
  ∃ word, Keyword.ofSpelling? text = some word ∧ word.tokenClass = tokenClass

def IsQuoted (text : String) : Prop :=
  ∃ quote ∈ text.toList.head?, Scan.isQuote quote = true

instance (text : String) : Decidable (IsQuoted text) :=
  decidable_of_iff (text.toList.head?.any Scan.isQuote = true) (Option.any_eq_true _ _)

structure IsUserWord (text : String) : Prop where
  nonempty : text ≠ ""
  plain : ∀ character ∈ text.toList, isBlank character = false ∧
    Scan.isQuote character = false ∧ isReserved character = false
  noDigit : ∀ first ∈ text.toList.head?, Literal.isDigit first = false
  unreserved : Keyword.ofSpelling? text = none

/-- Whether tokens of the class may have the text. -/
def TokenClass.Fits (tokenClass : TokenClass) (text : String) : Prop :=
  match tokenClass with
  | .lineSeparator => text = ";" ∨ text = ":"
  | .inlineSeparator => text = ","
  | .delimiter => text ∈ delimiterTexts
  | .operator => ∃ operator, Operator.ofSpelling? text = some operator
  | .literal => text ∈ ["true", "false", "self", "super"] ∨ Literal.IsNumber text.toList ∨
      IsQuoted text
  | .builtinType => IsReservedWord .builtinType text
  | .directiveWord => ∃ word, DirectiveWord.ofSpelling? text = some word
  | .keyword => IsReservedWord .keyword text
  | .userWord => IsUserWord text
  | .root | .tag => False

/-! ### Words -/

theorem Keyword.tokenClass_cases (keyword : Keyword) :
    keyword.tokenClass = .builtinType ∨ keyword.tokenClass = .keyword ∨
      keyword.tokenClass = .literal ∧ keyword.spelling ∈ ["true", "false", "self", "super"] ∨
      keyword.tokenClass = .operator ∧ (Operator.ofSpelling? keyword.spelling).isSome = true := by
  cases keyword <;> decide +kernel

theorem fits_classifyWord {text : String} (nonempty : text ≠ "")
    (plain : ∀ character ∈ text.toList, Scan.continuesWord character = true)
    (noDigit : Scan.Stops Literal.isDigit text.toList) (context : Bool) :
    (classifyWord text context).Fits text := by
  unfold classifyWord
  by_cases directive : (context && (DirectiveWord.ofSpelling? text).isSome) = true
  · rw [if_pos directive]
    exact Option.isSome_iff_exists.mp (Bool.and_eq_true_iff.mp directive).2
  · rw [if_neg directive]
    cases found : Keyword.ofSpelling? text with
    | none =>
        exact ⟨nonempty, fun character member => Scan.continuesWord_iff.mp (plain character member),
          noDigit, found⟩
    | some keyword =>
        change keyword.tokenClass.Fits text
        have spelled := Keyword.spelling_of_ofSpelling? found
        rcases keyword.tokenClass_cases with
          isType | isKeyword | ⟨isLiteral, listed⟩ | ⟨isOperator, listed⟩
        · rw [isType]
          exact ⟨keyword, found, isType⟩
        · rw [isKeyword]
          exact ⟨keyword, found, isKeyword⟩
        · rw [isLiteral]
          exact .inl (spelled ▸ listed)
        · rw [isOperator]
          exact Option.isSome_iff_exists.mp (spelled ▸ listed)

/-! ### Groups -/

theorem fits_single {entry : ReservedRune} (member : entry ∈ ReservedRune.all)
    (bare : entry.rune ≠ '#') : Marker.ofSpelling? (String.ofList [entry.rune]) = none ∧
      entry.tokenClass.Fits (String.ofList [entry.rune]) := by
  have entries : ∀ entry ∈ ReservedRune.all, entry.rune ≠ '#' →
      Marker.ofSpelling? (String.ofList [entry.rune]) = none ∧
        (entry.tokenClass = .lineSeparator ∧ String.ofList [entry.rune] ∈ [";", ":"] ∨
          entry.tokenClass = .inlineSeparator ∧ String.ofList [entry.rune] = "," ∨
          entry.tokenClass = .delimiter ∧ String.ofList [entry.rune] ∈ delimiterTexts ∨
          entry.tokenClass = .operator ∧
            (Operator.ofSpelling? (String.ofList [entry.rune])).isSome = true) := by
    decide +kernel
  obtain ⟨unmarked, fits⟩ := entries entry member bare
  refine ⟨unmarked, ?_⟩
  rcases fits with ⟨isClass, fits⟩ | ⟨isClass, fits⟩ | ⟨isClass, fits⟩ | ⟨isClass, fits⟩
  · rw [isClass]
    simpa [TokenClass.Fits] using fits
  · rw [isClass]
    exact fits
  · rw [isClass]
    exact fits
  · rw [isClass]
    exact Option.isSome_iff_exists.mp fits

/-- A group is a marker, or has a text that fits its class. -/
theorem fits_classifyGroup {group : List Char} {tokenClass : TokenClass} (bare : group ≠ ['#'])
    (classified : classifyGroup (String.ofList group) = some tokenClass) :
    tokenClass = .delimiter ∧ (Marker.ofSpelling? (String.ofList group)).isSome = true ∨
      Marker.ofSpelling? (String.ofList group) = none ∧ tokenClass.Fits (String.ofList group) := by
  unfold classifyGroup at classified
  rw [String.toList_ofList] at classified
  split at classified
  · cases classified
  · rename_i rune
    obtain ⟨entry, found, rfl⟩ := Option.map_eq_some_iff.mp classified
    have isRune := ReservedRune.rune_of_find? found
    subst isRune
    refine .inr (fits_single (ReservedRune.mem_all_of_find? found) ?_)
    rintro isHash
    exact bare (congrArg (fun rune => [rune]) isHash)
  · unfold classifyCompound at classified
    split at classified
    · rename_i marker found
      exact .inl ⟨(Option.some.inj classified).symm, by rw [found]; rfl⟩
    · rename_i unmarked
      split at classified
      · rename_i operator found
        split_ifs at classified
        rw [← Option.some.inj classified]
        exact .inr ⟨unmarked, operator, found⟩
      · cases classified

namespace Scan

/-! ### Scanned tokens -/

theorem ofSpelling?_eq_none {first : Char} (rest : List Char) (plain : isReserved first = false) :
    Marker.ofSpelling? (String.ofList (first :: rest)) = none := by
  have begins : ∀ marker ∈ Marker.all,
      marker.spelling.toList.head?.all isReserved = true := by decide
  cases found : Marker.ofSpelling? (String.ofList (first :: rest)) with
  | none => rfl
  | some marker =>
      have reserved := begins marker (Marker.mem_all marker)
      rw [Marker.spelling_of_ofSpelling? found, String.toList_ofList, List.head?_cons,
        Option.all_some, plain] at reserved
      cases reserved

/-- Comments apart, the text of a scanned token fits its class. -/
theorem Lexeme.fits {tokenClass : TokenClass} {text : List Char}
    (lexeme : Lexeme tokenClass text) :
    tokenClass = .delimiter ∧ (Marker.ofSpelling? (String.ofList text)).isSome = true ∨
      Marker.ofSpelling? (String.ofList text) = none ∧ tokenClass.Fits (String.ofList text) := by
  cases lexeme with
  | number number =>
      obtain ⟨first, rest, rfl, digit⟩ := number.exists_cons
      refine .inr ⟨ofSpelling?_eq_none rest (isDigit_excludes digit).2.2, .inr (.inl ?_)⟩
      rwa [String.toList_ofList]
  | @quoted quote body rest quoted split =>
      refine .inr ⟨ofSpelling?_eq_none body (isQuote_excludes quoted).2.2, .inr (.inr ?_)⟩
      exact ⟨quote, by simp, quoted⟩
  | group isGroup bare classified => exact fits_classifyGroup bare classified
  | word nonempty continues noDigit =>
      obtain ⟨first, rest, rfl⟩ := List.exists_cons_of_ne_nil nonempty
      have plain := (continuesWord_iff.mp (continues first List.mem_cons_self)).2.2
      refine .inr ⟨ofSpelling?_eq_none rest plain, fits_classifyWord ?_ ?_ ?_ _⟩
      · simp
      · rwa [String.toList_ofList]
      · rwa [String.toList_ofList]

/-- A scanned token is a marker exactly if it has the text of one. -/
theorem Lexeme.marker?_eq {tokenClass : TokenClass} {text : List Char}
    (lexeme : Lexeme tokenClass text) (position : Position) :
    (tokenAt position tokenClass text).marker? = Marker.ofSpelling? (String.ofList text) := by
  rcases lexeme.fits with ⟨isDelimiter, -⟩ | ⟨unmarked, -⟩
  · simp only [Token.marker?, tokenAt, isDelimiter]
  · simp only [Token.marker?, tokenAt, unmarked]
    split <;> rfl

theorem hash_mem_of_not_isBlockMarker (marker : Marker) (touches : marker.isBlockMarker = false) :
    '#' ∈ marker.spelling.toList := by
  cases marker <;> revert touches <;> decide

/-- Text without `#` gives no comment markers. -/
theorem isCommentMarker_eq_false {text : List Char} (plain : '#' ∉ text) (state : State) :
    ∀ token ∈ tokensFrom state text, token.isCommentMarker = false := by
  intro token member
  obtain ⟨before, slice, behind, tokenClass, rfl, lexeme, rfl⟩ :=
    (laid_tokensFrom state text).exists_slice token member
  unfold Token.isCommentMarker
  rw [lexeme.marker?_eq]
  cases found : Marker.ofSpelling? (String.ofList slice) with
  | none => rfl
  | some marker =>
      have spelled := Marker.spelling_of_ofSpelling? found
      by_contra touches
      have hash := hash_mem_of_not_isBlockMarker marker (by simpa using touches)
      rw [spelled, String.toList_ofList] at hash
      exact plain (by simp [hash])

end Scan

/-! ### Tokens of a source text -/

theorem toList_lex (source : String) :
    (lex source).toList = Comment.remains false (Scan.tokensFrom .start source.toList) := by
  rw [lex, Comment.toList_strip, Scan.toList_scan]

theorem toList_lex_of_plain {source : String}
    (plain : ∀ token ∈ Scan.tokensFrom .start source.toList, token.isCommentMarker = false) :
    (lex source).toList = Scan.tokensFrom .start source.toList := by
  rw [toList_lex]
  exact (Comment.remains_of_plain plain false).1

theorem exists_leaves_of_mem_lex {source : String} {token : Token} (member : token ∈ lex source) :
    ∃ before slice behind tokenClass, source.toList = before ++ slice ++ behind ∧
      Scan.Lexeme tokenClass slice ∧
      Comment.Leaves (Scan.tokenAt (Position.start.afterAll before) tokenClass slice) token := by
  rw [← Array.mem_toList_iff, toList_lex] at member
  obtain ⟨origin, scanned, leaves⟩ := Comment.exists_leaves_of_mem_remains member
  obtain ⟨before, slice, behind, tokenClass, cut, lexeme, rfl⟩ :=
    (Scan.laid_tokensFrom .start source.toList).exists_slice origin scanned
  exact ⟨before, slice, behind, tokenClass, cut, lexeme, leaves⟩

theorem Marker.spelling_mem_delimiterTexts {marker : Marker}
    (stays : marker.isBlockMarker = true ∨ marker = .closeComment) :
    marker.spelling ∈ delimiterTexts := by
  cases marker <;> revert stays <;> decide

/-- Every token of a source text is of a lexical class and has a text that fits it. -/
theorem lex_fits (source : String) (token : Token) (member : token ∈ lex source) :
    token.tokenClass.isLexical = true ∧ token.tokenClass.Fits token.text := by
  have isLexical : ∀ {tokenClass : TokenClass} {text : String}, tokenClass.Fits text →
      tokenClass.isLexical = true := by
    intro tokenClass text fits
    cases tokenClass <;> first | rfl | cases fits
  obtain ⟨before, slice, behind, tokenClass, -, lexeme, leaves⟩ :=
    exists_leaves_of_mem_lex member
  have found := lexeme.marker?_eq (Position.start.afterAll before)
  suffices fits : token.tokenClass.Fits token.text from ⟨isLexical fits, fits⟩
  cases leaves with
  | kept keeps =>
      rcases lexeme.fits with ⟨rfl, marked⟩ | ⟨-, fits⟩
      · obtain ⟨marker, isMarker⟩ := Option.isSome_iff_exists.mp marked
        have spelled := Marker.spelling_mem_delimiterTexts (keeps marker (found.trans isMarker))
        rwa [Marker.spelling_of_ofSpelling? isMarker] at spelled
      · exact fits
  | respelled isMarker leaves =>
      rcases lexeme.fits with ⟨rfl, -⟩ | ⟨unmarked, -⟩
      · exact Marker.spelling_mem_delimiterTexts (.inl (Marker.isBlockMarker_of_left? leaves))
      · rw [found, unmarked] at isMarker
        cases isMarker

/-- A marker that ends a block and begins a comment. -/
theorem lex_fits_codeToComment :
    (⟨.delimiter, ";/", 1, 2, ⟨1, 3⟩⟩ : Token) ∈ lex "a;# b" ∧
      (TokenClass.delimiter.isLexical = true ∧ TokenClass.delimiter.Fits ";/") := by
  have member : (⟨.delimiter, ";/", 1, 2, ⟨1, 3⟩⟩ : Token) ∈ lex "a;# b" := by decide +kernel
  exact ⟨member, lex_fits "a;# b" _ member⟩

end TnslReader
