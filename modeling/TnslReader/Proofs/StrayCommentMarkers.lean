import TnslReader.Proofs.CommentStripping
import TnslReader.Proofs.SectionSoundness
import TnslReader.Proofs.UnmarkedTexts

/-!
Contract: comment markers among the tokens that are read.

A comment that was never opened leaves its closing marker among the tokens. No statement and no
header takes such a marker, and no item begins with one. But a directive takes every token up to the
next line separator, block marker or directive word as an argument, whatever it is. So a file that
is read has comment markers among the arguments of directives only.

To say where that is, the tokens before a marker are enough: a directive begins behind a colon, or
anywhere in a preprocessor section, and goes on as long as arguments follow.
-/

set_option autoImplicit false

namespace TnslReader

/-! ### Places within directives -/

def inPreprocessor (before : List Token) : Bool :=
  (before.reverse.find? (·.isBlockMarker)).any fun token =>
    token.marker?.any (·.opens? == some .preprocessor)

/-- Whether a directive may begin behind the text. -/
def mayBeginDirective (before : List Token) : Bool :=
  before.getLast?.any (·.isLineSeparator ':') || inPreprocessor before

/-- Whether the text ends within a directive: only arguments stand behind its last directive word,
and a directive may begin with that word. -/
def endsInDirective (before : List Token) : Bool :=
  match before.reverse.dropWhile Token.isArgument with
  | [] => false
  | word :: front => word.tokenClass == .directiveWord && mayBeginDirective front.reverse

section Places

variable {before text : List Token} {token : Token}

theorem inPreprocessor_append (unmarked : ∀ token ∈ text, token.isBlockMarker = false) :
    inPreprocessor (before ++ text) = inPreprocessor before := by
  have unfound : text.reverse.find? (·.isBlockMarker) = none :=
    List.find?_eq_none.mpr fun token member => by simp [unmarked token (List.mem_reverse.mp member)]
  simp only [inPreprocessor, List.reverse_append, List.find?_append, unfound, Option.none_or]

theorem inPreprocessor_of_turns {closed : Option Section}
    (turns : token.Turns closed (some .preprocessor)) :
    inPreprocessor (before ++ [token]) = true := by
  have isBlockMarker := turns.isBlockMarker
  obtain ⟨marker, found, -, opens, -, -⟩ := turns
  simp [inPreprocessor, isBlockMarker, found, opens]

theorem endsInDirective_append (begins : mayBeginDirective before = true)
    (isWord : token.tokenClass = .directiveWord)
    (arguments : ∀ argument ∈ text, argument.isArgument = true) :
    endsInDirective (before ++ token :: text) = true := by
  have behindWord : (before ++ token :: text).reverse.dropWhile Token.isArgument =
      token :: before.reverse := by
    rw [List.reverse_append, List.reverse_cons, List.append_assoc, List.dropWhile_append_of_pos]
    · simp [Token.isArgument, isWord]
    · exact fun argument member => arguments argument (List.mem_reverse.mp member)
  simp only [endsInDirective, behindWord, isWord, List.reverse_reverse, begins, beq_self_eq_true,
    Bool.and_self]

end Places

/-! ### Where comment markers stand -/

/-- Whether all comment markers of the text stand within directives, when the text is read behind
the given tokens. -/
def Sheltered (before text : List Token) : Prop :=
  ∀ first token rest, text = first ++ token :: rest → token.isCommentMarker = true →
    endsInDirective (before ++ first) = true

namespace Sheltered

variable {before text rest : List Token}

theorem of_forall (unmarked : ∀ token ∈ text, token.isCommentMarker = false) :
    Sheltered before text := by
  rintro first token rest rfl comments
  simp [unmarked token (by simp)] at comments

theorem append (here : Sheltered before text) (later : Sheltered (before ++ text) rest) :
    Sheltered before (text ++ rest) := by
  intro first token others split comments
  rcases List.append_eq_append_iff.mp split with ⟨middle, rfl, seam⟩ | ⟨middle, rfl, seam⟩
  · rw [← List.append_assoc]
    exact later middle token others seam comments
  · cases middle with
    | nil => simpa using later [] token others seam.symm comments
    | cons other middle =>
        obtain ⟨rfl, -⟩ := List.cons.inj seam
        exact here first token middle rfl comments

theorem cons {token : Token} (uncommented : token.isCommentMarker = false)
    (later : Sheltered (before ++ [token]) rest) : Sheltered before (token :: rest) :=
  append (of_forall (List.forall_mem_singleton.mpr uncommented)) later

end Sheltered

theorem Token.isCommentMarker_eq_false_of_marker?_eq_none {token : Token}
    (unmarked : token.marker? = none) : token.isCommentMarker = false := by
  simp [isCommentMarker, unmarked]

theorem Token.Turns.isCommentMarker_eq_false {token : Token} {closed opened : Option Section}
    (turns : token.Turns closed opened) : token.isCommentMarker = false := by
  have isBlockMarker := turns.isBlockMarker
  obtain ⟨marker, found, -⟩ := turns
  simpa [Token.isBlockMarker, Token.isCommentMarker, found] using isBlockMarker

theorem Token.isCommentMarker_eq_false_of_isLineSeparator {token : Token} {rune : Char}
    (separates : token.isLineSeparator rune = true) : token.isCommentMarker = false :=
  isCommentMarker_eq_false_of_marker?_eq_none (marker?_eq_none_of_isLineSeparator separates)

theorem Unmarked.sheltered {before text : List Token} (unmarked : Unmarked text) :
    Sheltered before text :=
  .of_forall fun token member =>
    Token.isCommentMarker_eq_false_of_marker?_eq_none (unmarked token member)

theorem DirectiveText.sheltered {before text : List Token} {node : Node}
    (directive : DirectiveText text node) (begins : mayBeginDirective before = true) :
    Sheltered before text := by
  cases directive with
  | @directive word text isWord arguments =>
      apply Sheltered.cons
      · exact Token.isCommentMarker_eq_false_of_marker?_eq_none
          (Token.marker?_eq_none_of_class (by simp [isWord]))
      · rintro first token rest rfl -
        rw [List.append_assoc, List.singleton_append]
        exact endsInDirective_append begins isWord fun argument member =>
          arguments argument (List.mem_append_left _ member)

theorem DirectivesText.sheltered {text : List Token} {nodes : List Node}
    (directives : DirectivesText text nodes) :
    ∀ {before : List Token}, inPreprocessor before = true → Sheltered before text := by
  induction directives with
  | done => exact fun _ => .of_forall (List.forall_mem_nil _)
  | @colon colon _ _ isColon _ inductionHypothesis =>
      intro before within
      have plain : colon.isBlockMarker = false := by
        simp [Token.isBlockMarker, Token.marker?_eq_none_of_isLineSeparator isColon]
      apply Sheltered.cons (Token.isCommentMarker_eq_false_of_isLineSeparator isColon)
      apply inductionHypothesis
      rwa [inPreprocessor_append (List.forall_mem_singleton.mpr plain)]
  | directive directive _ inductionHypothesis =>
      intro before within
      apply (directive.sheltered (by simp [mayBeginDirective, within])).append
      apply inductionHypothesis
      rwa [inPreprocessor_append directive.isBlockMarker_eq_false]

mutual

theorem ItemText.sheltered {depth chain : Nat} {text : List Token} {node? : Option Node}
    {before : List Token} : ItemText depth chain text node? → Sheltered before text
  | .empty isSemicolon =>
      .cons (Token.isCommentMarker_eq_false_of_isLineSeparator isSemicolon)
        (.of_forall (List.forall_mem_nil _))
  | .statement isSemicolon stated =>
      .cons (Token.isCommentMarker_eq_false_of_isLineSeparator isSemicolon)
        stated.nested.unmarked.sheltered
  | .directive isColon directive =>
      .cons (Token.isCommentMarker_eq_false_of_isLineSeparator isColon)
        (directive.sheltered (by simp [mayBeginDirective, isColon]))
  | .sections sections => sections.sheltered

theorem ItemsText.sheltered {depth chain : Nat} {text : List Token} {nodes : List Node}
    {before : List Token} : ItemsText depth chain text nodes → Sheltered before text
  | .done => .of_forall (List.forall_mem_nil _)
  | .more item later => item.sheltered.append later.sheltered

theorem ChainedText.sheltered {depth chain : Nat} {text : List Token} {node : Node}
    {before : List Token} : ChainedText depth chain text node → Sheltered before text
  | .sections _ opens first later =>
      .cons opens.isCommentMarker_eq_false ((first.sheltered opens).append later.sheltered)

theorem LaterText.sheltered {depth chain : Nat} {kind : Section} {text : List Token}
    {nodes : List Node} {before : List Token} :
    LaterText depth chain kind text nodes → Sheltered before text
  | .done closes =>
      .cons closes.isCommentMarker_eq_false (.of_forall (List.forall_mem_nil _))
  | .more turns here later =>
      .cons turns.isCommentMarker_eq_false ((here.sheltered turns).append later.sheltered)

theorem SectionText.sheltered {depth chain : Nat} {kind : Section} {marker : Token}
    {text : List Token} {node : Node} {before : List Token} {closed : Option Section}
    (turns : marker.Turns closed (some kind)) :
    SectionText depth chain kind marker text node → Sheltered (before ++ [marker]) text
  | .code heading body => heading.unmarked.sheltered.append body.sheltered
  | .preprocessor directives => directives.sheltered (inPreprocessor_of_turns turns)

end

/-! ### Files -/

variable {tokens : Array Token} {label : String} {limits : Limits}

/-- In a file that is read, comment markers stand within directives only. -/
theorem endsInDirective_of_readTree {root : Node} {before behind : List Token} {token : Token}
    (read : readTree tokens label limits = .ok root)
    (split : tokens.toList = before ++ token :: behind) (comments : token.isCommentMarker = true) :
    endsInDirective before = true := by
  obtain ⟨items, -, listed⟩ := itemsText_of_readTree read
  have sheltered : Sheltered [] tokens.toList := listed.sheltered
  exact sheltered before token behind split comments

/-- A file is not read that has the end of a comment anywhere but within a directive. -/
theorem exists_readTree_error_of_closeComment {before behind : List Token} {token : Token}
    (split : tokens.toList = before ++ token :: behind)
    (closes : token.isMarker .closeComment = true) (outside : endsInDirective before = false)
    (label : String) (limits : Limits) : ∃ error, readTree tokens label limits = .error error := by
  have comments : token.isCommentMarker = true := by
    have found : token.marker? = some .closeComment := by simpa [Token.isMarker] using closes
    rw [Token.isCommentMarker, found]
    rfl
  cases read : readTree tokens label limits with
  | error error => exact ⟨error, rfl⟩
  | ok root =>
      rw [endsInDirective_of_readTree read split comments] at outside
      cases outside

/-- In `:include "a" ;f #/` the end of a comment stands behind a directive, but within a
statement. -/
theorem exists_readTree_error_of_closeComment_statement :
    ∃ error, readTree (lex ":include \"a\" ;f #/") "file" .standard = .error error := by
  have split : (lex ":include \"a\" ;f #/").toList =
      [⟨.lineSeparator, ":", 1, 1, ⟨0, 1⟩⟩, ⟨.directiveWord, "include", 1, 2, ⟨1, 8⟩⟩,
        ⟨.literal, "\"a\"", 1, 10, ⟨9, 12⟩⟩, ⟨.lineSeparator, ";", 1, 14, ⟨13, 14⟩⟩,
        ⟨.userWord, "f", 1, 15, ⟨14, 15⟩⟩] ++
      ⟨.delimiter, "#/", 1, 17, ⟨16, 18⟩⟩ :: [] := by
    decide +kernel
  exact exists_readTree_error_of_closeComment split (by decide) (by decide) "file" .standard

/-- The tokens of `:include #/`. -/
def closedInclude : Array Token :=
  #[⟨.lineSeparator, ":", 1, 1, ⟨0, 1⟩⟩, ⟨.directiveWord, "include", 1, 2, ⟨1, 8⟩⟩,
    ⟨.delimiter, "#/", 1, 10, ⟨9, 11⟩⟩]

/-- A directive takes the end of a comment as its argument, and the file is read. -/
theorem closedInclude_read :
    lex ":include #/" = closedInclude ∧ closedInclude[2].isMarker .closeComment = true ∧
      readTree closedInclude "file" .standard = .ok ⟨.root, .root "file",
        [⟨.directive, closedInclude[1], [.leaf .argument closedInclude[2]]⟩]⟩ := by
  refine ⟨?_, ?_, ?_⟩ <;> decide +kernel

end TnslReader
