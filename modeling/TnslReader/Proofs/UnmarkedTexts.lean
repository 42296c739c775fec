import TnslReader.Proofs.SectionGrammar
import TnslReader.Proofs.StatementNesting

/-!
Contract: texts without markers.

Statements, lists of statements and headers hold no marker, neither one that structures blocks nor
one that touches a comment. In a file that is read, markers therefore stand between its sections or
among the arguments of its directives.
-/

set_option autoImplicit false

namespace TnslReader

def Unmarked (text : List Token) : Prop :=
  ∀ token ∈ text, token.marker? = none

namespace Token

variable {token : Token}

theorem marker?_eq_none_of_separatesStatements (separates : token.separatesStatements = true) :
    token.marker? = none := by
  rcases Bool.or_eq_true_iff.mp separates with isComma | isSemicolon
  · exact marker?_eq_none_of_class (by simp [tokenClass_of_isComma isComma])
  · exact marker?_eq_none_of_isLineSeparator isSemicolon

end Token

namespace Unmarked

variable {text rest : List Token}

theorem nil : Unmarked [] :=
  List.forall_mem_nil _

theorem cons {token : Token} (here : token.marker? = none) (later : Unmarked rest) :
    Unmarked (token :: rest) :=
  List.forall_mem_cons.mpr ⟨here, later⟩

theorem append (first : Unmarked text) (second : Unmarked rest) : Unmarked (text ++ rest) :=
  List.forall_mem_append.mpr ⟨first, second⟩

theorem pair {opener closer : Token} {bracket : Bracket} (opens : opener.opens? = some bracket)
    (within : Unmarked text) (closes : closer.closes? = some bracket) (later : Unmarked rest) :
    Unmarked (opener :: (text ++ closer :: rest)) :=
  .cons (Token.marker?_eq_none_of_opens? opens)
    (within.append (.cons (Token.marker?_eq_none_of_closes? closes) later))

end Unmarked

theorem Nested.unmarked {separated : Bool} {text : List Token} (nested : Nested separated text) :
    Unmarked text := by
  induction nested with
  | nil => exact .nil
  | plain _ _ unmarked _ _ _ inductionHypothesis => exact .cons unmarked inductionHypothesis
  | pair opens closes _ _ withinHypothesis laterHypothesis =>
      exact .pair opens withinHypothesis closes laterHypothesis

variable {depth chain : Nat} {text : List Token}

theorem StatementsText.unmarked {nodes : List Node}
    (listed : StatementsText depth chain text nodes) : Unmarked text := by
  induction listed with
  | none => exact .nil
  | last simple => exact simple.nested.unmarked
  | missing separates _ inductionHypothesis =>
      exact .cons (Token.marker?_eq_none_of_separatesStatements separates) inductionHypothesis
  | more simple separates _ inductionHypothesis =>
      exact simple.nested.unmarked.append
        (.cons (Token.marker?_eq_none_of_separatesStatements separates) inductionHypothesis)

theorem HeaderListText.unmarked {control : Bool} {bracket : Bracket} {opener : Token} {node : Node}
    (listed : HeaderListText depth chain control bracket text opener node) : Unmarked text := by
  cases listed with
  | statements listed => exact listed.unmarked
  | parameters listed => exact listed.nested.unmarked
  | types listed => exact listed.nested.unmarked

theorem HeaderWordText.unmarked {state next : HeaderState} {rest : List Token} {node : Node}
    (worded : HeaderWordText state text rest node next) : Unmarked text := by
  have plain : ∀ token ∈ text, token.IsPlain := by
    cases worded with
    | modifier isWord _ => simpa using Token.isPlain_of_isKeyword isWord
    | elseIf _ isElse isIf =>
        simpa using ⟨Token.isPlain_of_isKeyword isElse, Token.isPlain_of_isKeyword isIf⟩
    | control _ isWord _ _ => simpa using Token.isPlain_of_isKeyword isWord
    | operator _ isWord isOperator =>
        simpa using ⟨Token.isPlain_of_isKeyword isWord, Token.isPlain_of_class
          (by simp [isOperator]) (by simp [isOperator]) (by simp [isOperator])⟩
    | name _ isWord _ isName =>
        simpa using ⟨Token.isPlain_of_isKeyword isWord, Token.isPlain_of_userWord isName⟩
  exact fun token member => (plain token member).marker?

theorem HeaderText.unmarked {state : HeaderState} {nodes : List Node}
    (headed : HeaderText depth chain state text nodes) : Unmarked text := by
  induction headed with
  | done => exact .nil
  | list _ _ opens listed closes _ inductionHypothesis =>
      exact .pair opens listed.unmarked closes inductionHypothesis
  | name _ _ isWord _ inductionHypothesis =>
      exact .cons (Token.isPlain_of_userWord isWord).marker? inductionHypothesis
  | word worded _ inductionHypothesis => exact worded.unmarked.append inductionHypothesis
  | condition _ valued _ => exact valued.nested.unmarked

/-! ### Directives -/

theorem Token.isBlockMarker_eq_false_of_isArgument {token : Token}
    (isArgument : token.isArgument = true) : token.isBlockMarker = false := by
  simp only [Token.isArgument, endsStatement, Bool.not_eq_true', Bool.or_eq_false_iff] at isArgument
  exact isArgument.1.2

/-- The arguments of a directive may be markers that touch a comment, but none that structure
blocks. -/
theorem DirectiveText.isBlockMarker_eq_false {node : Node}
    (directive : DirectiveText text node) : ∀ token ∈ text, token.isBlockMarker = false := by
  cases directive with
  | directive isWord arguments =>
      intro token member
      rcases List.mem_cons.mp member with rfl | member
      · simp [Token.isBlockMarker, Token.marker?_eq_none_of_class, isWord]
      · exact Token.isBlockMarker_eq_false_of_isArgument (arguments token member)

end TnslReader
