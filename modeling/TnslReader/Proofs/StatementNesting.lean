import TnslReader.Proofs.StatementGrammar
import TnslReader.Proofs.ValueNesting

/-!
Contract: statements are nested texts.

The brackets of a statement are paired and no other statement ends in it. Between brackets, and
between the names of a definition, there may be commas. The lists of statements in a header are not
nested in this sense, since semicolons may separate them.
-/

set_option autoImplicit false

namespace TnslReader

namespace Token

variable {token : Token}

theorem isPlain_of_userWord (isWord : token.tokenClass = .userWord) : token.IsPlain :=
  isPlain_of_class (by simp [isWord]) (by simp [isWord]) (by simp [isWord])

theorem isPlain_of_literal (isLiteral : token.tokenClass = .literal) : token.IsPlain :=
  isPlain_of_class (by simp [isLiteral]) (by simp [isLiteral]) (by simp [isLiteral])

theorem isPlain_of_isKeyword {word : Keyword} (isWord : token.isKeyword word = true) :
    token.IsPlain := by
  have classified := tokenClass_of_isKeyword isWord
  exact isPlain_of_class (by simp [classified]) (by simp [classified]) (by simp [classified])

end Token

variable {depth chain : Nat} {text : List Token} {node : Node} {nodes : List Node}

theorem SimpleText.nested (simple : SimpleText depth chain text node) : Nested true text := by
  cases simple with
  | definition typed listed _ _ _ _ => exact typed.nested.toSeparated.append listed.nested
  | value valued _ => exact valued.nested.toSeparated

theorem ParameterText.nested {typed : Bool} (parameter : ParameterText depth chain typed text nodes) :
    Nested true text := by
  cases parameter with
  | name _ isWord => exact .cons_of_isPlain (Token.isPlain_of_userWord isWord) .nil
  | typed isType isWord =>
      exact isType.nested.toSeparated.append
        (.cons_of_isPlain (Token.isPlain_of_userWord isWord) .nil)

theorem ParametersText.nested {typed : Bool} (listed : ParametersText depth chain typed text nodes) :
    Nested true text := by
  induction listed with
  | last parameter => exact parameter.nested
  | more parameter isComma _ inductionHypothesis =>
      exact parameter.nested.append (.comma_cons isComma inductionHypothesis)

theorem ParameterListText.nested (listed : ParameterListText depth chain text nodes) :
    Nested true text := by
  cases listed with
  | none => exact .nil
  | some listed => exact listed.nested

theorem SuperTypesText.nested (supers : SuperTypesText depth chain text nodes) :
    Nested true text := by
  cases supers with
  | none => exact .nil
  | listed opens values closes => exact .bracketed opens values.nested closes

theorem BaseTypeText.nested (based : BaseTypeText depth chain text nodes) : Nested true text := by
  cases based with
  | none => exact .nil
  | type opens typed closes => exact .bracketed opens typed.nested.toSeparated closes

theorem KeywordText.nested (worded : KeywordText depth chain text node) : Nested true text := by
  cases worded with
  | struct modified isStruct isWord supers opens listed closes =>
      have members : Nested true _ := .bracketed opens listed.nested closes
      have unmodified : Nested true _ := .cons_of_isPlain (Token.isPlain_of_isKeyword isStruct)
        (.cons_of_isPlain (Token.isPlain_of_userWord isWord) (supers.nested.append members))
      rcases modified with rfl | ⟨raw, isRaw, rfl⟩
      · exact unmodified
      · exact .cons_of_isPlain (Token.isPlain_of_isKeyword isRaw) unmodified
  | enum isEnum isWord based opens listed closes =>
      exact .cons_of_isPlain (Token.isPlain_of_isKeyword isEnum)
        (.cons_of_isPlain (Token.isPlain_of_userWord isWord)
          (based.nested.append (.bracketed opens listed.nested closes)))
  | naming isKeyword _ isWord =>
      exact .cons_of_isPlain (Token.isPlain_of_isKeyword isKeyword)
        (.cons_of_isPlain (Token.isPlain_of_userWord isWord) .nil)
  | looping isKeyword _ => exact .cons_of_isPlain (Token.isPlain_of_isKeyword isKeyword) .nil
  | loopingTimes isKeyword _ isLiteral _ =>
      exact .cons_of_isPlain (Token.isPlain_of_isKeyword isKeyword)
        (.cons_of_isPlain (Token.isPlain_of_literal isLiteral) .nil)
  | returning isReturn => exact .cons_of_isPlain (Token.isPlain_of_isKeyword isReturn) .nil
  | returningValue isReturn valued =>
      exact .cons_of_isPlain (Token.isPlain_of_isKeyword isReturn) valued.nested.toSeparated
  | memory isKeyword _ listed _ =>
      exact .cons_of_isPlain (Token.isPlain_of_isKeyword isKeyword) listed.nested
  | asm isAsm quoted _ =>
      have texts := nested_of_isPlain fun token member =>
        Token.isPlain_of_literal (Token.tokenClass_of_isQuotedText (quoted token member))
      exact .cons_of_isPlain (Token.isPlain_of_isKeyword isAsm) texts.toSeparated

theorem StatementText.nested (stated : StatementText depth chain text node) : Nested true text := by
  cases stated with
  | keyword worded => exact worded.nested
  | simple simple => exact simple.nested

end TnslReader
