import TnslReader.Proofs.DefinitionsApart
import TnslReader.Proofs.SectionSoundness

/-!
Contract: the errors that the reader answers with.

Every error arises in the stream, whatever the tokens, the limits and the indexes are. The reader
therefore never breaks its own rules: no token is asked for where there is none, no bracket pair is
looked for at a token that opens none, and nothing is given back that was not taken.

The report about an error quotes the token that the error is about. This is a token of the stream,
but for one violation: an item of a definition that is no name is told by the token of its node, and
where the item takes brackets, that token is made for the node and is spelled nowhere in the stream.

Owns:
- the errors of the public readings, and that none is a fault;
- where the reports about errors point, and which tokens they quote.
Does not own: where the tokens of a source text stand.
-/

set_option autoImplicit false

namespace TnslReader

variable {tokens : Array Token} {error : ParseError}

theorem Sound.ne_fault {α : Type} {answer : Except ParseError α} {property : α → Prop}
    (sound : Sound tokens answer property) (fault : Fault) : answer ≠ .error (.fault fault) := by
  rintro rfl
  exact sound

/-! ### Where errors arise -/

theorem readTree_arisesIn {label : String} {limits : Limits}
    (failed : readTree tokens label limits = .error error) : error.ArisesIn tokens := by
  have sound := sound_readTree tokens label limits
  rwa [failed] at sound

/-- A value ends within the stream, wherever the search for its end begins. -/
theorem sound_valueExtent_anywhere (tokens : Array Token) (start limit : Nat) :
    Sound tokens (valueExtent tokens start limit) (· ≤ tokens.size) := by
  have within : min limit tokens.size ≤ tokens.size := Nat.min_le_right ..
  unfold valueExtent
  by_cases bound : start ≤ min limit tokens.size
  · exact (sound_valueExtentFrom within bound).mono fun stop ends =>
      Nat.le_trans ends.stop_le_limit within
  · rw [valueExtentFrom.eq_def, dif_neg (by omega)]
    exact within

theorem sound_readValue (tokens : Array Token) (start stop : Nat) :
    Sound tokens (readValue tokens start stop) fun read =>
      IsValue (slice tokens start read.2) read.1 := by
  unfold readValue
  apply (sound_valueExtent_anywhere tokens start stop).bind
  intro behind size
  apply (value_ensures size).2.bind
  rintro node ⟨order, value⟩
  exact Sound.ok ⟨_, _, order, value⟩

theorem sound_readType (tokens : Array Token) (start stop : Nat) (inParameter : Bool) :
    Sound tokens (readType tokens start stop inParameter) fun read =>
      ∃ depth chain, TypeText inParameter depth chain (slice tokens start read.2) read.1 := by
  unfold readType
  apply (typeAt_ensures (Nat.min_le_right ..)).2.bind
  rintro type ⟨-, read, -⟩
  exact Sound.ok ⟨_, _, read⟩

theorem exists_isDefinition_eq (tokens : Array Token) (start stop : Nat) :
    ∃ defines, isDefinition tokens start stop = .ok defines := by
  have within : min stop tokens.size ≤ tokens.size := Nat.min_le_right ..
  obtain ⟨defines, answered⟩ := @exists_isDefinitionAt_eq tokens start _ within (.none .standard)
  exact ⟨defines, by rw [isDefinition, Reading.answer, answered]⟩

/-- No reading breaks a rule of the reader, for any tokens, limits and indexes. -/
theorem readings_faultless (tokens : Array Token) (label : String) (limits : Limits)
    (start stop : Nat) (inParameter : Bool) :
    (∀ fault, readTree tokens label limits ≠ .error (.fault fault)) ∧
      (∀ fault, readValue tokens start stop ≠ .error (.fault fault)) ∧
      (∀ fault, readType tokens start stop inParameter ≠ .error (.fault fault)) ∧
      ∃ defines, isDefinition tokens start stop = .ok defines :=
  ⟨(sound_readTree tokens label limits).ne_fault, (sound_readValue tokens start stop).ne_fault,
    (sound_readType tokens start stop inParameter).ne_fault,
    exists_isDefinition_eq tokens start stop⟩

/-! ### Where reports point -/

/-- Whether the report points into the stream: at one of its tokens, or behind the last one. -/
def Diagnostic.PointsInto (diagnostic : Diagnostic) (tokens : Array Token) : Prop :=
  ∃ token ∈ tokens, diagnostic.position? = some (token.line, token.column) ∧
    (diagnostic.span = token.span ∨
      tokens.back? = some token ∧ diagnostic.span = ⟨token.span.stop, token.span.stop⟩)

theorem ParseError.StandsIn.pointsInto (stands : error.StandsIn tokens) (filled : tokens ≠ #[]) :
    error.diagnostic.PointsInto tokens := by
  cases error with
  | violation cause token =>
      obtain ⟨anchor, member, line, column, span⟩ := stands
      refine ⟨anchor, Array.mem_toList_iff.mp member, ?_, .inl span⟩
      rw [← line, ← column]
      rfl
  | endOfInput expectation last =>
      obtain ⟨token, isLast⟩ : ∃ token, tokens.back? = some token :=
        Option.ne_none_iff_exists'.mp (mt Array.back?_eq_none_iff.mp filled)
      obtain rfl : last = some token := stands.trans isLast
      exact ⟨token, Array.mem_of_back? isLast, rfl, .inr ⟨isLast, rfl⟩⟩
  | tooDeep limit token => exact ⟨token, stands, rfl, .inl rfl⟩
  | tooLong limit token => exact ⟨token, stands, rfl, .inl rfl⟩
  | fault => exact stands.elim

/-- A stream without tokens is read, so there is a token to point at where reading fails. -/
theorem readTree_error_pointsInto {label : String} {limits : Limits}
    (failed : readTree tokens label limits = .error error) :
    error.diagnostic.PointsInto tokens := by
  apply (readTree_arisesIn failed).standsIn.pointsInto
  rintro rfl
  rw [readTree, rootItemsFrom, dif_neg (by simp)] at failed
  cases failed

/-! ### What reports quote -/

namespace Diagnostic

def quotation (token : Token) : String :=
  ": `" ++ token.text ++ "` at line " ++ toString token.line ++ ", column " ++
    toString token.column

/-- Whether the report is about the token: it has the token's place, and its message ends with the
token's text and place. -/
def Quotes (diagnostic : Diagnostic) (token : Token) : Prop :=
  diagnostic.span = token.span ∧ diagnostic.position? = some (token.line, token.column) ∧
    (quotation token).toList <:+ diagnostic.message.toList

instance (diagnostic : Diagnostic) (token : Token) : Decidable (diagnostic.Quotes token) :=
  inferInstanceAs (Decidable (_ ∧ _ ∧ _))

theorem quotes_atToken (kind : DiagnosticKind) (message : String) (token : Token) :
    (atToken kind message token).Quotes token := by
  refine ⟨rfl, rfl, message.toList, ?_⟩
  simp only [atToken, quotation, String.toList_append, List.append_assoc]

end Diagnostic

def ParseError.subject? : ParseError → Option Token
  | .violation _ token | .tooDeep _ token | .tooLong _ token => some token
  | .endOfInput _ _ | .fault _ => none

theorem ParseError.quotes_subject {token : Token} (subject : error.subject? = some token) :
    error.diagnostic.Quotes token := by
  cases error with
  | violation cause other =>
      cases subject
      exact Diagnostic.quotes_atToken _ _ token
  | tooDeep limit other =>
      cases subject
      exact Diagnostic.quotes_atToken .limit _ token
  | tooLong limit other =>
      cases subject
      exact Diagnostic.quotes_atToken .limit _ token
  | endOfInput | fault => cases subject

/-- An error that is not about the end of the stream is reported by quoting a token of the stream.
There is one exception: where an item of a definition is a value in brackets, or with brackets
behind it, the report has the place of the opening bracket and quotes a token made for the value. -/
theorem readTree_error_quotes {label : String} {limits : Limits}
    (failed : readTree tokens label limits = .error error) :
    (∃ expectation last, error = .endOfInput expectation last) ∨
      (∃ token ∈ tokens, error.diagnostic.Quotes token) ∨
      ∃ (kind : NodeKind) (bracket : Bracket) (opener : Token),
        kind.valueBracket? = some bracket ∧ opener ∈ tokens ∧ opener.opens? = some bracket ∧
          error = .violation (.expected .definedName) (.tag kind.tag opener) := by
  have arises := readTree_arisesIn failed
  cases error with
  | violation cause token =>
      rcases arises with member | ⟨rfl, kind, bracket, opener, takes, member, opens, rfl⟩
      · exact .inr (.inl ⟨token, member, ParseError.quotes_subject rfl⟩)
      · exact .inr (.inr ⟨kind, bracket, opener, takes, Array.mem_toList_iff.mp member, opens, rfl⟩)
  | endOfInput expectation last => exact .inl ⟨expectation, last, rfl⟩
  | tooDeep limit token => exact .inr (.inl ⟨token, arises, ParseError.quotes_subject rfl⟩)
  | tooLong limit token => exact .inr (.inl ⟨token, arises, ParseError.quotes_subject rfl⟩)
  | fault => exact arises.elim

/-- The tokens of `;int f(x)`. -/
def calledName : Array Token :=
  #[⟨.lineSeparator, ";", 1, 1, ⟨0, 1⟩⟩, ⟨.builtinType, "int", 1, 2, ⟨1, 4⟩⟩,
    ⟨.userWord, "f", 1, 6, ⟨5, 6⟩⟩, ⟨.delimiter, "(", 1, 7, ⟨6, 7⟩⟩,
    ⟨.userWord, "x", 1, 8, ⟨7, 8⟩⟩, ⟨.delimiter, ")", 1, 9, ⟨8, 9⟩⟩]

/-- With one level only, the call goes too deep, and the report quotes its opening bracket. -/
theorem readTree_error_quotes_calledName :
    ∃ token ∈ calledName, (ParseError.tooDeep 1 calledName[3]).diagnostic.Quotes token := by
  have failed : readTree calledName "file" ⟨1, 0⟩ = .error (.tooDeep 1 calledName[3]) := by
    decide +kernel
  rcases readTree_error_quotes failed with ⟨expectation, last, same⟩ | quoted | exception
  · cases same
  · exact quoted
  · obtain ⟨kind, bracket, opener, -, -, -, same⟩ := exception
    cases same

/-- A called name is no name for a definition, and the report says so of `call`, which is spelled
nowhere in the stream. -/
theorem calledName_unquoted :
    readTree calledName "file" .standard =
        .error (.violation (.expected .definedName) (.tag "call" calledName[3])) ∧
      (ParseError.violation (.expected .definedName) (.tag "call" calledName[3])).diagnostic.message
        = "expected a name or `name = value` in definition: `call` at line 1, column 7" ∧
      ∀ token ∈ calledName,
        ¬(ParseError.violation (.expected .definedName)
          (.tag "call" calledName[3])).diagnostic.Quotes token := by
  refine ⟨?_, ?_, ?_⟩ <;> decide +kernel

end TnslReader
