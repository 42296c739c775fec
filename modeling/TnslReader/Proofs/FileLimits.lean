import TnslReader.Proofs.DefinitionsApart
import TnslReader.Proofs.SectionLikeness
import TnslReader.Proofs.SectionSoundness

/-!
Contract: one file under two limits.

Under greater limits a file that is read is read again, as the same tree. All readings but one are
plainly alike under the two limits. The one that looks ahead for a definition is not, since it takes
a limit for a no: what it takes for a value under the small limits may be a definition under the
great ones. But then it is no value, by `ValueText.not_definition`, so the first reading fails.

It fails with an error of the grammar, although nothing is wrong with the file but its depth. That
is the one way in which an error of the grammar depends on the limits, and it is told here by name,
as a misreading. Only a statement that the run comes to can be misread, and its error is the error
of the file.
-/

set_option autoImplicit false

namespace TnslReader

variable {tokens : Array Token} {small large : Limits}

/-- An error at a limit is reported as one. -/
theorem ParseError.kind_of_isLimit {error : ParseError} (isLimit : error.IsLimit) :
    error.diagnostic.kind = .limit := by
  cases error with
  | tooDeep | tooLong => rfl
  | violation | endOfInput | fault => exact isLimit.elim

/-- Whether the error comes of taking a definition for a value. The run under the small limits comes
to a statement and fails there. The statement begins with a type and a user word if the greater
limits apply, with the same in use of both. Under the small limits its type stops at a limit, and
the error is that the statement is no value. -/
def IsMisreading (tokens : Array Token) (small large : Limits) (error : ParseError) : Prop :=
  ∃ low high usage room, low < high ∧ high ≤ tokens.size ∧
    (usage.limits = small ∧ room.limits = large ∧ usage.depth = room.depth ∧
      usage.chain = room.chain) ∧
    Reaches tokens (.rootItems 0, .none small) (.simpleStatement low high, usage) ∧
    simpleStatement tokens low high usage = .error error usage ∧
    (∃ stopped, stopped.IsLimit ∧ (typeAt tokens false low high).answer usage = .error stopped) ∧
    (isDefinitionAt tokens low high).answer room = .ok true ∧
    (valueStatement tokens low high).answer usage = .error error

/-- A misreading is the error of the whole file. -/
theorem IsMisreading.readTree_eq {label : String} {error : ParseError}
    (misread : IsMisreading tokens small large error) :
    readTree tokens label small = .error error := by
  obtain ⟨_, _, _, _, -, -, -, reached, failed, -⟩ := misread
  have ran : rootItemsFrom tokens 0 (.none small) = .error error (.none small) :=
    reached.fails failed
  rw [readTree, Reading.answer, ran]
  rfl

/-- The tokens of `;return {1}int x`. -/
def returnedDefinition : Array Token :=
  #[⟨.lineSeparator, ";", 1, 1, ⟨0, 1⟩⟩, ⟨.keyword, "return", 1, 2, ⟨1, 7⟩⟩,
    ⟨.delimiter, "\x7b", 1, 9, ⟨8, 9⟩⟩, ⟨.literal, "1", 1, 10, ⟨9, 10⟩⟩,
    ⟨.delimiter, "\x7d", 1, 11, ⟨10, 11⟩⟩, ⟨.builtinType, "int", 1, 12, ⟨11, 14⟩⟩,
    ⟨.userWord, "x", 1, 16, ⟨15, 16⟩⟩]

/-- Behind `return` stands a value whatever the limits, so nothing is misread there. -/
theorem not_isMisreading_returnedDefinition {error : ParseError} :
    ¬IsMisreading returnedDefinition small large error := by
  have separator : ∀ index : Fin returnedDefinition.size,
      returnedDefinition[index].isLineSeparator ';' = true → index.val = 0 := by decide
  have bracket : ∀ index : Fin returnedDefinition.size, returnedDefinition[index].opens? = none ∨
      returnedDefinition[index].opens? = some .curly := by decide
  rintro ⟨low, high, usage, _, _, _, _, reached, _⟩
  rcases reached.statement_or_listed with ⟨stated, first, present, noKeyword⟩ | listed
  · obtain ⟨semicolon, token, rfl, _, found, separates⟩ := stated.exists_semicolon
    obtain ⟨inside, rfl⟩ := Array.getElem?_eq_some_iff.mp found
    obtain rfl : semicolon = 0 := separator ⟨semicolon, inside⟩ separates
    cases present
    exact noKeyword (by decide)
  · obtain ⟨opener, _, _, list, _⟩ := listed
    obtain ⟨token, kind, found, opens, listable⟩ := list.exists_bracket
    obtain ⟨inside, rfl⟩ := Array.getElem?_eq_some_iff.mp found
    rcases bracket ⟨opener, inside⟩ with none | curly
    · cases none.symm.trans opens
    · exact listable (Option.some.inj (opens.symm.trans curly))

namespace Likeness

def ofLimits (tokens : Array Token) (within : small.Within large) : Likeness tokens tokens where
  offset := 0
  low := 0
  high := tokens.size
  tokenWithin index _ inside := by
    rw [Nat.zero_add]
    exact ⟨tokens[index], Array.getElem?_eq_getElem inside, Array.getElem?_eq_getElem inside⟩
  small := small
  large := large
  within := within
  excused := ParseError.IsLimit
  exact := True
  limited := .inr fun _ => id
  ending _ := ⟨by rw [Nat.zero_add], rfl⟩

/-- A stream is like itself under greater limits, up to errors at a limit and misreadings. -/
def ofFile (tokens : Array Token) (within : small.Within large) : Likeness tokens tokens :=
  (ofLimits tokens within).excusing (IsMisreading tokens small large)

theorem reachesEnd_ofFile {within : small.Within large} : (ofFile tokens within).ReachesEnd where
  low_eq := rfl
  size_eq := (Nat.zero_add _).symm
  high_le := Nat.le_refl _
  behind := .inl rfl

end Likeness

/-! ### The look ahead under two limits -/

/-- A type that stops at a limit is taken for none. -/
theorem isDefinitionAt_eq_false {low high : Nat} {usage : Usage} {error : ParseError}
    (stopped : typeAt tokens false low high usage = .error error usage) (isLimit : error.IsLimit) :
    isDefinitionAt tokens low high usage = .ok false usage := by
  unfold isDefinitionAt Reading.succeeds
  rw [stopped]
  cases error with
  | fault => exact isLimit.elim
  | _ => rfl

/-- What is a definition under some limits is no value statement under any. -/
theorem exists_valueStatement_error {low high : Nat} {room : Usage} (usage : Usage)
    (size : high ≤ tokens.size) (inside : low < high)
    (defines : isDefinitionAt tokens low high room = .ok true room) :
    ∃ error, valueStatement tokens low high usage = .error error usage := by
  obtain ⟨error, -, failed⟩ := exists_value_error_of_isDefinitionAt size usage defines
  refine ⟨error, ?_⟩
  have present := Array.getElem?_eq_getElem (show low < tokens.size by omega)
  rw [valueStatement, Sound.tokenAt_eq_ok present, Reading.lift_ok_bind]
  exact Reading.bind_eq_of_error failed

/-- A definition whose type stops at a limit fails at that limit or is misread. -/
theorem simpleStatement_misreads {low high : Nat} {usage room : Usage} {stopped : ParseError}
    (size : high ≤ tokens.size) (inside : low < high)
    (stops : typeAt tokens false low high usage = .error stopped usage)
    (isLimit : stopped.IsLimit) (sameDepth : usage.depth = room.depth)
    (sameChain : usage.chain = room.chain)
    (defines : isDefinitionAt tokens low high room = .ok true room)
    (reached : Reaches tokens (.rootItems 0, .none usage.limits)
      (.simpleStatement low high, usage)) :
    ∃ error, simpleStatement tokens low high usage = .error error usage ∧
      (error.IsLimit ∨ IsMisreading tokens usage.limits room.limits error) := by
  have present := Array.getElem?_eq_getElem (show low < tokens.size by omega)
  have looked := isDefinitionAt_eq_false stops isLimit
  by_cases qualifier : tokens[low].isQualifierWord = true
  · refine ⟨stopped, ?_, .inl isLimit⟩
    rw [simpleStatement, Reading.bind_eq_of_ok looked, if_neg (by simp),
      Sound.tokenAt_eq_ok present, Reading.lift_ok_bind, if_pos qualifier]
    exact Reading.bind_eq_of_error stops
  · obtain ⟨error, valueFailed⟩ := exists_valueStatement_error usage size inside defines
    have failed : simpleStatement tokens low high usage = .error error usage := by
      rw [simpleStatement_eq_valueStatement looked present (by simpa using qualifier), valueFailed]
    refine ⟨error, failed, .inr ⟨low, high, usage, room, inside, size,
      ⟨rfl, rfl, sameDepth, sameChain⟩, reached, failed, ⟨stopped, isLimit, ?_⟩, ?_, ?_⟩⟩
    · rw [Reading.answer, stops]
    · rw [Reading.answer, defines]
    · rw [Reading.answer, valueFailed]

/-- Definitions and bare values are read alike, up to errors at a limit and misreadings. -/
theorem readsSimple_ofFile {within : small.Within large} :
    (Likeness.ofFile tokens within).ReadsSimple (.rootItems 0, .none small) := by
  intro start stop low high usage room starts stops inside pairs reached
  obtain rfl : start = low := starts.1.trans (Nat.zero_add _)
  obtain rfl : stop = high := stops.1.trans (Nat.zero_add _)
  have size : stop ≤ tokens.size := stops.2.2
  by_cases atLimit : ∃ error after, typeAt tokens false start stop usage = .error error after ∧
      error.IsLimit
  · obtain ⟨error, after, stopped, isLimit⟩ := atLimit
    obtain rfl : usage = after := by
      have ensured := Reading.ensures_iff.mp (@typeAt_ensures tokens false start stop usage size)
      rw [stopped] at ensured
      exact ensured.1.symm
    obtain ⟨defines, otherLooked⟩ := exists_isDefinitionAt_eq size room
    cases defines with
    | true =>
        obtain ⟨isSmall, isLarge, sameDepth, sameChain⟩ := pairs
        obtain ⟨failure, failed, excused⟩ :=
          simpleStatement_misreads size inside stopped isLimit sameDepth sameChain otherLooked
            (isSmall ▸ reached)
        rw [isSmall, isLarge] at excused
        exact Likeness.alikeFrom_of_excused failed excused
    | false =>
        refine Likeness.simpleStatement_alikeFrom starts stops inside pairs ?_
        unfold Likeness.AlikeFrom
        rw [isDefinitionAt_eq_false stopped isLimit]
        exact ⟨rfl, false, otherLooked, rfl⟩
  · refine Likeness.simpleStatement_alikeFrom starts stops inside pairs ?_
    refine Likeness.AlikeFrom.excusing (Likeness.isDefinitionAt_alikeFrom starts stops pairs ?_)
    exact fun error after failed isLimit => atLimit ⟨error, after, failed, isLimit⟩

/-! ### Files -/

/-- The items of a file are alike under the two limits. -/
theorem rootItemsFrom_alike_ofFile (within : small.Within large) :
    (Likeness.ofFile tokens within).AlikeFrom (.none small) (.none large)
      (rootItemsFrom tokens 0) (rootItemsFrom tokens 0) Eq :=
  Likeness.rootItemsFrom_alikeFrom readsSimple_ofFile Likeness.reachesEnd_ofFile rfl
    ⟨rfl, Nat.le_refl _, Nat.zero_le _⟩ ⟨rfl, rfl, rfl, rfl⟩ .refl

/-- A file that is read is read as the same tree under all greater limits. -/
theorem readTree_of_within {label : String} {root : Node} (within : small.Within large)
    (read : readTree tokens label small = .ok root) : readTree tokens label large = .ok root := by
  have alike := @rootItemsFrom_alike_ofFile tokens small large within
  unfold Likeness.AlikeFrom at alike
  unfold readTree Reading.answer at read ⊢
  cases ran : rootItemsFrom tokens 0 (.none small) with
  | ok items after =>
      rw [ran] at alike read
      obtain ⟨-, otherItems, answered, rfl⟩ := alike
      rw [answered]
      exact read
  | error error after =>
      rw [ran] at read
      cases read

/-- The tokens of `;{1}int x`. -/
def arrayDefinition : Array Token :=
  #[⟨.lineSeparator, ";", 1, 1, ⟨0, 1⟩⟩, ⟨.delimiter, "\x7b", 1, 2, ⟨1, 2⟩⟩,
    ⟨.literal, "1", 1, 3, ⟨2, 3⟩⟩, ⟨.delimiter, "\x7d", 1, 4, ⟨3, 4⟩⟩,
    ⟨.builtinType, "int", 1, 5, ⟨4, 7⟩⟩, ⟨.userWord, "x", 1, 9, ⟨8, 9⟩⟩]

def arrayDefinitionTree : Node :=
  ⟨.root, .root "file", [.tagged .definition arrayDefinition[1]
    [.tagged .type arrayDefinition[1]
      [.tagged .array arrayDefinition[1] [.leaf .literal arrayDefinition[2]],
        .leaf .typeName arrayDefinition[4]],
      .tagged .valueList arrayDefinition[5] [.leaf .identifier arrayDefinition[5]]]]⟩

/-- Two levels and no chained operator are enough for an array of a given length. -/
theorem readTree_of_within_arrayDefinition :
    readTree arrayDefinition "file" .standard = .ok arrayDefinitionTree := by
  have read : readTree arrayDefinition "file" ⟨2, 0⟩ = .ok arrayDefinitionTree := by
    decide +kernel
  exact readTree_of_within ⟨by decide, by decide⟩ read

/-- A file that fails with an error of the grammar fails with the same error under all greater
limits, unless the error comes of taking a definition for a value. -/
theorem readTree_error_of_within {label : String} {error : ParseError}
    (within : small.Within large) (failed : readTree tokens label small = .error error)
    (grammar : error.diagnostic.kind = .grammar) :
    readTree tokens label large = .error error ∨ IsMisreading tokens small large error := by
  have alike := @rootItemsFrom_alike_ofFile tokens small large within
  unfold Likeness.AlikeFrom at alike
  unfold readTree Reading.answer at failed ⊢
  cases ran : rootItemsFrom tokens 0 (.none small) with
  | ok items after =>
      rw [ran] at failed
      cases failed
  | error found after =>
      rw [ran] at alike failed
      obtain rfl : found = error := by simpa [Except.map] using failed
      obtain ⟨-, (isLimit | misread) | ⟨otherError, otherFailed, -, -, same⟩⟩ := alike
      · cases grammar.symm.trans (ParseError.kind_of_isLimit isLimit)
      · exact .inr misread
      · rw [otherFailed, ← same trivial]
        exact .inl rfl

/-- With one level only, the type of the definition stops at its length, and the range is
misread. -/
theorem readTree_error_of_within_arrayDefinition :
    IsMisreading arrayDefinition ⟨1, 0⟩ .standard
      (.violation .tokenAfterComposite arrayDefinition[4]) := by
  have failed : readTree arrayDefinition "file" ⟨1, 0⟩ =
      .error (.violation .tokenAfterComposite arrayDefinition[4]) := by
    decide +kernel
  have read : readTree arrayDefinition "file" .standard = .ok arrayDefinitionTree := by
    decide +kernel
  refine (readTree_error_of_within ⟨by decide, by decide⟩ failed rfl).resolve_left ?_
  rw [read]
  intro same
  cases same

/-- An error of the grammar may go away under greater limits: the file lacks levels only. -/
theorem arrayDefinition_misread :
    readTree arrayDefinition "file" ⟨1, 0⟩ =
        .error (.violation .tokenAfterComposite arrayDefinition[4]) ∧
      (ParseError.violation .tokenAfterComposite arrayDefinition[4]).diagnostic.kind = .grammar ∧
      readTree arrayDefinition "file" ⟨2, 0⟩ = .ok arrayDefinitionTree := by
  refine ⟨?_, rfl, ?_⟩ <;> decide +kernel

end TnslReader
