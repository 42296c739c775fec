import TnslReader.Proofs.StatementSoundness
import TnslReader.Proofs.ValueNesting

/-!
Contract: no value begins with a type and a user word.

A definition begins with a type and a user word right behind it, and no value does. Outside its
brackets, and as long as no `is` has come, a value never has a user word right behind a name or a
closing bracket, and a type ends with one of these.

A walk over the tokens with that in mind tells the two apart. It is quiet at the end of every value.
It comes to a clash at the word behind a type, or in the type before, as in an array type, whose
name stands behind a closing bracket.

Owns: the walk, that no value is taken for a definition whatever the limits, and that to look for a
definition first hides no value.
-/

set_option autoImplicit false

namespace TnslReader

/-- What a walk over tokens has come to. -/
inductive Adjacency where
  /-- Outside all brackets, and whether a name or a bracket pair comes last. -/
  | outside (behindName : Bool)
  /-- Within a bracket pair and so many more around it. -/
  | inside (depth : Nat)
  /-- Behind an `is`, where a type may stand. -/
  | typed
  /-- A user word has come right behind a name or a bracket pair. -/
  | clash
deriving DecidableEq, Repr

/-- A token is one operator only. -/
theorem Token.isOperator_eq_false_of_ne {token : Token} {operator other : Operator}
    (is : token.isOperator operator = true) (differs : operator ≠ other) :
    token.isOperator other = false := by
  simp [isOperator, operator?_of_isOperator is, differs]

namespace Adjacency

def step : Adjacency → Token → Adjacency
  | .outside behindName, token =>
      if token.isOpener then .inside 0
      else if token.isOperator .isWord then .typed
      else
        match token.tokenClass with
        | .userWord => if behindName then .clash else .outside true
        | .builtinType => .outside true
        | _ => .outside false
  | .inside depth, token =>
      if token.isOpener then .inside (depth + 1)
      else if token.isCloser then
        match depth with
        | 0 => .outside true
        | outer + 1 => .inside outer
      else .inside depth
  | .typed, _ => .typed
  | .clash, _ => .clash

def run (state : Adjacency) (text : List Token) : Adjacency :=
  text.foldl step state

variable {state : Adjacency} {behindName : Bool} {token : Token} {text rest : List Token}

@[simp] theorem run_cons : state.run (token :: rest) = (state.step token).run rest :=
  rfl

@[simp] theorem run_append : state.run (text ++ rest) = (state.run text).run rest :=
  List.foldl_append

@[simp] theorem run_typed : typed.run text = typed := by
  induction text with
  | nil => rfl
  | cons _ _ inductionHypothesis => exact inductionHypothesis

@[simp] theorem run_clash : clash.run text = clash := by
  induction text with
  | nil => rfl
  | cons _ _ inductionHypothesis => exact inductionHypothesis

/-- Within brackets, nested text makes no difference. -/
theorem run_inside {separated : Bool} {depth : Nat} (nested : Nested separated text) :
    (inside depth).run text = inside depth := by
  induction nested generalizing depth with
  | nil => rfl
  | plain opens closes _ _ _ _ inductionHypothesis =>
      simpa [step, Token.isOpener, Token.isCloser, opens, closes] using inductionHypothesis
  | pair opens closes _ _ withinHypothesis laterHypothesis =>
      simp [step, Token.isOpener, Token.isCloser, opens, closes, withinHypothesis, laterHypothesis,
        Token.opens?_eq_none_of_closes? closes]

/-- A bracket pair is passed over, and comes last behind it. -/
theorem run_pair {separated : Bool} {opener closer : Token} {bracket : Bracket}
    (opens : opener.opens? = some bracket) (within : Nested separated text)
    (closes : closer.closes? = some bracket) :
    (outside behindName).run (opener :: (text ++ closer :: rest)) = (outside true).run rest := by
  simp [step, Token.isOpener, Token.isCloser, opens, closes, run_inside within,
    Token.opens?_eq_none_of_closes? closes]

/-- Any token but a bracket, a name and `is` leaves nothing behind which a word would clash. -/
theorem step_of_plain (plain : token.IsPlain) (notWord : token.tokenClass ≠ .userWord)
    (notBuiltin : token.tokenClass ≠ .builtinType)
    (notIs : token.isOperator .isWord = false) :
    (outside behindName).step token = outside false := by
  simp only [step, Token.isOpener, plain.opens?, notIs, Option.isSome_none, Bool.false_eq_true,
    ↓reduceIte]

theorem step_of_operator? {operator : Operator} (found : token.operator? = some operator)
    (notIs : token.isOperator .isWord = false) :
    (outside behindName).step token = outside false := by
  have classified := Token.tokenClass_of_operator? found
  exact step_of_plain (Token.isPlain_of_operator? found) (by simp [classified])
    (by simp [classified]) notIs

/-- A user word clashes with what it stands behind, or comes last itself. -/
theorem step_of_userWord (isWord : token.tokenClass = .userWord) :
    (outside behindName).step token = if behindName then clash else outside true := by
  have notOpener : token.isOpener = false := by simp [Token.isOpener, Token.opens?, isWord]
  have notIs : token.isOperator .isWord = false := by
    simp [Token.isOperator, Token.operator?, isWord]
  simp [step, notOpener, notIs, isWord]

theorem step_of_builtinType (isBuiltin : token.tokenClass = .builtinType) :
    (outside behindName).step token = outside true := by
  have notOpener : token.isOpener = false := by simp [Token.isOpener, Token.opens?, isBuiltin]
  have notIs : token.isOperator .isWord = false := by
    simp [Token.isOperator, Token.operator?, isBuiltin]
  simp [step, notOpener, notIs, isBuiltin]

theorem step_of_isWord (isWord : token.isOperator .isWord = true) :
    (outside behindName).step token = typed := by
  have notOpener : token.isOpener = false := by
    simp [Token.isOpener, (Token.isPlain_of_isOperator isWord).opens?]
  simp [step, notOpener, isWord]

/-- Whether the walk may have come to the end of a value. -/
def Quiet (state : Adjacency) : Prop :=
  state = typed ∨ ∃ behindName, state = outside behindName

/-- Whether the walk may have come to the end of a type. -/
def Named (state : Adjacency) : Prop :=
  state = clash ∨ state = outside true

/-- A word right behind the end of a type clashes. -/
theorem Named.run_userWord (named : state.Named) (isWord : token.tokenClass = .userWord) :
    state.run (token :: rest) = clash := by
  rcases named with rfl | rfl
  · exact run_clash
  · rw [run_cons, step_of_userWord isWord]
    exact run_clash

end Adjacency

open Adjacency

/-! ### Values, and the marks of a type -/

theorem PrimaryText.adjacency {depth chain : Nat} {text : List Token} {node : Node}
    (primary : PrimaryText depth chain text node) :
    ∃ behindName, (outside false).run text = outside behindName := by
  cases primary with
  | leaf isLeaf =>
      rcases Token.tokenClass_of_leafKind? isLeaf with isLiteral | isWord | isBuiltin
      · refine ⟨false, step_of_plain (Token.isPlain_of_leafKind? isLeaf) ?_ ?_ ?_⟩ <;>
          simp [isLiteral, Token.isOperator, Token.operator?]
      · exact ⟨true, step_of_userWord isWord⟩
      · exact ⟨true, step_of_builtinType isBuiltin⟩
  | grouped opens value closes => exact ⟨true, run_pair opens value.nested closes⟩

mutual

theorem FollowedText.adjacency {depth chain : Nat} {base node : Node} {text : List Token}
    (behindName : Bool) : FollowedText depth chain base text node →
      ∃ behind, (outside behindName).run text = outside behind
  | .done => ⟨behindName, rfl⟩
  | @FollowedText.operator _ _ _ _ _ token _ _ follows after => by
      obtain ⟨operator, found, mayFollow⟩ := Token.exists_operator_of_mayFollowOperand follows
      have notIs : token.isOperator .isWord = false := by
        cases operator <;> simp_all [Operator.mayFollow, Token.isOperator]
      rw [run_cons, step_of_operator? found notIs]
      exact after.adjacency false
  | .call _ opens values closes after => by
      rw [run_pair opens values.nested closes]
      exact after.adjacency true
  | .index _ opens value closes after => by
      rw [run_pair opens value.nested closes]
      exact after.adjacency true
  | .cast _ opens types closes after => by
      rw [run_pair opens types.nested closes]
      exact after.adjacency true

theorem UnaryText.adjacency {depth chain : Nat} {text : List Token} {node : Node} :
    UnaryText depth chain text node → ∃ behindName, (outside false).run text = outside behindName
  | @UnaryText.preceded _ _ _ token _ _ _ precedes _ operand => by
      obtain ⟨operator, found, mayPrecede⟩ := Token.exists_operator_of_mayPrecedeOperand precedes
      have notIs : token.isOperator .isWord = false := by
        cases operator <;> simp_all [Operator.mayPrecede, Token.isOperator]
      rw [run_cons, step_of_operator? found notIs]
      exact operand.adjacency
  | .followed primary after => by
      obtain ⟨behindName, ran⟩ := primary.adjacency
      rw [run_append, ran]
      exact after.adjacency behindName

/-- The walk over a value ends without a clash. -/
theorem ValueText.quiet {depth chain order : Nat} {text : List Token} {node : Node} :
    ValueText depth chain order text node → ((outside false).run text).Quiet
  | .unary _ operand => .inr operand.adjacency
  | .composite _ opens values closes => .inr ⟨true, run_pair opens values.nested closes⟩
  | .chain _ _ _ operands => operands.quiet

theorem ChainText.quiet {depth chain order count : Nat} {text : List Token} {node : Node} :
    ChainText depth chain order count text node → ((outside false).run text).Quiet
  | .first operand _ => operand.quiet
  | .value before ordered takesValue operand _ => by
      obtain ⟨operator, found, -⟩ := Token.exists_operator_of_order? ordered
      rw [run_append, run_cons]
      rcases before.quiet with typed | ⟨behindName, outside⟩
      · exact .inl (by rw [typed]; exact run_typed)
      · rw [outside, step_of_operator? found takesValue]
        exact operand.quiet
  | .type before ordered takesType operand => by
      rw [run_append, run_cons]
      refine .inl ?_
      rcases before.quiet with typed | ⟨behindName, outside⟩
      · rw [typed]
        exact run_typed
      · rw [outside, step_of_isWord takesType]
        exact run_typed

theorem MarksText.adjacency {depth chain : Nat} {text : List Token} {nodes : List Node}
    (behindName : Bool) : MarksText depth chain text nodes →
      ∃ behind, (outside behindName).run text = outside behind
  | .done => ⟨behindName, rfl⟩
  | .pointer points later => by
      rw [run_cons, step_of_operator? (Token.operator?_of_isOperator points)
        (Token.isOperator_eq_false_of_ne points (by decide))]
      exact later.adjacency false
  | .unsized opens closes later => by
      have within : Nested true ([] : List Token) := .nil
      obtain ⟨behind, ran⟩ := later.adjacency true
      exact ⟨behind, (run_pair opens within closes).trans ran⟩
  | .sized opens value closes later => by
      rw [run_pair opens value.nested closes]
      exact later.adjacency true

end

/-! ### Types -/

theorem adjacency_qualifiers {inParameter behindName : Bool} {text : List Token}
    (qualified : ∀ token ∈ text, token.qualifies inParameter = true) :
    ∃ behind, (outside behindName).run text = outside behind := by
  induction text generalizing behindName with
  | nil => exact ⟨behindName, rfl⟩
  | cons token rest inductionHypothesis =>
      have qualifies := qualified token (by simp)
      have classified : token.tokenClass = .keyword := by
        simp only [Token.qualifies, Bool.and_eq_true, beq_iff_eq] at qualifies
        exact qualifies.1.1
      rw [run_cons, step_of_plain (Token.isPlain_of_qualifies qualifies) (by simp [classified])
        (by simp [classified]) (by simp [Token.isOperator, Token.operator?, classified])]
      exact inductionHypothesis fun later member => qualified later (by simp [member])

theorem DottedText.adjacency {behindName : Bool} {text : List Token} {path : List Node}
    {name : Token} (dotted : DottedText text path name) :
    ((outside behindName).run text).Named := by
  induction dotted generalizing behindName with
  | word isWord =>
      rw [run_cons, step_of_userWord isWord]
      cases behindName
      · exact .inr rfl
      · exact .inl rfl
  | dot isWord isDot _ inductionHypothesis =>
      rw [run_cons, run_cons, step_of_userWord isWord]
      cases behindName
      · rw [if_neg (by simp), step_of_operator? (Token.operator?_of_isOperator isDot)
          (Token.isOperator_eq_false_of_ne isDot (by decide))]
        exact inductionHypothesis
      · exact .inl run_clash

theorem NameText.adjacency {behindName : Bool} {text : List Token} {path : List Node}
    {name : Token} (named : NameText text path name) :
    ((outside behindName).run text).Named := by
  cases named with
  | builtin isBuiltin => exact .inr (step_of_builtinType isBuiltin)
  | dotted words => exact words.adjacency

theorem ArgumentsText.adjacency {depth chain : Nat} {name : Token} {text : List Token}
    {nodes : List Node} (applied : ArgumentsText depth chain name text nodes) :
    (outside true).run text = outside true := by
  cases applied with
  | none => rfl
  | arguments opens types closes => exact run_pair opens types.nested closes
  | results _ opens types closes opensResults resultTypes closesResults =>
      rw [run_pair opens types.nested closes]
      exact run_pair opensResults resultTypes.nested closesResults

/-- The walk over a type ends at a name or a bracket pair, unless it has come to a clash. -/
theorem TypeText.named {depth chain : Nat} {text : List Token} {node : Node}
    (type : TypeText false depth chain text node) : ((outside false).run text).Named := by
  cases type with
  | type _ qualified marked named applied referred _ =>
      obtain ⟨behindQualifiers, qualifiersRan⟩ := adjacency_qualifiers qualified
      obtain ⟨behindMarks, marksRan⟩ := marked.adjacency behindQualifiers
      cases referred with
      | mark parameter => simp at parameter
      | none =>
          rw [List.append_nil, run_append, run_append, run_append, qualifiersRan, marksRan]
          rcases named.adjacency with clashed | atName
          · exact .inl (by rw [clashed]; exact run_clash)
          · exact .inr (by rw [atName]; exact applied.adjacency)

/-- No value begins with a type and a user word right behind it. -/
theorem ValueText.not_definition {depth chain order otherDepth otherChain : Nat}
    {text rest : List Token} {word : Token} {node typeNode : Node}
    (value : ValueText depth chain order (text ++ word :: rest) node)
    (type : TypeText false otherDepth otherChain text typeNode) :
    word.tokenClass ≠ .userWord := by
  intro isWord
  have quiet := value.quiet
  rw [run_append, type.named.run_userWord isWord] at quiet
  simp [Quiet] at quiet

/-! ### The look ahead -/

/-- To look ahead for a definition never fails. -/
theorem exists_isDefinitionAt_eq {tokens : Array Token} {low high : Nat}
    (size : high ≤ tokens.size) (usage : Usage) :
    ∃ defines, isDefinitionAt tokens low high usage = .ok defines usage := by
  have ensured := Reading.ensures_iff.mp (@typeAt_ensures tokens false low high usage size)
  unfold isDefinitionAt Reading.succeeds
  cases ran : typeAt tokens false low high usage with
  | ok type after =>
      rw [ran] at ensured
      obtain ⟨rfl, -⟩ := ensured
      dsimp only
      by_cases inside : type.next < high
      · rw [if_pos inside, Sound.tokenAt_eq_ok (Array.getElem?_eq_getElem (by omega))]
        exact ⟨_, rfl⟩
      · rw [if_neg inside]
        exact ⟨false, rfl⟩
  | error error after =>
      rw [ran] at ensured
      obtain ⟨rfl, stands⟩ := ensured
      cases error with
      | fault => exact stands.elim
      | _ => exact ⟨false, rfl⟩

/-- No value is taken for a definition. -/
theorem ValueText.isDefinitionAt_eq {tokens : Array Token} {low high depth chain order : Nat}
    {node : Node} (value : ValueText depth chain order (slice tokens low high) node)
    (size : high ≤ tokens.size) (usage : Usage) :
    isDefinitionAt tokens low high usage = .ok false usage := by
  obtain ⟨defines, looked⟩ := exists_isDefinitionAt_eq size usage
  cases defines with
  | false => exact looked
  | true =>
      have found := Reading.ensures_iff.mp (@isDefinitionAt_ensures tokens low high usage size)
      rw [looked] at found
      obtain ⟨type, answered, next_lt_high, word, present, isWord⟩ := found.2 rfl
      have typed := Reading.ensures_iff.mp (@typeAt_ensures tokens false low high usage size)
      rw [answered] at typed
      rw [← slice_append tokens type.le_next (Nat.le_of_lt next_lt_high),
        slice_eq_cons present next_lt_high] at value
      exact absurd isWord (value.not_definition typed.2.2.1)

section Statements

variable {tokens : Array Token} {low high : Nat} {usage : Usage}

/-- What is a definition under some limits fails as a value under any. -/
theorem exists_value_error_of_isDefinitionAt (size : high ≤ tokens.size) (other : Usage)
    (defines : isDefinitionAt tokens low high usage = .ok true usage) :
    ∃ error, error.StandsIn tokens ∧ value tokens low high other = .error error other := by
  have valued := Reading.ensures_iff.mp (@value_ensures tokens low high other size)
  cases ran : value tokens low high other with
  | error error after =>
      rw [ran] at valued
      obtain ⟨rfl, arises⟩ := valued
      exact ⟨error, arises.standsIn, rfl⟩
  | ok node after =>
      rw [ran] at valued
      obtain ⟨-, order, valueText⟩ := valued
      rw [valueText.isDefinitionAt_eq size usage] at defines
      cases defines

/-- What is no definition is read as a value, unless it begins with a qualifier. -/
theorem simpleStatement_eq_valueStatement {first : Token}
    (looked : isDefinitionAt tokens low high usage = .ok false usage)
    (present : tokens[low]? = some first) (unqualified : first.isQualifierWord = false) :
    simpleStatement tokens low high usage = valueStatement tokens low high usage := by
  rw [simpleStatement, Reading.bind_eq_of_ok looked, if_neg (by simp),
    Sound.tokenAt_eq_ok present, Reading.lift_ok_bind, if_neg (by simp [unqualified])]

/-- Definitions and values never overlap. A range that is looked at as a definition, under whatever
limits, fails as a value with an error in the stream. So where there is a value, the statement is
the one that is read without looking for a definition first. -/
theorem isDefinitionAt_excludes_value (size : high ≤ tokens.size) (usage other : Usage) :
    ((isDefinitionAt tokens low high).answer usage = .ok true →
      ∃ error, error.StandsIn tokens ∧
        (value tokens low high).answer other = .error error) ∧
    ∀ node first, (value tokens low high).answer other = .ok node →
      tokens[low]? = some first → first.isQualifierWord = false →
        (isDefinitionAt tokens low high).answer usage = .ok false ∧
          simpleStatement tokens low high usage = valueStatement tokens low high usage := by
  constructor
  · intro defines
    obtain ⟨found, looked⟩ := @exists_isDefinitionAt_eq tokens low high size usage
    rw [Reading.answer, looked] at defines
    cases defines
    obtain ⟨error, stands, failed⟩ := exists_value_error_of_isDefinitionAt size other looked
    exact ⟨error, stands, by rw [Reading.answer, failed]⟩
  · intro node first answered present unqualified
    have valued := (@value_ensures tokens low high other size).2
    rw [answered] at valued
    obtain ⟨order, valueText⟩ := valued
    have looked := valueText.isDefinitionAt_eq size usage
    exact ⟨by rw [Reading.answer, looked],
      simpleStatement_eq_valueStatement looked present unqualified⟩

/-- The tokens of `void(a)[b] c`. -/
def procedureDefinition : Array Token :=
  #[⟨.builtinType, "void", 1, 1, ⟨0, 4⟩⟩, ⟨.delimiter, "(", 1, 5, ⟨4, 5⟩⟩,
    ⟨.userWord, "a", 1, 6, ⟨5, 6⟩⟩, ⟨.delimiter, ")", 1, 7, ⟨6, 7⟩⟩,
    ⟨.delimiter, "[", 1, 8, ⟨7, 8⟩⟩, ⟨.userWord, "b", 1, 9, ⟨8, 9⟩⟩,
    ⟨.delimiter, "]", 1, 10, ⟨9, 10⟩⟩, ⟨.userWord, "c", 1, 12, ⟨11, 12⟩⟩]

/-- With the word behind it the type of a procedure is no value. Without it, it is one, a call and a
cast, and is read as such. -/
theorem isDefinitionAt_excludes_value_procedure :
    (isDefinitionAt procedureDefinition 0 8).answer (.none .standard) = .ok true ∧
      (∃ error, error.StandsIn procedureDefinition ∧
        (value procedureDefinition 0 8).answer (.none .standard) = .error error) ∧
      simpleStatement procedureDefinition 0 7 (.none .standard) =
        valueStatement procedureDefinition 0 7 (.none .standard) := by
  have defines : (isDefinitionAt procedureDefinition 0 8).answer (.none .standard) = .ok true := by
    decide +kernel
  have valued : (value procedureDefinition 0 7).answer (.none .standard) =
      .ok (.tagged .cast procedureDefinition[4]
        [.tagged .call procedureDefinition[1] [.leaf .typeName procedureDefinition[0],
          .tagged .valueList procedureDefinition[1] [.leaf .identifier procedureDefinition[2]]],
          .tagged .typeList procedureDefinition[4] [.tagged .type procedureDefinition[5]
            [.leaf .typeName procedureDefinition[5]]]]) := by
    decide +kernel
  have whole := @isDefinitionAt_excludes_value procedureDefinition 0 8 (by decide)
    (.none .standard) (.none .standard)
  have shorter := @isDefinitionAt_excludes_value procedureDefinition 0 7 (by decide)
    (.none .standard) (.none .standard)
  exact ⟨defines, whole.1 defines, (shorter.2 _ _ valued rfl (by decide)).2⟩

end Statements

end TnslReader
