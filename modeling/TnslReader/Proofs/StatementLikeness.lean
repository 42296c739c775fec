import TnslReader.Proofs.RunCalls
import TnslReader.Proofs.StatementSoundness
import TnslReader.Proofs.ValueLikeness

/-!
Contract: readings of statements, side by side.

As for values, each reading has one theorem. One reading is set apart: that of a definition or a
bare value, which looks ahead for a type and takes any error of the look ahead for a no. It is alike
only if no error is excused, or for reasons of its own, so the theorems about statements take it as
given, wherever the first run comes to one.

Owns: likeness of the readings of statements and of lists of statements and parameters.
-/

set_option autoImplicit false

namespace TnslReader

namespace Likeness

variable {first second : Array Token} {likeness : Likeness first second} {start stop low high : Nat}

/-- The window lies within the first stream. -/
theorem le_size_first (stops : likeness.Maps stop high) (nonempty : likeness.low < high) :
    stop ≤ first.size := by
  obtain ⟨token, present, -⟩ := likeness.tokenWithin (high - 1) (by omega) (by omega)
  have := (Array.getElem?_eq_some_iff.mp present).1
  omega

/-! ### Definitions and values -/

/-- Both look ahead for a definition with the same outcome, unless the first fails to read a type
with an error that is excused. -/
theorem isDefinitionAt_alikeFrom {usage otherUsage : Usage} (starts : likeness.Maps start low)
    (stops : likeness.Maps stop high) (pairs : likeness.Pairs usage otherUsage)
    (unexcused : ∀ error after, typeAt first false start stop usage = .error error after →
      ¬likeness.excused error) :
    likeness.AlikeFrom usage otherUsage (isDefinitionAt first start stop)
      (isDefinitionAt second low high) Eq := by
  refine (typeAt_alike starts stops usage otherUsage pairs).succeeds unexcused ?_
  rintro ⟨type, next, _⟩ ⟨otherType, otherNext, _⟩ ⟨-, nexts⟩
  dsimp only at nexts ⊢
  refine alike_ite (by omega) (fun _ _ => ?_) (fun _ _ => alike_pure rfl) usage otherUsage pairs
  obtain ⟨name, firstPresent, secondPresent⟩ := exists_token nexts (by omega)
  exact alike_tokenAt_bind firstPresent secondPresent (alike_pure rfl)

/-- A definition whose type ends before the range does is read alike. -/
theorem definition_alikeFrom {usage otherUsage : Usage} {type : Advance Node start}
    (starts : likeness.Maps start low) (stops : likeness.Maps stop high)
    (pairs : likeness.Pairs usage otherUsage)
    (answered : typeAt first false start stop usage = .ok type usage)
    (inside : type.next < stop) :
    likeness.AlikeFrom usage otherUsage (definition first start stop)
      (definition second low high) Eq := by
  refine (typeAt_alike starts stops usage otherUsage pairs).bind ?_
  rintro ⟨found, next, _⟩ ⟨otherFound, otherNext, le_next⟩ again - ⟨same, nexts⟩
  obtain rfl : type = ⟨found, next, _⟩ := by simpa using answered.symm.trans again
  dsimp only at same nexts inside ⊢
  have names := valueList_alike nexts nexts stops (by omega)
  refine (names usage otherUsage pairs).bind fun list otherList _ _ sameList => ?_
  subst same sameList
  cases list.children.find? (!·.isDefinedName) with
  | some item => exact alike_throw (violation_meets _ _) usage otherUsage pairs
  | none =>
      dsimp only
      obtain ⟨anchor, firstPresent, secondPresent⟩ := exists_token starts (by omega)
      refine alike_tokenAt_bind firstPresent secondPresent ?_ usage otherUsage pairs
      exact alike_pure rfl

theorem valueStatement_alike (starts : likeness.Maps start low) (stops : likeness.Maps stop high)
    (inside : low < high) :
    likeness.Alike (valueStatement first start stop) (valueStatement second low high) Eq := by
  obtain ⟨anchor, firstPresent, secondPresent⟩ := exists_token starts (by omega)
  refine alike_tokenAt_bind firstPresent secondPresent ?_
  exact (value_alike starts stops).bind fun node otherNode same => alike_pure (by rw [same])

/-- Where both look ahead with the same outcome, a definition or a bare value is read alike. -/
theorem simpleStatement_alikeFrom {usage otherUsage : Usage} (starts : likeness.Maps start low)
    (stops : likeness.Maps stop high) (inside : low < high)
    (pairs : likeness.Pairs usage otherUsage)
    (probed : likeness.AlikeFrom usage otherUsage (isDefinitionAt first start stop)
      (isDefinitionAt second low high) Eq) :
    likeness.AlikeFrom usage otherUsage (simpleStatement first start stop)
      (simpleStatement second low high) Eq := by
  refine probed.bind fun defines _ looked _ same => ?_
  subst same
  cases defines with
  | true =>
      have ensured := Reading.ensures_iff.mp
        (@isDefinitionAt_ensures first start stop usage (le_size_first stops (by omega)))
      rw [looked] at ensured
      obtain ⟨type, answered, next_lt_stop, -⟩ := ensured.2 rfl
      exact definition_alikeFrom starts stops pairs answered next_lt_stop
  | false =>
      obtain ⟨token, firstPresent, secondPresent⟩ := exists_token starts (by omega)
      refine alike_tokenAt_bind firstPresent secondPresent ?_ usage otherUsage pairs
      refine alike_ite Iff.rfl (fun _ _ => ?_) fun _ _ => valueStatement_alike starts stops inside
      exact (typeAt_alike starts stops).bind_advance fun _ _ _ nexts _ _ => alike_expected _ nexts

/-- Whether definitions and bare values are read alike from all ranges of the window to which the
first run comes from the given place on. -/
def ReadsSimple (likeness : Likeness first second) (origin : FilePart × Usage) : Prop :=
  ∀ start stop low high usage otherUsage, likeness.Maps start low → likeness.Maps stop high →
    low < high → likeness.Pairs usage otherUsage →
    Reaches first origin (.simpleStatement start stop, usage) →
    likeness.AlikeFrom usage otherUsage (simpleStatement first start stop)
      (simpleStatement second low high) Eq

variable {origin : FilePart × Usage} {usage otherUsage : Usage}

theorem ReadsSimple.excusing {more : ParseError → Prop} (simple : likeness.ReadsSimple origin) :
    (likeness.excusing more).ReadsSimple origin :=
  fun start stop low high usage otherUsage starts stops inside pairs reached =>
    (simple start stop low high usage otherUsage starts stops inside pairs reached).excusing

/-- A likeness that excuses no error reads definitions and bare values alike. -/
theorem readsSimple_of_unexcused (unexcused : ∀ error, ¬likeness.excused error) :
    likeness.ReadsSimple origin :=
  fun _ _ _ _ _ _ starts stops inside pairs _ =>
    simpleStatement_alikeFrom starts stops inside pairs
      (isDefinitionAt_alikeFrom starts stops pairs fun error _ _ => unexcused error)

/-! ### Parameters and lists of statements -/

theorem parameter_alike {typed : Bool} (starts : likeness.Maps start low)
    (stops : likeness.Maps stop high) (low_le_high : low ≤ high) :
    likeness.Alike (parameter first typed start stop) (parameter second typed low high) Eq := by
  unfold parameter
  refine alike_ite (by omega) (fun _ _ => alike_expected _ stops) (fun _ _ => ?_)
  obtain ⟨token, firstPresent, secondPresent⟩ := exists_token starts (by omega)
  refine alike_tokenAt_bind firstPresent secondPresent ?_
  refine alike_ite (by simp; omega) (fun _ _ => ?_) (fun _ _ => ?_)
  · exact alike_ite Iff.rfl (fun _ _ => alike_pure rfl) fun _ _ => alike_violationAt _ starts
  · refine (typeAt_alike starts stops).bind_advance fun type next otherNext nexts _ _ => ?_
    refine alike_ite (by omega) (fun _ _ => ?_) fun _ _ => alike_expected _ nexts
    obtain ⟨name, firstName, secondName⟩ := exists_token nexts (by omega)
    refine alike_tokenAt_bind firstName secondName ?_
    exact alike_ite (by simp; omega) (fun _ _ => alike_pure rfl) fun _ _ =>
      alike_violationAt _ nexts

theorem parameters_alike {typed : Bool} {items : List (Part start stop)}
    {others : List (Part low high)} (matched : List.Forall₂ likeness.MapsPart items others) :
    likeness.Alike (parameters first typed items) (parameters second typed others) Eq := by
  induction matched generalizing typed with
  | nil => exact alike_pure rfl
  | @cons part other _ _ maps _ inductionHypothesis =>
      rw [parameters.eq_def first, parameters.eq_def second]
      refine (parameter_alike maps.1 maps.2 other.start_le_stop).bind
        fun nodes otherNodes same => ?_
      refine inductionHypothesis.bind fun later otherLater sameLater => ?_
      exact alike_pure (by rw [same, sameLater])

theorem parameterList_alike {opener otherOpener : Nat}
    (openers : likeness.Maps opener otherOpener) (starts : likeness.Maps start low)
    (stops : likeness.Maps stop high) (inside : otherOpener < likeness.high) :
    likeness.Alike (parameterList first opener start stop)
      (parameterList second otherOpener low high) Eq := by
  obtain ⟨anchor, firstPresent, secondPresent⟩ := exists_token openers inside
  refine alike_tokenAt_bind firstPresent secondPresent ?_
  refine (alike_lift (agree_parts starts stops)).bind fun items others matched => ?_
  exact (parameters_alike matched).bind fun nodes otherNodes same => alike_pure (by rw [same])

/-- The parts that are not empty are the same in both ranges. -/
theorem mapsPart_filter {items : List (Part start stop)} {others : List (Part low high)}
    (matched : List.Forall₂ likeness.MapsPart items others) :
    List.Forall₂ (fun part other => likeness.MapsPart part other ∧ other.start < other.stop)
      (items.filter fun part => part.start != part.stop)
      (others.filter fun other => other.start != other.stop) := by
  induction matched with
  | nil => exact .nil
  | @cons part other _ _ here _ inductionHypothesis =>
      obtain ⟨starts, stops⟩ := here
      by_cases empty : other.start = other.stop
      · have alsoEmpty : part.start = part.stop := by omega
        simpa [empty, alsoEmpty] using inductionHypothesis
      · have alsoNonempty : part.start ≠ part.stop := by omega
        have := other.start_le_stop
        simp only [List.filter_cons, bne_iff_ne, ne_eq, empty, alsoNonempty, not_false_eq_true,
          ↓reduceIte]
        exact .cons ⟨⟨starts, stops⟩, by omega⟩ inductionHypothesis

theorem statementList_alikeFrom (simple : likeness.ReadsSimple origin) {opener otherOpener : Nat}
    (openers : likeness.Maps opener otherOpener) (starts : likeness.Maps start low)
    (stops : likeness.Maps stop high) (inside : otherOpener < likeness.high)
    (pairs : likeness.Pairs usage otherUsage)
    (reached : Reaches first origin (.statementList opener start stop, usage)) :
    likeness.AlikeFrom usage otherUsage (statementList first opener start stop)
      (statementList second otherOpener low high) Eq := by
  obtain ⟨anchor, firstPresent, secondPresent⟩ := exists_token openers inside
  refine alikeFrom_tokenAt_bind firstPresent secondPresent ?_
  refine alikeFrom_lift_bind (agree_parts starts stops) fun items others cut matched => ?_
  refine (alikeFrom_mapM (mapsPart_filter matched) ?_).bind ?_
  · intro before part later other split read maps
    have here := reached.call (.listedStatement firstPresent cut split read)
    exact simple _ _ _ _ _ _ maps.1.1 maps.1.2 maps.2 pairs here
  · intro nodes otherNodes _ _ same
    exact alike_pure (by rw [same]) usage otherUsage pairs

/-! ### Statements of keywords -/

theorem agree_endOfStatement (starts : likeness.Maps start low) (stops : likeness.Maps stop high) :
    likeness.Agree (endOfStatement first start stop) (endOfStatement second low high) Eq := by
  unfold endOfStatement
  refine agree_ite (by omega) (fun _ _ => ?_) fun _ _ => agree_ok rfl
  obtain ⟨token, firstPresent, secondPresent⟩ := exists_token starts (by omega)
  refine agree_tokenAt_bind firstPresent secondPresent ?_
  exact agree_ite Iff.rfl (fun _ _ => agree_violationAt _ starts) fun _ _ =>
    agree_violationAt _ starts

theorem agree_nameAt {expectation : Expectation} (starts : likeness.Maps start low)
    (stops : likeness.Maps stop high) :
    likeness.Agree (nameAt first start stop expectation) (nameAt second low high expectation)
      fun node otherNode => node = otherNode ∧ low < high := by
  unfold nameAt
  refine agree_ite (by omega) (fun _ inside => ?_) fun _ _ => agree_expected _ starts
  obtain ⟨token, firstPresent, secondPresent⟩ := exists_token starts (by omega)
  refine agree_tokenAt_bind firstPresent secondPresent ?_
  exact agree_ite Iff.rfl (fun _ _ => agree_ok ⟨rfl, inside⟩) fun _ _ => agree_expected _ starts

theorem agree_opensAt {bracket : Bracket} (starts : likeness.Maps start low)
    (stops : likeness.Maps stop high) :
    likeness.Agree (opensAt first bracket start stop) (opensAt second bracket low high)
      fun found other => found = other ∧ (found = true → low < high ∧ ∃ opener,
        first[start]? = some opener ∧ second[low]? = some opener ∧
          opener.opens? = some bracket) := by
  unfold opensAt
  refine agree_ite (by omega) (fun _ inside => ?_) fun _ _ => agree_ok ⟨rfl, by simp⟩
  obtain ⟨opener, firstPresent, secondPresent⟩ := exists_token starts (by omega)
  refine agree_tokenAt_bind firstPresent secondPresent (agree_ok ⟨rfl, fun opens => ?_⟩)
  exact ⟨inside, opener, firstPresent, secondPresent, by simpa using opens⟩

/-- A list in curly brackets that ends its statement, as the members of a struct and the values of
an enum do. -/
theorem curlyList_alike {brace otherBrace : Nat} {kind : NodeKind} {keyword : Token}
    {nodes : List Node} {expectation : Expectation}
    {listing : Array Token → Nat → Nat → Nat → Reading Node}
    (braces : likeness.Maps brace otherBrace) (stops : likeness.Maps stop high)
    (listed : ∀ close otherClose, likeness.Maps close otherClose → otherBrace < otherClose →
      likeness.Alike (listing first brace (brace + 1) close)
        (listing second otherBrace (otherBrace + 1) otherClose) Eq) :
    likeness.Alike
      (do
        if ← opensAt first .curly brace stop then
          let ⟨close, _⟩ ← closing first brace stop
          let list ← listing first brace (brace + 1) close
          endOfStatement first (close + 1) stop
          return ⟨kind, keyword, nodes ++ [list]⟩
        else
          throw (.expected first brace expectation) : Reading Node)
      (do
        if ← opensAt second .curly otherBrace high then
          let ⟨close, _⟩ ← closing second otherBrace high
          let list ← listing second otherBrace (otherBrace + 1) close
          endOfStatement second (close + 1) high
          return ⟨kind, keyword, nodes ++ [list]⟩
        else
          throw (.expected second otherBrace expectation) : Reading Node) Eq := by
  refine (alike_lift (agree_opensAt braces stops)).bind ?_
  rintro found _ ⟨rfl, opened⟩
  refine alike_ite Iff.rfl (fun isTrue _ => ?_) fun _ _ => alike_expected _ braces
  obtain ⟨inside, opener, firstPresent, secondPresent, opens⟩ := opened isTrue
  refine alike_closing_bind braces stops (by omega) firstPresent secondPresent opens ?_
  intro close otherClose closes _ _ behind _
  refine (listed close otherClose closes behind).bind fun list _ same => ?_
  refine (alike_lift (agree_endOfStatement (by omega) stops)).bind fun _ _ _ => ?_
  exact alike_pure (by rw [same])

theorem structFrom_alike {modifiers : List Node} (starts : likeness.Maps start low)
    (stops : likeness.Maps stop high) (inside : low < high) :
    likeness.Alike (structFrom first modifiers start stop) (structFrom second modifiers low high)
      Eq := by
  unfold structFrom
  obtain ⟨keyword, firstPresent, secondPresent⟩ := exists_token starts (by omega)
  refine alike_tokenAt_bind firstPresent secondPresent ?_
  refine (alike_lift (agree_nameAt (by omega) stops)).bind ?_
  rintro name _ ⟨rfl, nameInside⟩
  have behindName : likeness.Maps (start + 2) (low + 2) := by omega
  refine (alike_lift (agree_opensAt behindName stops)).bind ?_
  rintro found _ ⟨rfl, opened⟩
  refine alike_ite Iff.rfl (fun isTrue _ => ?_) (fun _ _ => ?_)
  · obtain ⟨superInside, opener, firstOpener, secondOpener, opens⟩ := opened isTrue
    refine alike_closing_bind behindName stops (by omega) firstOpener secondOpener opens ?_
    intro close otherClose closes _ _ _ _
    refine (valueList_alike behindName (by omega) closes (by omega)).bind fun list _ same => ?_
    subst same
    rw [pure_bind, pure_bind]
    have brace : likeness.Maps (close + 1) (otherClose + 1) := by omega
    exact curlyList_alike brace stops fun _ _ ends _ =>
      parameterList_alike brace (by omega) ends (by omega)
  · rw [pure_bind, pure_bind]
    exact curlyList_alike behindName stops fun _ _ ends _ =>
      parameterList_alike behindName (by omega) ends (by omega)

theorem rawStruct_alike (starts : likeness.Maps start low) (stops : likeness.Maps stop high)
    (inside : low < high) :
    likeness.Alike (rawStruct first start stop) (rawStruct second low high) Eq := by
  unfold rawStruct
  obtain ⟨raw, firstPresent, secondPresent⟩ := exists_token starts (by omega)
  refine alike_tokenAt_bind firstPresent secondPresent ?_
  refine alike_ite (by omega) (fun _ further => ?_) fun _ _ => alike_violationAt _ starts
  have behindRaw : likeness.Maps (start + 1) (low + 1) := by omega
  obtain ⟨next, firstNext, secondNext⟩ := exists_token behindRaw (by omega)
  refine alike_tokenAt_bind firstNext secondNext ?_
  exact alike_ite Iff.rfl (fun _ _ => structFrom_alike behindRaw stops further) fun _ _ =>
    alike_violationAt _ starts

theorem enumStatement_alike (starts : likeness.Maps start low) (stops : likeness.Maps stop high)
    (inside : low < high) :
    likeness.Alike (enumStatement first start stop) (enumStatement second low high) Eq := by
  unfold enumStatement
  obtain ⟨keyword, firstPresent, secondPresent⟩ := exists_token starts (by omega)
  refine alike_tokenAt_bind firstPresent secondPresent ?_
  refine (alike_lift (agree_nameAt (by omega) stops)).bind ?_
  rintro name _ ⟨rfl, nameInside⟩
  have behindName : likeness.Maps (start + 2) (low + 2) := by omega
  refine (alike_lift (agree_opensAt behindName stops)).bind ?_
  rintro found _ ⟨rfl, opened⟩
  refine alike_ite Iff.rfl (fun isTrue _ => ?_) (fun _ _ => ?_)
  · obtain ⟨baseInside, opener, firstOpener, secondOpener, opens⟩ := opened isTrue
    refine alike_closing_bind behindName stops (by omega) firstOpener secondOpener opens ?_
    intro close otherClose closes _ _ _ _
    refine (typeAt_alike (by omega) closes).bind_advance fun type next otherNext nexts _ _ => ?_
    dsimp only
    refine alike_ite (by omega) (fun _ _ => ?_) fun _ _ => ?_
    · rw [pure_bind, pure_bind]
      have brace : likeness.Maps (close + 1) (otherClose + 1) := by omega
      exact curlyList_alike brace stops fun _ _ ends _ =>
        valueList_alike brace (by omega) ends (by omega)
    · exact (alike_violationAt _ nexts).bind fun _ _ (never : False) => never.elim
  · rw [pure_bind, pure_bind]
    exact curlyList_alike behindName stops fun _ _ ends _ =>
      valueList_alike behindName (by omega) ends (by omega)

theorem labelStatement_alike {kind : NodeKind} (starts : likeness.Maps start low)
    (stops : likeness.Maps stop high) (inside : low < high) :
    likeness.Alike (labelStatement first kind start stop) (labelStatement second kind low high)
      Eq := by
  unfold labelStatement
  obtain ⟨keyword, firstPresent, secondPresent⟩ := exists_token starts (by omega)
  refine alike_tokenAt_bind firstPresent secondPresent ?_
  refine (alike_lift (agree_nameAt (by omega) stops)).bind ?_
  rintro name _ ⟨rfl, nameInside⟩
  refine (alike_lift (agree_endOfStatement (by omega) stops)).bind fun _ _ _ => ?_
  exact alike_pure rfl

theorem loopStatement_alike {kind : NodeKind} (starts : likeness.Maps start low)
    (stops : likeness.Maps stop high) (inside : low < high) :
    likeness.Alike (loopStatement first kind start stop) (loopStatement second kind low high)
      Eq := by
  unfold loopStatement
  obtain ⟨keyword, firstPresent, secondPresent⟩ := exists_token starts (by omega)
  refine alike_tokenAt_bind firstPresent secondPresent ?_
  refine alike_ite (by omega) (fun _ _ => ?_) fun _ _ => alike_pure rfl
  have behind : likeness.Maps (start + 1) (low + 1) := by omega
  obtain ⟨count, firstCount, secondCount⟩ := exists_token behind (by omega)
  refine alike_tokenAt_bind firstCount secondCount ?_
  refine alike_ite Iff.rfl (fun _ _ => ?_) fun _ _ => alike_expected _ behind
  refine (alike_lift (agree_endOfStatement (by omega) stops)).bind fun _ _ _ => ?_
  exact alike_pure rfl

theorem returnStatement_alike (starts : likeness.Maps start low) (stops : likeness.Maps stop high)
    (inside : low < high) :
    likeness.Alike (returnStatement first start stop) (returnStatement second low high) Eq := by
  unfold returnStatement
  obtain ⟨keyword, firstPresent, secondPresent⟩ := exists_token starts (by omega)
  refine alike_tokenAt_bind firstPresent secondPresent ?_
  refine alike_ite (by omega) (fun _ _ => ?_) fun _ _ => alike_pure rfl
  exact (value_alike (by omega) stops).bind fun node _ same => alike_pure (by rw [same])

theorem memoryStatement_alike {kind : NodeKind} (starts : likeness.Maps start low)
    (stops : likeness.Maps stop high) (inside : low < high) :
    likeness.Alike (memoryStatement first kind start stop) (memoryStatement second kind low high)
      Eq := by
  unfold memoryStatement
  refine alike_ite (by omega) (fun _ _ => ?_) fun _ _ => alike_expected _ stops
  have behind : likeness.Maps (start + 1) (low + 1) := by omega
  refine (valueList_alike behind behind stops (by omega)).bind fun values _ same => ?_
  obtain ⟨keyword, firstPresent, secondPresent⟩ := exists_token starts (by omega)
  exact alike_tokenAt_bind firstPresent secondPresent (alike_pure (by rw [same]))

theorem agree_quotedTexts {start stop low high : Nat} (starts : likeness.Maps start low)
    (stops : likeness.Maps stop high) :
    likeness.Agree (quotedTexts first start stop) (quotedTexts second low high) Eq := by
  rw [quotedTexts.eq_def first, quotedTexts.eq_def second]
  refine agree_dite (by omega) (fun _ _ => ?_) fun _ _ => agree_ok rfl
  obtain ⟨token, firstPresent, secondPresent⟩ := exists_token starts (by omega)
  refine agree_tokenAt_bind firstPresent secondPresent ?_
  refine agree_ite Iff.rfl (fun _ _ => ?_) fun _ _ => agree_expected _ starts
  exact (agree_quotedTexts (by omega) stops).bind fun later _ same => agree_ok (by rw [same])
termination_by high - low

theorem asmStatement_alike (starts : likeness.Maps start low) (stops : likeness.Maps stop high)
    (inside : low < high) :
    likeness.Alike (asmStatement first start stop) (asmStatement second low high) Eq := by
  unfold asmStatement
  obtain ⟨keyword, firstPresent, secondPresent⟩ := exists_token starts (by omega)
  refine alike_tokenAt_bind firstPresent secondPresent ?_
  refine (alike_lift (agree_quotedTexts (by omega) stops)).bind fun texts _ same => ?_
  subst same
  exact alike_ite Iff.rfl (fun _ _ => alike_expected _ stops) fun _ _ => alike_pure rfl

theorem keywordStatement_alike {keyword? : Option Keyword} (starts : likeness.Maps start low)
    (stops : likeness.Maps stop high) (inside : low < high) :
    likeness.Alike (keywordStatement first keyword? start stop)
      (keywordStatement second keyword? low high) Eq := by
  unfold keywordStatement
  cases keyword? with
  | none => exact alike_violationAt _ starts
  | some keyword =>
      cases keyword with
      | structWord => exact structFrom_alike starts stops inside
      | rawWord => exact rawStruct_alike starts stops inside
      | enumWord => exact enumStatement_alike starts stops inside
      | gotoWord | labelWord => exact labelStatement_alike starts stops inside
      | breakWord | continueWord => exact loopStatement_alike starts stops inside
      | returnWord => exact returnStatement_alike starts stops inside
      | allocWord | sallocWord | reallocWord | deleteWord =>
          exact memoryStatement_alike starts stops inside
      | asmWord => exact asmStatement_alike starts stops inside
      | _ => exact alike_violationAt _ starts

/-- Corresponding ranges are read as the same statement. -/
theorem statement_alikeFrom (simple : likeness.ReadsSimple origin)
    (starts : likeness.Maps start low) (stops : likeness.Maps stop high) (inside : low < high)
    (pairs : likeness.Pairs usage otherUsage)
    (reached : Reaches first origin (.statement start stop, usage)) :
    likeness.AlikeFrom usage otherUsage (statement first start stop) (statement second low high)
      Eq := by
  obtain ⟨token, firstPresent, secondPresent⟩ := exists_token starts (by omega)
  refine alikeFrom_tokenAt_bind firstPresent secondPresent ?_
  refine alikeFrom_ite Iff.rfl (fun _ _ => ?_) fun noKeyword _ => ?_
  · exact keywordStatement_alike starts stops inside usage otherUsage pairs
  · have here := reached.call (.bareStatement firstPresent noKeyword)
    exact simple _ _ _ _ _ _ starts stops inside pairs here

end Likeness

end TnslReader
