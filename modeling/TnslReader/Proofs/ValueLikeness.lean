import TnslReader.Grammar.Value
import TnslReader.Proofs.RangeLikeness

/-!
Contract: readings of values and types, side by side.

Each reading of values and types has one theorem here: in two streams that are alike, over ranges
that correspond, it has the same trees, and indexes that correspond, as its answers. The theorems
follow the readings in their recursion.
-/

set_option autoImplicit false

namespace TnslReader

namespace Likeness

variable {first second : Array Token} {likeness : Likeness first second}

def Advances (likeness : Likeness first second) {α : Type} {start index : Nat}
    (found : Advance α start) (other : Advance α index) : Prop :=
  found.result = other.result ∧ likeness.Maps found.next other.next

/-- Behind a scan that has found the same, the second part starts at corresponding indexes. -/
theorem Agree.bind_advance {α γ δ : Type} {start index : Nat}
    {answer : Except ParseError (Advance α start)} {other : Except ParseError (Advance α index)}
    {next : Advance α start → Except ParseError γ}
    {otherNext : Advance α index → Except ParseError δ} {joined : γ → δ → Prop}
    (agree : likeness.Agree answer other likeness.Advances)
    (later : ∀ result behind otherBehind, likeness.Maps behind otherBehind →
      ∀ (le_behind : start ≤ behind) (otherLe_behind : index ≤ otherBehind),
        likeness.Agree (next ⟨result, behind, le_behind⟩)
          (otherNext ⟨result, otherBehind, otherLe_behind⟩) joined) :
    likeness.Agree (answer >>= next) (other >>= otherNext) joined := by
  refine agree.bind ?_
  rintro ⟨result, behind, le_behind⟩ ⟨_, otherBehind, otherLe_behind⟩ ⟨rfl, behinds⟩
  exact later result behind otherBehind behinds le_behind otherLe_behind

/-- Behind a reading that has answered the same, the second part starts at corresponding indexes. -/
theorem AlikeFrom.bind_advance {α γ δ : Type} {start index : Nat} {usage otherUsage : Usage}
    {reading : Reading (Advance α start)} {other : Reading (Advance α index)}
    {next : Advance α start → Reading γ} {otherNext : Advance α index → Reading δ}
    {joined : γ → δ → Prop}
    (alike : likeness.AlikeFrom usage otherUsage reading other likeness.Advances)
    (later : ∀ result behind otherBehind, likeness.Maps behind otherBehind →
      ∀ (le_behind : start ≤ behind) (otherLe_behind : index ≤ otherBehind),
        reading usage = .ok ⟨result, behind, le_behind⟩ usage →
        likeness.AlikeFrom usage otherUsage (next ⟨result, behind, le_behind⟩)
          (otherNext ⟨result, otherBehind, otherLe_behind⟩) joined) :
    likeness.AlikeFrom usage otherUsage (reading >>= next) (other >>= otherNext) joined := by
  refine alike.bind ?_
  rintro ⟨result, behind, le_behind⟩ ⟨_, otherBehind, otherLe_behind⟩ read - ⟨rfl, behinds⟩
  exact later result behind otherBehind behinds le_behind otherLe_behind read

theorem Alike.bind_advance {α γ δ : Type} {start index : Nat} {reading : Reading (Advance α start)}
    {other : Reading (Advance α index)} {next : Advance α start → Reading γ}
    {otherNext : Advance α index → Reading δ} {joined : γ → δ → Prop}
    (alike : likeness.Alike reading other likeness.Advances)
    (later : ∀ result behind otherBehind, likeness.Maps behind otherBehind →
      ∀ (le_behind : start ≤ behind) (otherLe_behind : index ≤ otherBehind),
        likeness.Alike (next ⟨result, behind, le_behind⟩)
          (otherNext ⟨result, otherBehind, otherLe_behind⟩) joined) :
    likeness.Alike (reading >>= next) (other >>= otherNext) joined :=
  fun usage otherUsage pairs => (alike usage otherUsage pairs).bind_advance
    fun result behind otherBehind behinds le_behind otherLe_behind _ =>
      later result behind otherBehind behinds le_behind otherLe_behind usage otherUsage pairs

def SameBase (likeness : Likeness first second) {start index : Nat} (base : BaseName start)
    (other : BaseName index) : Prop :=
  base.path = other.path ∧ base.name = other.name ∧ likeness.Maps base.next other.next

/-! ### Readings without state -/

theorem agree_operandStart {start index stop high : Nat} {bound : start ≤ stop}
    {otherBound : index ≤ high} (starts : likeness.Maps start index)
    (stops : likeness.Maps stop high) :
    likeness.Agree (operandStart first start stop bound)
      (operandStart second index high otherBound)
      fun found other => likeness.Maps found.val other.val := by
  rw [operandStart.eq_def first, operandStart.eq_def second]
  refine agree_dite (by omega) (fun _ inside => ?_) fun _ _ => agree_ok starts
  obtain ⟨token, firstPresent, secondPresent⟩ := exists_token starts (by omega)
  refine agree_tokenAt_bind firstPresent secondPresent ?_
  refine agree_ite Iff.rfl (fun _ _ => ?_) fun _ _ => agree_ok starts
  refine (agree_operandStart (by omega) stops).bind ?_
  rintro ⟨found, _, _⟩ ⟨other, _, _⟩ maps
  exact agree_ok maps
termination_by high - index

theorem agree_qualifiers {inParameter : Bool} {start index stop high : Nat}
    (starts : likeness.Maps start index) (stops : likeness.Maps stop high) :
    likeness.Agree (qualifiers first inParameter start stop)
      (qualifiers second inParameter index high) likeness.Advances := by
  rw [qualifiers.eq_def first, qualifiers.eq_def second]
  refine agree_dite (by omega) (fun _ inside => ?_) fun _ _ => agree_ok ⟨rfl, starts⟩
  obtain ⟨token, firstPresent, secondPresent⟩ := exists_token starts (by omega)
  refine agree_tokenAt_bind firstPresent secondPresent ?_
  refine agree_ite Iff.rfl (fun _ _ => agree_violationAt _ starts) (fun _ _ => ?_)
  refine agree_ite Iff.rfl (fun _ _ => ?_) fun _ _ => agree_ok ⟨rfl, starts⟩
  exact (agree_qualifiers (by omega) stops).bind_advance fun _ _ _ nexts _ _ =>
    agree_ok ⟨rfl, nexts⟩
termination_by high - index

theorem agree_dottedName {start index stop high : Nat} (starts : likeness.Maps start index)
    (stops : likeness.Maps stop high) (inside : index < high) :
    likeness.Agree (dottedName first start stop) (dottedName second index high)
      likeness.SameBase := by
  obtain ⟨word, firstPresent, secondPresent⟩ := exists_token starts (by omega)
  have alone : likeness.Agree (.ok ⟨[], word, start + 1, Nat.lt_succ_self _⟩)
      (.ok ⟨[], word, index + 1, Nat.lt_succ_self _⟩)
      (@SameBase first second likeness start index) :=
    agree_ok ⟨rfl, rfl, by dsimp only; omega⟩
  rw [dottedName.eq_def first, dottedName.eq_def second]
  refine agree_tokenAt_bind firstPresent secondPresent ?_
  refine agree_dite (by omega) (fun _ further => ?_) fun _ _ => alone
  obtain ⟨dot, firstDot, secondDot⟩ :=
    exists_token (show likeness.Maps (start + 1) (index + 1) by omega) (by omega)
  refine agree_tokenAt_bind firstDot secondDot ?_
  refine agree_ite Iff.rfl (fun _ _ => ?_) fun _ _ => alone
  obtain ⟨next, firstNext, secondNext⟩ :=
    exists_token (show likeness.Maps (start + 2) (index + 2) by omega) (by omega)
  refine agree_tokenAt_bind firstNext secondNext ?_
  refine agree_ite Iff.rfl (fun _ _ => ?_) fun _ _ => alone
  refine (agree_dottedName (by omega) stops further).bind ?_
  rintro ⟨path, name, behind, _⟩ ⟨otherPath, otherName, otherBehind, _⟩ ⟨samePath, sameName, maps⟩
  exact agree_ok ⟨congrArg (_ :: ·) samePath, sameName, maps⟩
termination_by high - index

theorem agree_baseName {start index stop high : Nat} {base : Token}
    (starts : likeness.Maps start index) (stops : likeness.Maps stop high) (inside : index < high) :
    likeness.Agree (baseName first start stop base) (baseName second index high base)
      likeness.SameBase := by
  unfold baseName
  cases base.tokenClass with
  | builtinType => exact agree_ok ⟨rfl, rfl, by dsimp only; omega⟩
  | userWord => exact agree_dottedName starts stops inside
  | _ => exact agree_violationAt _ starts

theorem agree_backReference {inParameter : Bool} {start index stop high : Nat}
    (starts : likeness.Maps start index) (stops : likeness.Maps stop high) :
    likeness.Agree (backReference first inParameter start stop)
      (backReference second inParameter index high) likeness.Advances := by
  unfold backReference
  refine agree_ite (by simp; omega) (fun _ inside => ?_) fun _ _ => agree_ok ⟨rfl, starts⟩
  simp only [Bool.and_eq_true, decide_eq_true_eq] at inside
  obtain ⟨token, firstPresent, secondPresent⟩ := exists_token starts (by omega)
  refine agree_tokenAt_bind firstPresent secondPresent ?_
  refine agree_ite Iff.rfl (fun _ _ => ?_) fun _ _ => agree_ok ⟨rfl, starts⟩
  exact agree_ok ⟨rfl, by dsimp only; omega⟩

/-! ### The readings of values and types -/

mutual

/-- Corresponding ranges are read as the same value. -/
theorem value_alike {first second : Array Token} {likeness : Likeness first second}
    {start low stop high : Nat} (starts : likeness.Maps start low)
    (stops : likeness.Maps stop high) :
    likeness.Alike (value first start stop) (value second low high) Eq := by
  rw [value.eq_def first, value.eq_def second]
  refine alike_dite (by omega) (fun _ nonempty => ?_) fun _ _ => alike_expected .value stops
  refine alike_nested starts (by omega) ?_
  refine (alike_lift (agree_splitPoints starts stops)).bind fun points others matched => ?_
  cases matched with
  | nil => exact unary_alike starts stops
  | @cons point other later otherLater here matched =>
      have := other.low_lt_index
      have := other.index_lt_high
      dsimp only
      rw [matched.length_eq]
      refine alike_chained here.1 (by omega) ?_
      refine (value_alike starts here.1).bind fun leftmost otherLeftmost same => ?_
      refine alike_foldlM (fun link otherLink left otherLeft maps same => ?_)
        (mapsLink_links stops (.cons here matched)) same
      obtain ⟨operators, ends, inside⟩ := maps
      have := otherLink.extent_lt nonempty
      refine (rightOperand_alike operators ends inside).bind fun right otherRight sameRight => ?_
      obtain ⟨token, firstPresent, secondPresent⟩ := exists_token operators inside
      refine alike_tokenAt_bind firstPresent secondPresent (alike_pure ?_)
      rw [same, sameRight]
termination_by 16 * (high - low) + 7
decreasing_by all_goals omega

theorem rightOperand_alike {first second : Array Token} {likeness : Likeness first second}
    {start operator stop high : Nat} (starts : likeness.Maps start operator)
    (stops : likeness.Maps stop high) (inside : operator < likeness.high) :
    likeness.Alike (rightOperand first start stop) (rightOperand second operator high) Eq := by
  rw [rightOperand.eq_def first, rightOperand.eq_def second]
  obtain ⟨token, firstPresent, secondPresent⟩ := exists_token starts inside
  refine alike_tokenAt_bind firstPresent secondPresent ?_
  refine alike_ite Iff.rfl (fun _ _ => ?_) fun _ _ => value_alike (by omega) stops
  refine (typeAt_alike (by omega) stops).bind_advance fun type next otherNext nexts _ _ => ?_
  exact alike_ite (by omega) (fun _ _ => alike_pure rfl) fun _ _ => alike_violationAt _ nexts
termination_by 16 * (high - operator) + 8
decreasing_by all_goals omega

theorem unary_alike {first second : Array Token} {likeness : Likeness first second}
    {start low stop high : Nat} {bound : start ≤ stop} {otherBound : low ≤ high}
    (starts : likeness.Maps start low) (stops : likeness.Maps stop high) :
    likeness.Alike (unary first start stop bound) (unary second low high otherBound) Eq := by
  rw [unary.eq_def first, unary.eq_def second]
  refine (alike_lift (agree_operandStart starts stops)).bind ?_
  rintro ⟨operand, _, _⟩ ⟨otherOperand, _, _⟩ operands
  dsimp only at operands ⊢
  by_cases inside : otherOperand < high
  · obtain ⟨token, firstPresent, secondPresent⟩ := exists_token operands (by omega)
    have otherInside : operand < stop := by omega
    simp only [inside, otherInside, firstPresent, secondPresent, decide_true, Bool.true_and,
      Option.bind_some]
    refine alike_ite Iff.rfl (fun _ opens => ?_) fun _ _ => preceded_alike starts operands stops
    exact composite_alike starts operands stops inside firstPresent secondPresent
      (by simpa using opens)
  · have otherOutside : ¬operand < stop := by omega
    simp only [inside, otherOutside, decide_false, Bool.false_and, Bool.false_eq_true, ↓reduceIte]
    exact preceded_alike starts operands stops
termination_by 16 * (high - low) + 6
decreasing_by all_goals omega

theorem composite_alike {first second : Array Token} {likeness : Likeness first second}
    {start low brace otherBrace stop high : Nat} {bound : start ≤ brace}
    {otherBound : low ≤ otherBrace} {token : Token}
    (starts : likeness.Maps start low) (braces : likeness.Maps brace otherBrace)
    (stops : likeness.Maps stop high) (inside : otherBrace < high)
    (firstPresent : first[brace]? = some token) (secondPresent : second[otherBrace]? = some token)
    (opens : token.opens? = some .curly) :
    likeness.Alike (composite first start brace stop bound)
      (composite second low otherBrace high otherBound) Eq := by
  rw [composite.eq_def first, composite.eq_def second]
  refine alike_ite (by omega) (fun _ _ => ?_) fun _ _ => alike_violationAt _ starts
  refine alike_closing_bind braces stops (by omega) firstPresent secondPresent opens ?_
  intro close otherClose closes _ _ _ close_lt_high
  refine alike_ite (by omega) (fun _ _ => ?_) fun _ _ => alike_violationAt _ (by omega)
  refine alike_tokenAt_bind firstPresent secondPresent ?_
  refine (alike_lift (agree_parts (by omega) closes)).bind fun items others matched => ?_
  refine (alike_mapM (fun part other maps =>
    have := other.extent_le
    value_alike maps.1 maps.2) matched).bind fun values otherValues same => ?_
  exact alike_pure (by rw [same])
termination_by 16 * (high - low) + 5
decreasing_by all_goals omega

theorem preceded_alike {first second : Array Token} {likeness : Likeness first second}
    {start low operand otherOperand stop high : Nat} {start_le_operand : start ≤ operand}
    {operand_le_stop : operand ≤ stop} {low_le_operand : low ≤ otherOperand}
    {operand_le_high : otherOperand ≤ high} (starts : likeness.Maps start low)
    (operands : likeness.Maps operand otherOperand) (stops : likeness.Maps stop high) :
    likeness.Alike (preceded first start operand stop start_le_operand operand_le_stop)
      (preceded second low otherOperand high low_le_operand operand_le_high) Eq := by
  rw [preceded.eq_def first, preceded.eq_def second]
  refine alike_dite (by omega) (fun _ _ => ?_) (fun _ _ => ?_)
  · refine alike_nested starts (by omega) ?_
    refine (preceded_alike (by omega) operands stops).bind fun node otherNode same => ?_
    obtain ⟨token, firstPresent, secondPresent⟩ := exists_token starts (by omega)
    exact alike_tokenAt_bind firstPresent secondPresent (alike_pure (by rw [same]))
  · exact (primary_alike operands stops).bind_advance fun _ _ _ nexts _ _ =>
      followed_alike rfl nexts stops
termination_by 16 * (high - low) + 4
decreasing_by all_goals omega

theorem primary_alike {first second : Array Token} {likeness : Likeness first second}
    {start index stop high : Nat} (starts : likeness.Maps start index)
    (stops : likeness.Maps stop high) :
    likeness.Alike (primary first start stop) (primary second index high) likeness.Advances := by
  rw [primary.eq_def first, primary.eq_def second]
  refine alike_dite (by omega) (fun _ _ => ?_) fun _ _ => alike_expected .value starts
  obtain ⟨token, firstPresent, secondPresent⟩ := exists_token starts (by omega)
  have behind : likeness.Maps (start + 1) (index + 1) := by omega
  have otherwise : likeness.Alike
      (if token.opens? == some .round then do
        let ⟨close, start_lt_close, _⟩ ← closing first start stop
        let node ← value first (start + 1) close
        return ⟨node, close + 1, Nat.le_succ_of_le (Nat.le_of_lt start_lt_close)⟩
      else if token.isCloser then
        throw (.violationAt first start .unexpectedCloser)
      else
        throw (.expected first start .value) : Reading (Advance Node start))
      (if token.opens? == some .round then do
        let ⟨close, index_lt_close, _⟩ ← closing second index high
        let node ← value second (index + 1) close
        return ⟨node, close + 1, Nat.le_succ_of_le (Nat.le_of_lt index_lt_close)⟩
      else if token.isCloser then
        throw (.violationAt second index .unexpectedCloser)
      else
        throw (.expected second index .value) : Reading (Advance Node index))
      likeness.Advances := by
    refine alike_ite Iff.rfl (fun _ opens => ?_) (fun _ _ => ?_)
    · refine alike_closing_bind starts stops (by omega) firstPresent secondPresent
        (by simpa using opens) ?_
      intro close otherClose closes _ _ _ _
      refine (value_alike behind closes).bind fun node otherNode same => ?_
      exact alike_pure ⟨same, by dsimp only; omega⟩
    · exact alike_ite Iff.rfl (fun _ _ => alike_violationAt _ starts) fun _ _ =>
        alike_expected .value starts
  simp only [firstPresent, secondPresent]
  cases token.tokenClass with
  | literal => exact alike_pure ⟨rfl, behind⟩
  | userWord => exact alike_pure ⟨rfl, behind⟩
  | builtinType => exact alike_pure ⟨rfl, behind⟩
  | keyword => exact alike_violationAt _ starts
  | _ => exact otherwise
termination_by 16 * (high - index) + 3
decreasing_by all_goals omega

theorem followed_alike {first second : Array Token} {likeness : Likeness first second}
    {node otherNode : Node} {start index stop high : Nat} (same : node = otherNode)
    (starts : likeness.Maps start index) (stops : likeness.Maps stop high) :
    likeness.Alike (followed first node start stop) (followed second otherNode index high) Eq := by
  subst same
  rw [followed.eq_def first, followed.eq_def second]
  refine alike_dite (by omega) (fun _ _ => ?_) fun _ _ => alike_pure rfl
  obtain ⟨token, firstPresent, secondPresent⟩ := exists_token starts (by omega)
  refine alike_tokenAt_bind firstPresent secondPresent ?_
  refine alike_ite Iff.rfl (fun _ _ => alike_violationAt _ starts) (fun _ _ => ?_)
  refine alike_nested starts (by omega) ?_
  cases opens : token.opens? with
  | none =>
      refine alike_ite Iff.rfl (fun _ _ => ?_) fun _ _ => alike_violationAt _ starts
      exact followed_alike rfl (by omega) stops
  | some bracket =>
      cases bracket with
      | round =>
          refine alike_closing_bind starts stops (by omega) firstPresent secondPresent opens ?_
          intro close otherClose closes _ _ _ _
          refine (valueList_alike starts (by omega) closes (by omega)).bind
            fun list otherList same => ?_
          exact followed_alike (by rw [same]) (by omega) stops
      | curly =>
          refine alike_closing_bind starts stops (by omega) firstPresent secondPresent opens ?_
          intro close otherClose closes _ _ _ _
          refine (value_alike (by omega) closes).bind fun position otherPosition same => ?_
          exact followed_alike (by rw [same]) (by omega) stops
      | square =>
          refine alike_closing_bind starts stops (by omega) firstPresent secondPresent opens ?_
          intro close otherClose closes _ _ _ _
          refine (typeList_alike starts (by omega) closes (by omega)).bind
            fun list otherList same => ?_
          exact followed_alike (by rw [same]) (by omega) stops
termination_by 16 * (high - index) + 2
decreasing_by all_goals omega

theorem valueList_alike {first second : Array Token} {likeness : Likeness first second}
    {opener otherOpener start low stop high : Nat} (openers : likeness.Maps opener otherOpener)
    (starts : likeness.Maps start low) (stops : likeness.Maps stop high)
    (inside : otherOpener < likeness.high) :
    likeness.Alike (valueList first opener start stop) (valueList second otherOpener low high)
      Eq := by
  rw [valueList.eq_def first, valueList.eq_def second]
  obtain ⟨anchor, firstPresent, secondPresent⟩ := exists_token openers inside
  refine alike_tokenAt_bind firstPresent secondPresent ?_
  refine (alike_lift (agree_parts starts stops)).bind fun items others matched => ?_
  refine (alike_mapM (fun part other maps =>
    have := other.extent_le
    value_alike maps.1 maps.2) matched).bind fun values otherValues same => ?_
  exact alike_pure (by rw [same])
termination_by 16 * (high - low) + 8
decreasing_by all_goals omega

theorem typeList_alike {first second : Array Token} {likeness : Likeness first second}
    {opener otherOpener start low stop high : Nat} (openers : likeness.Maps opener otherOpener)
    (starts : likeness.Maps start low) (stops : likeness.Maps stop high)
    (inside : otherOpener < likeness.high) :
    likeness.Alike (typeList first opener start stop) (typeList second otherOpener low high)
      Eq := by
  rw [typeList.eq_def first, typeList.eq_def second]
  obtain ⟨anchor, firstPresent, secondPresent⟩ := exists_token openers inside
  refine alike_tokenAt_bind firstPresent secondPresent ?_
  refine (alike_lift (agree_parts starts stops)).bind fun items others matched => ?_
  refine (alike_mapM (fun part other maps => ?_) matched).bind ?_
  · have := other.extent_le
    have := maps.2
    refine (typeAt_alike maps.1 maps.2).bind_advance fun type next otherNext nexts _ _ => ?_
    exact alike_ite (by omega) (fun _ _ => alike_pure rfl) fun _ _ => alike_violationAt _ nexts
  · intro types otherTypes same
    exact alike_pure (by rw [same])
termination_by 16 * (high - low) + 8
decreasing_by all_goals omega

/-- In corresponding ranges the same type is read, up to corresponding indexes. -/
theorem typeAt_alike {first second : Array Token} {likeness : Likeness first second}
    {inParameter : Bool} {start low stop high : Nat} (starts : likeness.Maps start low)
    (stops : likeness.Maps stop high) :
    likeness.Alike (typeAt first inParameter start stop) (typeAt second inParameter low high)
      likeness.Advances := by
  rw [typeAt.eq_def first, typeAt.eq_def second]
  refine alike_dite (by omega) (fun _ _ => ?_) fun _ _ => alike_expected .type starts
  obtain ⟨opening, firstPresent, secondPresent⟩ := exists_token starts (by omega)
  simp only [firstPresent, secondPresent]
  refine alike_nested starts (by omega) ?_
  refine (alike_lift (agree_qualifiers starts stops)).bind_advance
    fun qualifying _ _ qualifiersEnd _ _ => ?_
  refine (typeMarks_alike qualifiersEnd stops).bind_advance fun marks _ _ marksEnd _ _ => ?_
  dsimp only
  refine alike_ite (by omega) (fun _ inside => ?_) fun _ _ => alike_expected .baseType marksEnd
  obtain ⟨base, firstBase, secondBase⟩ := exists_token marksEnd (by omega)
  simp only [firstBase, secondBase]
  refine (alike_lift (agree_baseName marksEnd stops inside)).bind ?_
  rintro ⟨path, name, afterName, _⟩ ⟨otherPath, otherName, otherAfterName, _⟩
    ⟨samePath, sameName, nameEnd⟩
  dsimp only at samePath sameName nameEnd ⊢
  subst samePath sameName
  refine (typeArguments_alike nameEnd stops).bind_advance fun arguments _ _ argumentsEnd _ _ => ?_
  exact (alike_lift (agree_backReference argumentsEnd stops)).bind_advance
    fun reference _ _ nexts _ _ => alike_pure ⟨rfl, nexts⟩
termination_by 16 * (high - low) + 7
decreasing_by all_goals omega

theorem typeMarks_alike {first second : Array Token} {likeness : Likeness first second}
    {start index stop high : Nat} (starts : likeness.Maps start index)
    (stops : likeness.Maps stop high) :
    likeness.Alike (typeMarks first start stop) (typeMarks second index high)
      likeness.Advances := by
  rw [typeMarks.eq_def first, typeMarks.eq_def second]
  refine alike_dite (by omega) (fun _ _ => ?_) fun _ _ => alike_pure ⟨rfl, starts⟩
  obtain ⟨token, firstPresent, secondPresent⟩ := exists_token starts (by omega)
  refine alike_tokenAt_bind firstPresent secondPresent ?_
  refine alike_ite Iff.rfl (fun _ _ => ?_) (fun _ _ => ?_)
  · exact (typeMarks_alike (by omega) stops).bind_advance fun _ _ _ nexts _ _ =>
      alike_pure ⟨rfl, nexts⟩
  · refine alike_ite Iff.rfl (fun _ opens => ?_) fun _ _ => alike_pure ⟨rfl, starts⟩
    refine alike_closing_bind starts stops (by omega) firstPresent secondPresent
      (by simpa using opens) ?_
    intro close otherClose closes _ _ _ _
    refine alike_ite (by omega) (fun _ _ => ?_) (fun _ _ => ?_)
    · refine (value_alike (by omega) closes).bind fun length otherLength same => ?_
      subst same
      rw [pure_bind, pure_bind]
      exact (typeMarks_alike (by omega) stops).bind_advance fun _ _ _ nexts _ _ =>
        alike_pure ⟨rfl, nexts⟩
    · rw [pure_bind, pure_bind]
      exact (typeMarks_alike (by omega) stops).bind_advance fun _ _ _ nexts _ _ =>
        alike_pure ⟨rfl, nexts⟩
termination_by 16 * (high - index) + 6
decreasing_by all_goals omega

theorem typeArguments_alike {first second : Array Token} {likeness : Likeness first second}
    {base : Token} {start index stop high : Nat} (starts : likeness.Maps start index)
    (stops : likeness.Maps stop high) :
    likeness.Alike (typeArguments first base start stop) (typeArguments second base index high)
      likeness.Advances := by
  rw [typeArguments.eq_def first, typeArguments.eq_def second]
  refine alike_dite (by omega) (fun _ _ => ?_) fun _ _ => alike_pure ⟨rfl, starts⟩
  obtain ⟨token, firstPresent, secondPresent⟩ := exists_token starts (by omega)
  refine alike_tokenAt_bind firstPresent secondPresent ?_
  refine alike_ite Iff.rfl (fun _ opens => ?_) fun _ _ => alike_pure ⟨rfl, starts⟩
  refine alike_closing_bind starts stops (by omega) firstPresent secondPresent
    (by simpa using opens) ?_
  intro close otherClose closes _ _ _ _
  have behind : likeness.Maps (close + 1) (otherClose + 1) := by omega
  refine (typeList_alike starts (by omega) closes (by omega)).bind fun types otherTypes same => ?_
  subst same
  refine alike_dite (by omega) (fun _ _ => ?_) fun _ _ => alike_pure ⟨rfl, behind⟩
  obtain ⟨next, firstNext, secondNext⟩ := exists_token behind (by omega)
  refine alike_tokenAt_bind firstNext secondNext ?_
  refine alike_ite Iff.rfl (fun _ opensResults => ?_) fun _ _ => alike_pure ⟨rfl, behind⟩
  simp only [Bool.and_eq_true, beq_iff_eq] at opensResults
  refine alike_closing_bind behind stops (by omega) firstNext secondNext opensResults.2 ?_
  intro resultsClose otherResultsClose resultsCloses _ _ _ _
  refine (typeList_alike behind (by omega) resultsCloses (by omega)).bind
    fun results otherResults same => ?_
  subst same
  exact alike_pure ⟨rfl, by dsimp only; omega⟩
termination_by 16 * (high - index) + 6
decreasing_by all_goals omega

end

end Likeness

end TnslReader
