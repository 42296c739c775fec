import TnslReader.Proofs.SectionGrammar
import TnslReader.Proofs.StatementSoundness
import TnslReader.Proofs.ValueExtents
import TnslReader.Reader

/-!
Contract: what is read as a file is one.

The theorems follow the readings of headers, directives, sections and items. They say that each has
read a text of the grammar, from where it began up to where it says that it ended.
-/

set_option autoImplicit false

namespace TnslReader

variable {tokens : Array Token} {usage : Usage}

open Reading (Ensures ensures_pure ensures_throw ensures_lift ensures_tokenAt
  ensures_tokenAt_bind ensures_nested ensures_expected ensures_violationAt)

/-! ### Headers -/

theorem headerList_ensures {control : Bool} {bracket : Bracket} {opener close : Nat}
    {anchor : Token} (size : close ≤ tokens.size) (present : tokens[opener]? = some anchor)
    (listable : bracket ≠ .curly) :
    (headerList tokens control bracket opener close).Ensures tokens usage
      (HeaderListText usage.depthLeft usage.chainLeft control bracket
        (slice tokens (opener + 1) close) anchor) := by
  unfold headerList
  split
  next isControl =>
    apply (statementList_ensures size present).mono
    intro _ held
    rcases held with ⟨nodes, rfl, listed⟩
    exact isControl ▸ .statements listed
  next notControl =>
    rw [Bool.not_eq_true] at notControl
    split
    next isRound =>
      apply (parameterList_ensures size present).mono
      intro _ held
      rcases held with ⟨nodes, rfl, listed⟩
      exact notControl ▸ isRound ▸ .parameters listed
    next notRound =>
      have isSquare : bracket = .square := by cases bracket <;> simp_all
      apply (typeList_ensures size present).mono
      intro _ held
      rcases held with ⟨nodes, rfl, listed⟩
      exact notControl ▸ isSquare ▸ .types listed

theorem eq_of_tokenOfClass? {index : Nat} {tokenClass : TokenClass} {token : Token}
    (found : tokenOfClass? tokens index tokenClass = some token) :
    tokens[index]? = some token ∧ token.tokenClass = tokenClass := by
  simpa [tokenOfClass?, Option.filter_eq_some_iff] using found

/-- The token behind a place is the first of what is read from there on, if anything is. -/
theorem head?_slice_any {index next : Nat} {test : Token → Bool}
    (absent : tokens[index]?.any test = false) :
    (slice tokens index next).head?.any test = false := by
  cases equal : slice tokens index next with
  | nil => rfl
  | cons token rest =>
      rw [(eq_cons_of_slice equal).2.1] at absent
      exact absent

/-- A keyword of a header takes the tokens up to where it says, whatever comes behind them. -/
theorem sound_headerKeyword {state : HeaderState} {token : Token} {index : Nat}
    (present : tokens[index]? = some token) (isKeyword : token.tokenClass = .keyword) :
    Sound tokens (headerKeyword tokens state token index) fun child =>
      child.next ≤ tokens.size ∧ ∀ next, HeaderWordText state
        (slice tokens index child.next) (slice tokens child.next next) child.node child.state := by
  have inside := (Array.getElem?_eq_some_iff.mp present).1
  have alone : slice tokens index (index + 1) = [token] := by
    rw [slice_eq_cons present (Nat.lt_succ_self index), slice_eq_nil tokens (Nat.le_refl _)]
  have both {second : Token} (secondPresent : tokens[index + 1]? = some second) :
      index + 2 ≤ tokens.size ∧ slice tokens index (index + 2) = [token, second] := by
    refine ⟨(Array.getElem?_eq_some_iff.mp secondPresent).1, ?_⟩
    rw [slice_eq_cons present (by omega), slice_eq_cons secondPresent (by omega),
      slice_eq_nil tokens (Nat.le_refl _)]
  unfold headerKeyword
  dsimp only
  split
  next =>
    split
    · exact Sound.violationAt ..
    · exact Sound.violationAt ..
  next keyword found =>
    have isWord := Token.isKeyword_of_keyword? isKeyword found
    split
    next modifies =>
      refine Sound.ok ⟨inside, fun next => ?_⟩
      rw [alone]
      exact .modifier isWord modifies
    next =>
      split
      next => exact Sound.violationAt ..
      next unnamed =>
        rw [Bool.not_eq_true] at unnamed
        split
        next isElseIf =>
          simp only [Bool.and_eq_true, decide_eq_true_eq] at isElseIf
          obtain ⟨isElse, isIf⟩ := isElseIf
          obtain ⟨second, secondPresent, isIf⟩ := Option.any_eq_true _ _ |>.mp isIf
          obtain ⟨bound, text⟩ := both secondPresent
          refine Sound.ok ⟨bound, fun next => ?_⟩
          rw [text]
          exact .elseIf unnamed (isElse ▸ isWord) isIf
        next notElseIf =>
          split
          next controls =>
            refine Sound.ok ⟨inside, fun next => ?_⟩
            rw [alone]
            refine .control unnamed isWord controls fun isElse => head?_slice_any ?_
            simpa [isElse] using notElseIf
          next =>
            split
            next isOperatorWord =>
              split
              next operator operatorFound =>
                obtain ⟨operatorPresent, isOperator⟩ := eq_of_tokenOfClass? operatorFound
                obtain ⟨bound, text⟩ := both operatorPresent
                refine Sound.ok ⟨bound, fun next => ?_⟩
                rw [text]
                exact .operator unnamed (isOperatorWord ▸ isWord) isOperator
              next => exact Sound.expected ..
            next =>
              split
              next names =>
                split
                next name nameFound =>
                  obtain ⟨namePresent, isName⟩ := eq_of_tokenOfClass? nameFound
                  obtain ⟨bound, text⟩ := both namePresent
                  refine Sound.ok ⟨bound, fun next => ?_⟩
                  rw [text]
                  exact .name unnamed isWord (by simpa using names) isName
                next => exact Sound.expected ..
              next => exact Sound.violationAt ..

/-- Where a condition ends the header ends too, or what comes there is refused. -/
theorem headerFrom_ensures_done {state : HeaderState} {index : Nat}
    (ends : ∀ token, tokens[index]? = some token →
      token.endsStatement = true ∨ token.isComma = true ∨ token.isCloser = true) :
    (headerFrom tokens state index).Ensures tokens usage fun found =>
      found.result = [] ∧ found.next = index := by
  rw [headerFrom]
  split
  next => exact ensures_expected ..
  next token present =>
    have inside := (Array.getElem?_eq_some_iff.mp present).1
    split
    next => exact ensures_pure ⟨rfl, rfl⟩
    next notEnd =>
      -- A comma or a closing bracket is none of the tokens that a child of a header begins with.
      have stranger : token.opens? = none ∧ token.tokenClass ≠ .userWord ∧
          token.tokenClass ≠ .keyword := by
        rcases ends token present with endsStatement | isComma | isCloser
        · exact absurd endsStatement notEnd
        · simp [Token.opens?, Token.tokenClass_of_isComma isComma]
        · obtain ⟨bracket, closes⟩ := Option.isSome_iff_exists.mp isCloser
          simp [Token.opens?_eq_none_of_closes? closes, Token.tokenClass_of_closes? closes]
      simp only [stranger.1, stranger.2.1, stranger.2.2, beq_iff_eq, Bool.and_eq_true, false_and,
        ↓reduceIte]
      split
      next =>
        have extent : valueExtent tokens index tokens.size = .ok index := by
          rw [valueExtent, Nat.min_self]
          exact valueExtentFrom_eq inside present (ends token present)
        rw [extent]
        apply (ensures_lift (Sound.ok rfl)).bind
        intro _ equal
        subst equal
        rw [dif_neg (Nat.lt_irrefl _)]
        exact ensures_expected ..
      next => exact ensures_violationAt ..

mutual

theorem headerFrom_ensures {tokens : Array Token} {state : HeaderState} {index : Nat}
    {usage : Usage} :
    (headerFrom tokens state index).Ensures tokens usage fun found =>
      found.next ≤ tokens.size ∧ HeaderText usage.depthLeft usage.chainLeft state
        (slice tokens index found.next) found.result := by
  rw [headerFrom]
  split
  next => exact ensures_expected ..
  next token present =>
    have inside := (Array.getElem?_eq_some_iff.mp present).1
    split
    next =>
      refine ensures_pure ⟨Nat.le_of_lt inside, ?_⟩
      rw [slice_eq_nil tokens (Nat.le_refl _)]
      exact .done
    next =>
      split
      next opens => exact listThen_ensures (by simp) present opens
      next opens => exact listThen_ensures (by simp) present opens
      next =>
        split
        next isName =>
          simp only [Bool.and_eq_true, beq_iff_eq, Bool.not_eq_true'] at isName
          obtain ⟨isWord, uncontrolled⟩ := isName
          split
          next => exact ensures_violationAt ..
          next unnamed =>
            apply headerFrom_ensures.bind
            intro answer held
            rcases answer with ⟨later, next, le_next⟩
            rcases held with ⟨next_le, headed⟩
            dsimp only at next_le headed ⊢
            refine ensures_pure ⟨next_le, ?_⟩
            rw [slice_eq_cons present le_next]
            exact .name (by simpa using unnamed) uncontrolled isWord headed
        next =>
          split
          next isKeyword =>
            apply (ensures_lift (sound_headerKeyword present (by simpa using isKeyword))).bind
            intro answer held
            rcases answer with ⟨child, found, behind, index_lt_behind⟩
            rcases held with ⟨behind_le, worded⟩
            dsimp only at behind_le worded ⊢
            apply headerFrom_ensures.bind
            intro answer held
            rcases answer with ⟨later, next, le_next⟩
            rcases held with ⟨next_le, headed⟩
            dsimp only at next_le headed ⊢
            refine ensures_pure ⟨next_le, ?_⟩
            rw [← slice_append tokens (Nat.le_of_lt index_lt_behind) le_next]
            exact .word (worded next) headed
          next =>
            split
            next controlled =>
              apply (ensures_lift (sound_valueExtent (Nat.le_of_lt inside))).bind
              intro stop held
              rcases held with ⟨stop_le, ends⟩
              split
              next advances =>
                apply (valueStatement_ensures stop_le advances).bind
                intro _ held
                rcases held with ⟨anchor, order, inner, anchorPresent, rfl, valued⟩
                apply (headerFrom_ensures_done ends).bind
                intro answer held
                rcases answer with ⟨later, next, le_next⟩
                dsimp only at held ⊢
                obtain ⟨rfl, rfl⟩ := held
                exact ensures_pure ⟨stop_le,
                  .condition controlled valued (head?_slice anchorPresent advances)⟩
              next => exact ensures_expected ..
            next => exact ensures_violationAt ..
termination_by 2 * (tokens.size - index)
decreasing_by all_goals omega

theorem listThen_ensures {tokens : Array Token} {state : HeaderState} {bracket : Bracket}
    {index : Nat} {usage : Usage} {opener : Token} {inside : index < tokens.size}
    (listable : bracket ≠ .curly) (present : tokens[index]? = some opener)
    (opens : opener.opens? = some bracket) :
    (headerFrom.listThen tokens state bracket index inside).Ensures tokens usage fun found =>
      found.next ≤ tokens.size ∧ HeaderText usage.depthLeft usage.chainLeft state
        (slice tokens index found.next) found.result := by
  rw [headerFrom.listThen]
  split
  next => exact ensures_violationAt ..
  next fresh =>
    apply ensures_closing_bind present opens
    intro close index_lt_close close_lt_size closer closerPresent closes
    dsimp only
    refine (headerList_ensures (Nat.le_of_lt close_lt_size) present listable).bind
      fun list listed => ?_
    apply headerFrom_ensures.bind
    intro answer held
    rcases answer with ⟨later, next, le_next⟩
    rcases held with ⟨next_le, headed⟩
    dsimp only at next_le headed ⊢
    refine ensures_pure ⟨next_le, ?_⟩
    rw [slice_eq_pair present index_lt_close closerPresent le_next]
    exact .list listable (by simpa using fresh) opens listed closes headed
termination_by 2 * (tokens.size - index) - 1
decreasing_by all_goals omega

end

theorem header_ensures {anchor index : Nat} {marker : Token}
    (present : tokens[anchor]? = some marker) :
    (header tokens anchor index).Ensures tokens usage fun found =>
      ∃ children, found.next ≤ tokens.size ∧ found.result = .tagged .header marker children ∧
        HeaderText usage.depthLeft usage.chainLeft .empty (slice tokens index found.next)
          children := by
  unfold header
  apply ensures_tokenAt_bind present
  apply headerFrom_ensures.bind
  intro answer held
  rcases answer with ⟨children, next, le_next⟩
  rcases held with ⟨next_le, headed⟩
  exact ensures_pure ⟨children, next_le, rfl, headed⟩

/-! ### Directives -/

/-- The arguments of a directive are the tokens up to the first that is none. -/
theorem arguments_spec (tokens : Array Token) {index : Nat} (bound : index ≤ tokens.size) :
    (arguments tokens index).next ≤ tokens.size ∧
      (arguments tokens index).result =
        (slice tokens index (arguments tokens index).next).map (.leaf .argument) ∧
      ∀ token ∈ slice tokens index (arguments tokens index).next, token.isArgument = true := by
  rw [arguments]
  split
  next inside =>
    dsimp only
    split
    next => simp [slice_eq_nil, Nat.le_of_lt inside]
    next isArgument =>
      obtain ⟨next_le, leaves, isArguments⟩ := arguments_spec tokens inside
      have text := slice_eq_cons (Array.getElem?_eq_getElem inside)
        (arguments tokens (index + 1)).le_next
      refine ⟨next_le, ?_, ?_⟩
      · rw [text, List.map_cons, ← leaves]
      · rw [text, List.forall_mem_cons]
        exact ⟨by simpa [Token.isArgument] using isArgument, isArguments⟩
  next => simp [slice_eq_nil, bound]
termination_by tokens.size - index

theorem sound_directive {index : Nat} :
    Sound tokens (directive tokens index) fun found =>
      found.next ≤ tokens.size ∧
        DirectiveText (slice tokens index found.next) found.result := by
  unfold directive
  split
  next => exact Sound.expected ..
  next word found =>
    obtain ⟨present, isWord⟩ := eq_of_tokenOfClass? found
    have inside := (Array.getElem?_eq_some_iff.mp present).1
    obtain ⟨next_le, leaves, isArguments⟩ := arguments_spec tokens inside
    refine Sound.ok ⟨next_le, ?_⟩
    dsimp only
    rw [slice_eq_cons present (arguments tokens (index + 1)).le_next, leaves]
    exact .directive isWord isArguments

theorem sound_directivesFrom {index : Nat} :
    Sound tokens (directivesFrom tokens index) fun found =>
      found.next ≤ tokens.size ∧
        DirectivesText (slice tokens index found.next) found.result := by
  rw [directivesFrom]
  split
  next inside =>
    have present := Array.getElem?_eq_getElem inside
    dsimp only
    split
    next =>
      refine Sound.ok ⟨Nat.le_of_lt inside, ?_⟩
      rw [slice_eq_nil tokens (Nat.le_refl _)]
      exact .done
    next =>
      split
      next isColon =>
        apply sound_directivesFrom.bind
        intro answer held
        rcases answer with ⟨nodes, next, le_next⟩
        rcases held with ⟨next_le, listed⟩
        dsimp only at next_le listed ⊢
        refine Sound.ok ⟨next_le, ?_⟩
        rw [slice_eq_cons present le_next]
        exact .colon isColon listed
      next =>
        split
        next =>
          apply sound_directive.bind
          intro answer held
          rcases answer with ⟨node, behind, index_lt_behind⟩
          rcases held with ⟨behind_le, directed⟩
          dsimp only at behind_le directed ⊢
          apply sound_directivesFrom.bind
          intro answer held
          rcases answer with ⟨nodes, next, le_next⟩
          rcases held with ⟨next_le, listed⟩
          dsimp only at next_le listed ⊢
          refine Sound.ok ⟨next_le, ?_⟩
          rw [← slice_append tokens (Nat.le_of_succ_le index_lt_behind) le_next]
          exact .directive directed listed
        next => exact Sound.violationAt ..
  next => exact Sound.expected ..
termination_by tokens.size - index

theorem sound_preprocessorSection {anchor index : Nat} {marker : Token}
    (present : tokens[anchor]? = some marker) :
    Sound tokens (preprocessorSection tokens anchor index) fun found =>
      ∃ nodes, found.next ≤ tokens.size ∧ found.result = .tagged .directives marker nodes ∧
        DirectivesText (slice tokens index found.next) nodes := by
  unfold preprocessorSection
  rw [Sound.tokenAt_eq_ok present, Sound.ok_bind]
  apply sound_directivesFrom.bind
  intro answer held
  rcases answer with ⟨nodes, next, le_next⟩
  rcases held with ⟨next_le, listed⟩
  exact Sound.ok ⟨nodes, next_le, rfl, listed⟩

/-! ### Items -/

theorem statementEnd_le (tokens : Array Token) {index : Nat} (bound : index ≤ tokens.size) :
    statementEnd tokens index ≤ tokens.size := by
  fun_induction statementEnd tokens index with
  | case1 => exact bound
  | case2 _ inside _ inductionHypothesis => exact inductionHypothesis inside
  | case3 => omega

theorem statementItem_ensures {index : Nat} {semicolon : Token}
    (present : tokens[index]? = some semicolon)
    (isSemicolon : semicolon.isLineSeparator ';' = true) :
    (statementItem tokens (index + 1)).Ensures tokens usage fun found =>
      found.next ≤ tokens.size ∧ ItemText usage.depthLeft usage.chainLeft
        (slice tokens index found.next) found.result := by
  have inside := (Array.getElem?_eq_some_iff.mp present).1
  have stop_le := statementEnd_le tokens (show index + 1 ≤ tokens.size from inside)
  have le_stop := le_statementEnd tokens (index + 1)
  unfold statementItem
  dsimp only
  split
  next =>
    refine ensures_pure ⟨inside, ?_⟩
    dsimp only
    rw [slice_eq_cons present (Nat.lt_succ_self index), slice_eq_nil tokens (Nat.le_refl _)]
    exact .empty isSemicolon
  next nonempty =>
    refine (statement_ensures stop_le (by omega)).bind fun node stated => ?_
    refine ensures_pure ⟨stop_le, ?_⟩
    dsimp only
    rw [slice_eq_cons present le_stop]
    exact .statement isSemicolon stated

mutual

/-- What is read as an item is one. -/
theorem item_ensures {tokens : Array Token} {stray : Violation} {index : Nat} {usage : Usage} :
    (item tokens stray index).Ensures tokens usage fun found =>
      found.next ≤ tokens.size ∧ ItemText usage.depthLeft usage.chainLeft
        (slice tokens index found.next) found.result := by
  rw [item]
  split
  next inside =>
    have present := Array.getElem?_eq_getElem inside
    dsimp only
    split
    next found =>
      refine (sectionChain_ensures ⟨_, found, rfl, rfl, by simp, by simp⟩).bind ?_
      intro answer held
      rcases answer with ⟨node, next, le_next⟩
      rcases held with ⟨next_le, chained⟩
      exact ensures_pure ⟨next_le, .sections chained⟩
    next found =>
      refine (sectionChain_ensures ⟨_, found, rfl, rfl, by simp, by simp⟩).bind ?_
      intro answer held
      rcases answer with ⟨node, next, le_next⟩
      rcases held with ⟨next_le, chained⟩
      exact ensures_pure ⟨next_le, .sections chained⟩
    next =>
      split
      next isSemicolon => exact statementItem_ensures present isSemicolon
      next =>
        split
        next isColon =>
          refine (ensures_lift sound_directive).bind ?_
          intro answer held
          rcases answer with ⟨node, next, le_next⟩
          rcases held with ⟨next_le, directed⟩
          dsimp only at next_le directed ⊢
          refine ensures_pure ⟨next_le, ?_⟩
          dsimp only
          rw [slice_eq_cons present (by omega)]
          exact .directive isColon directed
        next =>
          split
          · exact ensures_violationAt ..
          · exact ensures_violationAt ..
  next => exact ensures_expected ..
termination_by 4 * (tokens.size - index) + 1
decreasing_by all_goals omega

theorem sectionChain_ensures {tokens : Array Token} {kind : Section} {opener : Nat}
    {usage : Usage} {inside : opener < tokens.size}
    (opens : tokens[opener].Turns none (some kind)) :
    (sectionChain tokens kind opener).Ensures tokens usage fun found =>
      found.next ≤ tokens.size ∧ ChainedText usage.depthLeft usage.chainLeft
        (slice tokens opener found.next) found.result := by
  have present := Array.getElem?_eq_getElem inside
  rw [sectionChain, dif_pos inside]
  refine ensures_nested fun room => ?_
  have known : kind ≠ .comment := fun isComment => by simp [Token.Turns, isComment] at opens
  refine (sectionAt_ensures present known).bind ?_
  intro answer held
  rcases answer with ⟨head, behind, le_behind⟩
  rcases held with ⟨behind_le, first⟩
  dsimp only at behind_le first ⊢
  refine (laterSections_ensures known).bind ?_
  intro answer held
  rcases answer with ⟨later, next, le_next⟩
  rcases held with ⟨next_le, others⟩
  dsimp only at next_le others ⊢
  refine ensures_pure ⟨next_le, ?_⟩
  dsimp only
  rw [slice_eq_cons present (by omega), ← slice_append tokens le_behind le_next]
  exact .sections (Usage.depthLeft_enter_lt room) opens first others
termination_by 4 * (tokens.size - opener)
decreasing_by all_goals omega

theorem laterSections_ensures {tokens : Array Token} {kind : Section} {index : Nat}
    {usage : Usage} (known : kind ≠ .comment) :
    (laterSections tokens kind index).Ensures tokens usage fun found =>
      found.next ≤ tokens.size ∧ LaterText usage.depthLeft usage.chainLeft kind
        (slice tokens index found.next) found.result := by
  rw [laterSections]
  split
  next inside =>
    have present := Array.getElem?_eq_getElem inside
    split
    next => exact ensures_expected ..
    next marker found =>
      split
      next closes =>
        split
        next opensNone =>
          refine ensures_pure ⟨inside, ?_⟩
          dsimp only
          rw [slice_eq_cons present (Nat.lt_succ_self index), slice_eq_nil tokens (Nat.le_refl _)]
          exact .done ⟨marker, found, closes, opensNone, by simpa using known, by simp⟩
        next => exact ensures_violationAt ..
        next opened notComment opens =>
          apply (sectionAt_ensures present notComment).bind
          intro answer held
          rcases answer with ⟨node, behind, le_behind⟩
          rcases held with ⟨behind_le, here⟩
          dsimp only at behind_le here ⊢
          apply (laterSections_ensures notComment).bind
          intro answer held
          rcases answer with ⟨later, next, le_next⟩
          rcases held with ⟨next_le, others⟩
          dsimp only at next_le others ⊢
          refine ensures_pure ⟨next_le, ?_⟩
          dsimp only
          rw [slice_eq_cons present (by omega), ← slice_append tokens le_behind le_next]
          exact .more ⟨marker, found, closes, opens, by simpa using known, by simpa using notComment⟩
            here others
      next => exact ensures_violationAt ..
  next => exact ensures_expected ..
termination_by 4 * (tokens.size - index)
decreasing_by all_goals omega

theorem sectionAt_ensures {tokens : Array Token} {kind : Section} {anchor index : Nat}
    {usage : Usage} {marker : Token} (present : tokens[anchor]? = some marker)
    (known : kind ≠ .comment) :
    (sectionAt tokens kind anchor index).Ensures tokens usage fun found =>
      found.next ≤ tokens.size ∧ SectionText usage.depthLeft usage.chainLeft kind marker
        (slice tokens index found.next) found.result := by
  cases kind with
  | comment => exact absurd rfl known
  | preprocessor =>
      rw [sectionAt]
      refine (ensures_lift (sound_preprocessorSection present)).mono ?_
      intro answer held
      rcases answer with ⟨node, next, le_next⟩
      rcases held with ⟨nodes, next_le, rfl, listed⟩
      exact ⟨next_le, .preprocessor listed⟩
  | code =>
      rw [sectionAt.eq_def]
      dsimp only
      apply ensures_tokenAt_bind present
      refine (header_ensures present).bind ?_
      intro answer held
      rcases answer with ⟨heading, behind, le_behind⟩
      rcases held with ⟨children, behind_le, rfl, headed⟩
      dsimp only at behind_le headed ⊢
      refine bodyFrom_ensures.bind ?_
      intro answer held
      rcases answer with ⟨items, next, le_next⟩
      rcases held with ⟨next_le, body⟩
      dsimp only at next_le body ⊢
      refine ensures_pure ⟨next_le, ?_⟩
      dsimp only
      rw [← slice_append tokens le_behind le_next]
      exact .code headed body
termination_by 4 * (tokens.size - index) + 3
decreasing_by all_goals omega

theorem bodyFrom_ensures {tokens : Array Token} {index : Nat} {usage : Usage} :
    (bodyFrom tokens index).Ensures tokens usage fun found =>
      found.next ≤ tokens.size ∧ ItemsText usage.depthLeft usage.chainLeft
        (slice tokens index found.next) found.result := by
  rw [bodyFrom]
  split
  next inside =>
    split
    next =>
      refine ensures_pure ⟨Nat.le_of_lt inside, ?_⟩
      rw [slice_eq_nil tokens (Nat.le_refl _)]
      exact .done
    next =>
      apply item_ensures.bind
      intro answer held
      rcases answer with ⟨node, behind, index_lt_behind⟩
      rcases held with ⟨behind_le, here⟩
      dsimp only at behind_le here ⊢
      apply bodyFrom_ensures.bind
      intro answer held
      rcases answer with ⟨nodes, next, le_next⟩
      rcases held with ⟨next_le, others⟩
      dsimp only at next_le others ⊢
      refine ensures_pure ⟨next_le, ?_⟩
      dsimp only
      rw [← slice_append tokens (Nat.le_of_succ_le index_lt_behind) le_next]
      exact .more here others
  next => exact ensures_expected ..
termination_by 4 * (tokens.size - index) + 2
decreasing_by all_goals omega

end

/-! ### Files -/

theorem rootItemsFrom_ensures {tokens : Array Token} {index : Nat} {usage : Usage} :
    (rootItemsFrom tokens index).Ensures tokens usage
      (ItemsText usage.depthLeft usage.chainLeft (slice tokens index tokens.size)) := by
  rw [rootItemsFrom]
  split
  next inside =>
    refine item_ensures.bind ?_
    intro answer held
    rcases answer with ⟨node, behind, index_lt_behind⟩
    rcases held with ⟨behind_le, here⟩
    dsimp only at behind_le here ⊢
    refine rootItemsFrom_ensures.bind fun nodes others => ?_
    rw [← slice_append tokens (Nat.le_of_succ_le index_lt_behind) behind_le]
    exact ensures_pure (.more here others)
  next ended =>
    rw [slice_eq_nil tokens (Nat.not_lt.mp ended)]
    exact ensures_pure .done
termination_by tokens.size - index

theorem sound_readTree (tokens : Array Token) (label : String) (limits : Limits) :
    Sound tokens (readTree tokens label limits) fun root =>
      ∃ items, root = ⟨.root, .root label, items⟩ ∧
        ItemsText limits.maxDepth limits.maxChain tokens.toList items := by
  have sound := (@rootItemsFrom_ensures tokens 0 (.none limits)).2
  rw [slice_all] at sound
  unfold readTree
  cases answered : (rootItemsFrom tokens 0).answer (.none limits) with
  | ok items =>
      rw [answered] at sound
      exact ⟨items, rfl, sound⟩
  | error error =>
      rw [answered] at sound
      exact sound

/-- A tree that is read is that of a file, under the limits that it is read with. -/
theorem itemsText_of_readTree {label : String} {limits : Limits} {root : Node}
    (read : readTree tokens label limits = .ok root) :
    ∃ items, root = ⟨.root, .root label, items⟩ ∧
      ItemsText limits.maxDepth limits.maxChain tokens.toList items := by
  have sound := sound_readTree tokens label limits
  rwa [read] at sound

end TnslReader
