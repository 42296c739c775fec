import TnslReader.Proofs.StatementGrammar
import TnslReader.Proofs.ValuePlaces
import TnslReader.Proofs.ValueRoom
import TnslReader.Proofs.ValueSoundness

/-!
Contract: what is read as a statement is one.

As for values, each reading has one theorem here that says which text of the grammar it has read.
A definition reads its type a second time, after the look ahead that told it from a value, and both
readings of the type are the same; so a definition has at least the name that the look ahead found.
-/

set_option autoImplicit false

namespace TnslReader

variable {tokens : Array Token} {low high : Nat} {usage : Usage}

open Reading (Ensures ensures_pure ensures_throw ensures_lift ensures_tokenAt
  ensures_tokenAt_bind ensures_nested ensures_expected ensures_violationAt ensures_mapM
  ensures_succeeds ensures_iff)

/-- What a reading ensures, it ensures of the answer that it gives. -/
theorem Reading.Ensures.answered {α : Type} {reading : Reading α} {property : α → Prop}
    (ensures : reading.Ensures tokens usage property) :
    reading.Ensures tokens usage fun result =>
      property result ∧ reading usage = .ok result usage := by
  rw [ensures_iff] at ensures ⊢
  cases ran : reading usage with
  | ok result after =>
      rw [ran] at ensures
      obtain ⟨rfl, holds⟩ := ensures
      exact ⟨rfl, holds, rfl⟩
  | error error after =>
      rw [ran] at ensures
      exact ensures

theorem slice_subset (tokens : Array Token) (low high : Nat) :
    slice tokens low high ⊆ tokens.toList :=
  fun _ member => List.mem_of_mem_take (List.mem_of_mem_drop member)

theorem head?_slice {token : Token} (present : tokens[low]? = some token) (inside : low < high) :
    (slice tokens low high).head? = some token := by
  rw [slice_eq_cons present inside]
  rfl

/-! ### Definitions and values -/

theorem isDefinitionAt_ensures (size : high ≤ tokens.size) :
    (isDefinitionAt tokens low high).Ensures tokens usage fun found =>
      found = true → ∃ type, typeAt tokens false low high usage = .ok type usage ∧
        type.next < high ∧
        ∃ name, tokens[type.next]? = some name ∧ name.tokenClass = .userWord := by
  refine ensures_succeeds (typeAt_ensures size).answered ?_ (by simp)
  intro answer held
  rcases answer with ⟨type, next, le_next⟩
  rcases held with ⟨-, answered⟩
  dsimp only
  split
  next inside =>
    refine (ensures_tokenAt (by omega)).bind fun name present => ?_
    exact ensures_pure fun isWord => ⟨_, answered, inside, name, present, by simpa using isWord⟩
  next => exact ensures_pure (by simp)

theorem definition_ensures {type : Advance Node low} {name : Token} (size : high ≤ tokens.size)
    (answered : typeAt tokens false low high usage = .ok type usage) (inside : type.next < high)
    (present : tokens[type.next]? = some name) (isWord : name.tokenClass = .userWord) :
    (definition tokens low high).Ensures tokens usage
      (SimpleText usage.depthLeft usage.chainLeft (slice tokens low high)) := by
  refine (typeAt_ensures size).answered.bind ?_
  intro found held
  rcases held with ⟨⟨next_le, typed, -⟩, again⟩
  obtain rfl : type = found := by simpa using answered.symm.trans again
  have low_lt_next : low < type.next := lt_of_slice rfl typed.length_pos
  refine (valueList_ensures size present).bind ?_
  intro _ held
  rcases held with ⟨names, rfl, listed⟩
  dsimp only [Node.tagged]
  split
  next item found =>
    have member : item ∈ names := List.mem_of_find?_eq_some found
    refine ensures_throw ?_
    have headed := (listed.headed item member).mono (slice_subset tokens type.next high)
    exact headed.imp Array.mem_toList_iff.mp fun tags => ⟨rfl, tags⟩
  next none =>
    refine (ensures_tokenAt (by omega)).bind fun anchor anchorPresent => ?_
    rw [← slice_append tokens (Nat.le_of_lt low_lt_next) (Nat.le_of_lt inside)]
    refine ensures_pure (.definition typed listed ?_ (head?_slice anchorPresent low_lt_next)
      (head?_slice present inside) isWord)
    intro item member
    simpa using List.find?_eq_none.mp none item member

theorem valueStatement_ensures (size : high ≤ tokens.size) (inside : low < high) :
    (valueStatement tokens low high).Ensures tokens usage fun node =>
      ∃ anchor order inner, tokens[low]? = some anchor ∧
        node = .tagged .valueStatement anchor [inner] ∧
        ValueText usage.depthLeft usage.chainLeft order (slice tokens low high) inner := by
  refine (ensures_tokenAt (by omega)).bind fun anchor present => ?_
  refine (value_ensures size).bind ?_
  intro inner held
  rcases held with ⟨order, valued⟩
  exact ensures_pure ⟨anchor, order, inner, present, rfl, valued⟩

theorem simpleStatement_ensures (size : high ≤ tokens.size) (inside : low < high) :
    (simpleStatement tokens low high).Ensures tokens usage
      (SimpleText usage.depthLeft usage.chainLeft (slice tokens low high)) := by
  refine (isDefinitionAt_ensures size).bind fun defines found => ?_
  split
  next isTrue =>
    obtain ⟨type, answered, next_lt_high, name, present, isWord⟩ := found isTrue
    exact definition_ensures size answered next_lt_high present isWord
  next =>
    refine (ensures_tokenAt (by omega)).bind fun first present => ?_
    split
    next =>
      refine (typeAt_ensures size).bind ?_
      rintro ⟨type, next, le_next⟩ -
      exact ensures_expected ..
    next =>
      refine (valueStatement_ensures size inside).mono ?_
      intro node held
      rcases held with ⟨anchor, order, inner, anchorPresent, rfl, valued⟩
      exact .value valued (head?_slice anchorPresent inside)

/-! ### Parameters and lists of statements -/

theorem parameter_ensures {typed : Bool} {start stop : Nat} (start_le_stop : start ≤ stop)
    (size : stop ≤ tokens.size) :
    (parameter tokens typed start stop).Ensures tokens usage
      (ParameterText usage.depthLeft usage.chainLeft typed (slice tokens start stop)) := by
  unfold parameter
  split
  next => exact ensures_expected ..
  next nonempty =>
    refine (ensures_tokenAt (by omega)).bind fun first present => ?_
    split
    next alone =>
      simp only [Bool.and_eq_true, decide_eq_true_eq, beq_iff_eq] at alone
      obtain ⟨rfl, isWord⟩ := alone
      split
      next isTyped =>
        rw [slice_eq_cons present (Nat.lt_succ_self start), slice_eq_nil tokens (Nat.le_refl _)]
        exact ensures_pure (.name isTyped isWord)
      next => exact ensures_violationAt ..
    next =>
      refine (typeAt_ensures size).bind ?_
      intro answer held
      rcases answer with ⟨type, next, le_next⟩
      rcases held with ⟨next_le, isType, -⟩
      dsimp only at next_le isType ⊢
      split
      next inside =>
        refine (ensures_tokenAt (by omega)).bind fun name namePresent => ?_
        split
        next named =>
          simp only [Bool.and_eq_true, decide_eq_true_eq, beq_iff_eq] at named
          obtain ⟨rfl, isWord⟩ := named
          rw [← slice_append tokens le_next (Nat.le_succ next),
            slice_eq_cons namePresent (Nat.lt_succ_self next), slice_eq_nil tokens (Nat.le_refl _)]
          exact ensures_pure (.typed isType isWord)
        next => exact ensures_violationAt ..
      next => exact ensures_expected ..

theorem parameters_ensures {typed : Bool} {start : Nat} {items : List (Part low high)}
    (size : high ≤ tokens.size)
    (cuts : Cuts tokens Token.isComma high start (items.map Part.range)) :
    (parameters tokens typed items).Ensures tokens usage
      (ParametersText usage.depthLeft usage.chainLeft typed (slice tokens start high)) := by
  induction items generalizing start typed with
  | nil => cases cuts
  | cons part later inductionHypothesis =>
      have stop_le_high := part.stop_le_high
      rw [parameters]
      refine (parameter_ensures part.start_le_stop (by omega)).bind fun nodes here => ?_
      obtain ⟨begins, ⟨ends, none⟩ | ⟨inside, token, present, separates, laterCuts⟩⟩ := cuts.of_cons
      · obtain rfl := List.map_eq_nil_iff.mp none
        dsimp only [Part.range] at begins ends
        refine ensures_pure ?_
        rw [begins, ends] at here
        rw [List.append_nil]
        exact .last here
      · dsimp only [Part.range] at begins inside present laterCuts
        refine (inductionHypothesis laterCuts).bind fun others there => ?_
        rw [← begins, ← slice_append tokens part.start_le_stop stop_le_high,
          slice_eq_cons present inside]
        exact ensures_pure (.more here separates there)

theorem parameterList_ensures {opener : Nat} {anchor : Token} (size : high ≤ tokens.size)
    (present : tokens[opener]? = some anchor) :
    (parameterList tokens opener low high).Ensures tokens usage fun node =>
      ∃ nodes, node = .tagged .parameterList anchor nodes ∧
        ParameterListText usage.depthLeft usage.chainLeft (slice tokens low high) nodes := by
  apply ensures_tokenAt_bind present
  refine (ensures_lift (sound_parts size)).bind fun items cuts => ?_
  rcases cuts with ⟨empty, rfl⟩ | ⟨-, cuts⟩
  · rw [slice_eq_nil tokens empty]
    exact ensures_pure ⟨[], rfl, .none⟩
  · refine (parameters_ensures size cuts).bind fun nodes listed => ?_
    exact ensures_pure ⟨nodes, rfl, .some listed⟩

/-- What is read from the parts of a range that are not empty is a list of statements. -/
theorem statementsText_of_cuts {depth chain start : Nat} {ranges : List (Nat × Nat)}
    {nodes : List Node} (cuts : Cuts tokens Token.separatesStatements high start ranges)
    (statements : List.Forall₂ (fun range node =>
      SimpleText depth chain (slice tokens range.1 range.2) node)
      (ranges.filter fun range => range.1 != range.2) nodes) :
    StatementsText depth chain (slice tokens start high) nodes := by
  induction cuts generalizing nodes with
  | @last start ordered =>
      by_cases empty : start = high
      · rw [List.filter_cons_of_neg (by simp [empty])] at statements
        cases statements
        rw [slice_eq_nil tokens (Nat.le_of_eq empty.symm)]
        exact .none
      · rw [List.filter_cons_of_pos (by simp [empty])] at statements
        obtain _ | ⟨simple, none⟩ := statements
        cases none
        exact .last simple
  | @more start stop token ranges ordered inside present separates _ inductionHypothesis =>
      by_cases empty : start = stop
      · rw [List.filter_cons_of_neg (by simp [empty])] at statements
        rw [empty, slice_eq_cons present inside]
        exact .missing separates (inductionHypothesis statements)
      · rw [List.filter_cons_of_pos (by simp [empty])] at statements
        obtain _ | ⟨simple, later⟩ := statements
        rw [← slice_append tokens ordered (Nat.le_of_lt inside), slice_eq_cons present inside]
        exact .more simple separates (inductionHypothesis later)

theorem statementList_ensures {opener : Nat} {anchor : Token} (size : high ≤ tokens.size)
    (present : tokens[opener]? = some anchor) :
    (statementList tokens opener low high).Ensures tokens usage fun node =>
      ∃ nodes, node = .tagged .statementList anchor nodes ∧
        StatementsText usage.depthLeft usage.chainLeft (slice tokens low high) nodes := by
  apply ensures_tokenAt_bind present
  refine (ensures_lift (sound_parts size)).bind fun items cuts => ?_
  have each (part : Part low high)
      (member : part ∈ items.filter fun part => part.start != part.stop) :
      (simpleStatement tokens part.start part.stop).Ensures tokens usage
        (SimpleText usage.depthLeft usage.chainLeft (slice tokens part.start part.stop)) := by
    have nonempty : part.start ≠ part.stop := by
      simpa using (List.mem_filter.mp member).2
    have := part.start_le_stop
    have := part.stop_le_high
    exact simpleStatement_ensures (by omega) (by omega)
  refine (ensures_mapM _ each).bind fun nodes statements => ?_
  refine ensures_pure ⟨nodes, rfl, ?_⟩
  rcases cuts with ⟨empty, rfl⟩ | ⟨-, cuts⟩
  · cases statements
    rw [slice_eq_nil tokens empty]
    exact .none
  · refine statementsText_of_cuts cuts ?_
    rw [List.filter_map]
    exact List.forall₂_map_left_iff.mpr statements

/-! ### Statements of keywords -/

theorem sound_endOfStatement {index : Nat} (size : high ≤ tokens.size) :
    Sound tokens (endOfStatement tokens index high) fun _ => high ≤ index := by
  unfold endOfStatement
  split
  next inside =>
    refine (Sound.tokenAt (by omega)).bind fun token _ => ?_
    split
    · exact Sound.violationAt ..
    · exact Sound.violationAt ..
  next ended => exact Sound.ok (Nat.not_lt.mp ended)

theorem sound_nameAt {index : Nat} {expectation : Expectation} (size : high ≤ tokens.size) :
    Sound tokens (nameAt tokens index high expectation) fun node =>
      index < high ∧ ∃ name, tokens[index]? = some name ∧ name.tokenClass = .userWord ∧
        node = .leaf .identifier name := by
  unfold nameAt
  split
  next inside =>
    refine (Sound.tokenAt (by omega)).bind fun name present => ?_
    split
    next isWord => exact Sound.ok ⟨inside, name, present, by simpa using isWord, rfl⟩
    next => exact Sound.expected ..
  next => exact Sound.expected ..

theorem sound_opensAt {bracket : Bracket} {index : Nat} (size : high ≤ tokens.size) :
    Sound tokens (opensAt tokens bracket index high) fun found =>
      found = true → index < high ∧ ∃ opener, tokens[index]? = some opener ∧
        opener.opens? = some bracket := by
  unfold opensAt
  split
  next inside =>
    refine (Sound.tokenAt (by omega)).bind fun opener present => ?_
    exact Sound.ok fun opens => ⟨inside, opener, present, by simpa using opens⟩
  next => exact Sound.ok (by simp)

/-- A list in curly brackets that ends its statement, as the members of a struct and the values of
an enum do, fills the range from its bracket on. -/
theorem curlyList_ensures {brace : Nat} {kind listKind : NodeKind} {keyword : Token}
    {nodes : List Node} {expectation : Expectation} {listing : Nat → Nat → Nat → Reading Node}
    {Listed : List Token → List Node → Prop} (size : high ≤ tokens.size)
    (listed : ∀ close opener, close ≤ tokens.size → tokens[brace]? = some opener →
      (listing brace (brace + 1) close).Ensures tokens usage fun node =>
        ∃ children, node = .tagged listKind opener children ∧
          Listed (slice tokens (brace + 1) close) children) :
    (do
      if ← opensAt tokens .curly brace high then
        let ⟨close, _⟩ ← closing tokens brace high
        let list ← listing brace (brace + 1) close
        endOfStatement tokens (close + 1) high
        return ⟨kind, keyword, nodes ++ [list]⟩
      else
        throw (.expected tokens brace expectation) : Reading Node).Ensures tokens usage fun node =>
      ∃ opener closer text children,
        node = ⟨kind, keyword, nodes ++ [.tagged listKind opener children]⟩ ∧
        slice tokens brace high = opener :: (text ++ [closer]) ∧
        opener.opens? = some .curly ∧ closer.closes? = some .curly ∧ Listed text children := by
  refine (ensures_lift (sound_opensAt size)).bind fun found opened => ?_
  split
  next isTrue =>
    obtain ⟨inside, opener, present, opens⟩ := opened isTrue
    apply ensures_closing_bind present opens
    intro close brace_lt_close close_lt_high closer closerPresent closes
    dsimp only
    refine (listed close opener (by omega) present).bind ?_
    intro _ held
    rcases held with ⟨children, rfl, holds⟩
    refine (ensures_lift (sound_endOfStatement size)).bind fun _ ends => ?_
    refine ensures_pure ⟨opener, closer, _, children, rfl, ?_, opens, closes, holds⟩
    rw [slice_eq_pair present brace_lt_close closerPresent close_lt_high, slice_eq_nil tokens ends]
  next => exact ensures_expected ..

/-- A struct from its keyword on; what comes before the keyword are its modifiers. -/
theorem structFrom_ensures {index : Nat} {keyword : Token} {nodes : List Node}
    {modifiers : List Token} (size : high ≤ tokens.size) (inside : index < high)
    (present : tokens[index]? = some keyword) (isStruct : keyword.isKeyword .structWord = true)
    (modified : modifiers = [] ∨ ∃ raw, raw.isKeyword .rawWord = true ∧ modifiers = [raw])
    (leaves : nodes = modifiers.map (.leaf .keyword)) :
    (structFrom tokens nodes index high).Ensures tokens usage
      (KeywordText usage.depthLeft usage.chainLeft (modifiers ++ slice tokens index high)) := by
  subst leaves
  unfold structFrom
  apply ensures_tokenAt_bind present
  refine (ensures_lift (sound_nameAt size)).bind ?_
  intro _ held
  rcases held with ⟨nameInside, name, namePresent, isWord, rfl⟩
  rw [slice_eq_cons present inside, slice_eq_cons namePresent nameInside]
  refine (ensures_lift (sound_opensAt size)).bind fun found opened => ?_
  split
  next isTrue =>
    obtain ⟨superInside, superOpener, superPresent, superOpens⟩ := opened isTrue
    apply ensures_closing_bind superPresent superOpens
    intro close lt_close close_lt_high superCloser closerPresent superCloses
    dsimp only
    refine (valueList_ensures (by omega) superPresent).bind ?_
    intro _ held
    rcases held with ⟨superTypes, rfl, values⟩
    rw [pure_bind]
    refine (curlyList_ensures size fun _ _ => parameterList_ensures).mono ?_
    intro _ held
    rcases held with ⟨opener, closer, text, members, rfl, braceText, opens, closes, listed⟩
    rw [slice_eq_pair superPresent lt_close closerPresent close_lt_high, braceText]
    have supers := SuperTypesText.listed superOpens values superCloses
    simpa using KeywordText.struct modified isStruct isWord supers opens listed closes
  next =>
    rw [pure_bind]
    refine (curlyList_ensures size fun _ _ => parameterList_ensures).mono ?_
    intro _ held
    rcases held with ⟨opener, closer, text, members, rfl, braceText, opens, closes, listed⟩
    rw [braceText]
    exact .struct modified isStruct isWord .none opens listed closes

theorem rawStruct_ensures {raw : Token} (size : high ≤ tokens.size)
    (present : tokens[low]? = some raw) (isRaw : raw.isKeyword .rawWord = true) :
    (rawStruct tokens low high).Ensures tokens usage
      (KeywordText usage.depthLeft usage.chainLeft (slice tokens low high)) := by
  unfold rawStruct
  apply ensures_tokenAt_bind present
  split
  next inside =>
    refine (ensures_tokenAt (by omega)).bind fun second secondPresent => ?_
    split
    next isStruct =>
      rw [slice_eq_cons present (by omega), ← List.singleton_append]
      exact structFrom_ensures size inside secondPresent isStruct (.inr ⟨raw, isRaw, rfl⟩) rfl
    next => exact ensures_violationAt ..
  next => exact ensures_violationAt ..

theorem enumStatement_ensures {keyword : Token} (size : high ≤ tokens.size) (inside : low < high)
    (present : tokens[low]? = some keyword) (isEnum : keyword.isKeyword .enumWord = true) :
    (enumStatement tokens low high).Ensures tokens usage
      (KeywordText usage.depthLeft usage.chainLeft (slice tokens low high)) := by
  unfold enumStatement
  apply ensures_tokenAt_bind present
  refine (ensures_lift (sound_nameAt size)).bind ?_
  intro _ held
  rcases held with ⟨nameInside, name, namePresent, isWord, rfl⟩
  rw [slice_eq_cons present inside, slice_eq_cons namePresent nameInside]
  refine (ensures_lift (sound_opensAt size)).bind fun found opened => ?_
  split
  next isTrue =>
    obtain ⟨baseInside, baseOpener, basePresent, baseOpens⟩ := opened isTrue
    apply ensures_closing_bind basePresent baseOpens
    intro close lt_close close_lt_high baseCloser closerPresent baseCloses
    dsimp only
    refine (typeAt_ensures (by omega)).bind ?_
    intro answer held
    rcases answer with ⟨type, next, le_next⟩
    rcases held with ⟨next_le, typed, -⟩
    dsimp only at next_le typed ⊢
    split
    next reached =>
      subst reached
      rw [pure_bind]
      refine (curlyList_ensures size fun _ _ => valueList_ensures).mono ?_
      intro _ held
      rcases held with ⟨opener, closer, text, values, rfl, braceText, opens, closes, listed⟩
      rw [slice_eq_pair basePresent lt_close closerPresent close_lt_high, braceText]
      simpa using KeywordText.enum isEnum isWord (.type baseOpens typed baseCloses) opens listed
        closes
    next => exact ensures_violationAt ..
  next =>
    rw [pure_bind]
    refine (curlyList_ensures size fun _ _ => valueList_ensures).mono ?_
    intro _ held
    rcases held with ⟨opener, closer, text, values, rfl, braceText, opens, closes, listed⟩
    rw [braceText]
    exact .enum isEnum isWord .none opens listed closes

theorem labelStatement_ensures {keyword : Token} {word : Keyword} {kind : NodeKind}
    (size : high ≤ tokens.size) (inside : low < high) (present : tokens[low]? = some keyword)
    (isKeyword : keyword.isKeyword word = true) (names : word.namingKind? = some kind) :
    (labelStatement tokens kind low high).Ensures tokens usage
      (KeywordText usage.depthLeft usage.chainLeft (slice tokens low high)) := by
  unfold labelStatement
  apply ensures_tokenAt_bind present
  refine (ensures_lift (sound_nameAt size)).bind ?_
  intro _ held
  rcases held with ⟨nameInside, name, namePresent, isWord, rfl⟩
  refine (ensures_lift (sound_endOfStatement size)).bind fun _ ends => ?_
  rw [slice_eq_cons present inside, slice_eq_cons namePresent nameInside, slice_eq_nil tokens ends]
  exact ensures_pure (.naming isKeyword names isWord)

theorem loopStatement_ensures {keyword : Token} {word : Keyword} {kind : NodeKind}
    (size : high ≤ tokens.size) (inside : low < high) (present : tokens[low]? = some keyword)
    (isKeyword : keyword.isKeyword word = true) (loops : word.loopingKind? = some kind) :
    (loopStatement tokens kind low high).Ensures tokens usage
      (KeywordText usage.depthLeft usage.chainLeft (slice tokens low high)) := by
  unfold loopStatement
  apply ensures_tokenAt_bind present
  rw [slice_eq_cons present inside]
  split
  next countInside =>
    refine (ensures_tokenAt (by omega)).bind fun count countPresent => ?_
    split
    next digits =>
      simp only [Bool.and_eq_true, beq_iff_eq] at digits
      refine (ensures_lift (sound_endOfStatement size)).bind fun _ ends => ?_
      rw [slice_eq_cons countPresent countInside, slice_eq_nil tokens ends]
      exact ensures_pure (.loopingTimes isKeyword loops digits.1 digits.2)
    next => exact ensures_expected ..
  next ended =>
    rw [slice_eq_nil tokens (Nat.not_lt.mp ended)]
    exact ensures_pure (.looping isKeyword loops)

theorem returnStatement_ensures {keyword : Token} (size : high ≤ tokens.size)
    (inside : low < high) (present : tokens[low]? = some keyword)
    (isReturn : keyword.isKeyword .returnWord = true) :
    (returnStatement tokens low high).Ensures tokens usage
      (KeywordText usage.depthLeft usage.chainLeft (slice tokens low high)) := by
  unfold returnStatement
  apply ensures_tokenAt_bind present
  rw [slice_eq_cons present inside]
  split
  next =>
    apply (value_ensures size).bind
    intro node held
    rcases held with ⟨order, valued⟩
    exact ensures_pure (.returningValue isReturn valued)
  next ended =>
    rw [slice_eq_nil tokens (Nat.not_lt.mp ended)]
    exact ensures_pure (.returning isReturn)

theorem memoryStatement_ensures {keyword : Token} {word : Keyword} {kind : NodeKind}
    (size : high ≤ tokens.size) (inside : low < high) (present : tokens[low]? = some keyword)
    (isKeyword : keyword.isKeyword word = true) (isMemory : word.memoryKind? = some kind) :
    (memoryStatement tokens kind low high).Ensures tokens usage
      (KeywordText usage.depthLeft usage.chainLeft (slice tokens low high)) := by
  unfold memoryStatement
  split
  next nonempty =>
    have anchorPresent := Array.getElem?_eq_getElem (show low + 1 < tokens.size by omega)
    generalize tokens[low + 1] = anchor at anchorPresent
    apply (valueList_ensures size anchorPresent).bind
    intro _ held
    rcases held with ⟨nodes, rfl, listed⟩
    apply ensures_tokenAt_bind present
    have begins := head?_slice anchorPresent nonempty
    rw [slice_eq_cons present inside]
    cases nodes with
    | nil =>
        generalize slice tokens (low + 1) high = text at listed begins
        cases listed
        cases begins
    | cons node nodes => exact ensures_pure (.memory isKeyword isMemory listed begins)
  next => exact ensures_expected ..

theorem sound_quotedTexts {index : Nat} (size : high ≤ tokens.size) :
    Sound tokens (quotedTexts tokens index high) fun nodes =>
      nodes = (slice tokens index high).map (.leaf .literal) ∧
        ∀ text ∈ slice tokens index high, text.isQuotedText = true := by
  rw [quotedTexts]
  split
  next inside =>
    refine (Sound.tokenAt (by omega)).bind fun token present => ?_
    split
    next isQuoted =>
      refine (sound_quotedTexts size).bind ?_
      intro later held
      rcases held with ⟨rfl, quoted⟩
      rw [slice_eq_cons present inside]
      exact Sound.ok ⟨rfl, List.forall_mem_cons.mpr ⟨isQuoted, quoted⟩⟩
    next => exact Sound.expected ..
  next ended =>
    rw [slice_eq_nil tokens (Nat.not_lt.mp ended)]
    exact Sound.ok ⟨rfl, by simp⟩
termination_by high - index

theorem asmStatement_ensures {keyword : Token} (size : high ≤ tokens.size) (inside : low < high)
    (present : tokens[low]? = some keyword) (isAsm : keyword.isKeyword .asmWord = true) :
    (asmStatement tokens low high).Ensures tokens usage
      (KeywordText usage.depthLeft usage.chainLeft (slice tokens low high)) := by
  unfold asmStatement
  apply ensures_tokenAt_bind present
  apply (ensures_lift (sound_quotedTexts size)).bind
  intro _ held
  rcases held with ⟨rfl, quoted⟩
  split
  next => exact ensures_expected ..
  next nonempty =>
    rw [slice_eq_cons present inside]
    exact ensures_pure (.asm isAsm quoted (by simpa using nonempty))

theorem keywordStatement_ensures {first : Token} (size : high ≤ tokens.size) (inside : low < high)
    (present : tokens[low]? = some first) (isKeyword : first.tokenClass = .keyword) :
    (keywordStatement tokens first.keyword? low high).Ensures tokens usage
      (KeywordText usage.depthLeft usage.chainLeft (slice tokens low high)) := by
  have isWord {word : Keyword} (found : first.keyword? = some word) :=
    Token.isKeyword_of_keyword? isKeyword found
  unfold keywordStatement
  split
  next found => exact structFrom_ensures size inside present (isWord found) (.inl rfl) rfl
  next found => exact rawStruct_ensures size present (isWord found)
  next found => exact enumStatement_ensures size inside present (isWord found)
  next found => exact labelStatement_ensures size inside present (isWord found) rfl
  next found => exact labelStatement_ensures size inside present (isWord found) rfl
  next found => exact loopStatement_ensures size inside present (isWord found) rfl
  next found => exact loopStatement_ensures size inside present (isWord found) rfl
  next found => exact returnStatement_ensures size inside present (isWord found)
  next found => exact memoryStatement_ensures size inside present (isWord found) rfl
  next found => exact memoryStatement_ensures size inside present (isWord found) rfl
  next found => exact memoryStatement_ensures size inside present (isWord found) rfl
  next found => exact memoryStatement_ensures size inside present (isWord found) rfl
  next found => exact asmStatement_ensures size inside present (isWord found)
  next => exact ensures_violationAt ..

/-- What is read from a range as a statement is a statement that spans the range. -/
theorem statement_ensures (size : high ≤ tokens.size) (inside : low < high) :
    (statement tokens low high).Ensures tokens usage
      (StatementText usage.depthLeft usage.chainLeft (slice tokens low high)) := by
  refine (ensures_tokenAt (by omega)).bind fun first present => ?_
  split
  next isKeyword =>
    simp only [Bool.and_eq_true, beq_iff_eq] at isKeyword
    exact (keywordStatement_ensures size inside present isKeyword.1).mono fun _ => .keyword
  next => exact (simpleStatement_ensures size inside).mono fun _ => .simple

end TnslReader
