import TnslReader.Proofs.StatementLikeness
import TnslReader.Grammar.Section

/-!
Contract: readings with a cursor, side by side.

Headers, directives, sections and items are read up to the end of the stream, so two readings of
them are alike if the window has all that the streams hold from its beginning on. The second stream
may hold more, if it goes on with a token that ends statements. Then every scan stops at that token
where it stopped for want of tokens in the first stream, and nothing is claimed where the first
reading fails.

Each theorem carries along how the first run has come to the part that is read, since it rests on
the definitions and bare values that the run comes to from there.

Owns: likeness of the readings of headers, directives, sections and items.
-/

set_option autoImplicit false

namespace TnslReader

namespace Likeness

variable {first second : Array Token} {likeness : Likeness first second}

/-- The window begins where the second stream does and ends where the first does. There the second
stream ends too, or a token follows before which statements end, and then every error is excused. -/
structure ReachesEnd (likeness : Likeness first second) : Prop where
  low_eq : likeness.low = 0
  size_eq : first.size = likeness.offset + likeness.high
  high_le : likeness.high ≤ second.size
  behind : second.size = likeness.high ∨ (∀ error, likeness.excused error) ∧
    ∃ token, second[likeness.high]? = some token ∧ token.endsStatement = true

def EndsAt (likeness : Likeness first second) (index : Nat) : Prop :=
  second.size ≤ index ∨ (∀ error, likeness.excused error) ∧
    ∃ token, second[index]? = some token ∧ token.endsStatement = true

/-- Corresponding indexes hold the same token, or the first stream ends there. -/
theorem ReachesEnd.token_or_end {start index : Nat} (reaches : likeness.ReachesEnd)
    (maps : likeness.Maps start index) :
    (index < likeness.high ∧ start < first.size ∧ index < second.size ∧
      ∃ token, first[start]? = some token ∧ second[index]? = some token) ∨
    index = likeness.high ∧ start = first.size ∧ first[start]? = none ∧ likeness.EndsAt index := by
  obtain ⟨low_eq, size_eq, high_le, behind⟩ := reaches
  rcases Nat.lt_or_eq_of_le maps.2.2 with inside | atEnd
  · exact .inl ⟨inside, by omega, by omega, exists_token maps inside⟩
  · refine .inr ⟨atEnd, by omega, Array.getElem?_eq_none (by omega), ?_⟩
    rcases behind with ended | continued
    · exact .inl (by omega)
    · exact .inr (atEnd ▸ continued)

theorem ReachesEnd.maps_size (reaches : likeness.ReachesEnd) :
    likeness.Maps first.size likeness.high := by
  have := reaches.low_eq
  exact ⟨reaches.size_eq, by omega, Nat.le_refl _⟩

theorem alike_throw_excused {α β : Type} {error : ParseError} {other : Reading β}
    {related : α → β → Prop} (excused : ∀ error, likeness.excused error) :
    likeness.Alike (throw error) other related :=
  fun _ _ _ => ⟨rfl, .inl (excused error)⟩

theorem agree_error_excused {α β : Type} {error : ParseError} {other : Except ParseError β}
    {related : α → β → Prop} (excused : ∀ error, likeness.excused error) :
    likeness.Agree (.error error) other related :=
  .inl (excused error)

/-- What is read within the streams is alike if what is read inside the window is. -/
theorem alikeFrom_inside {start index : Nat} {α β : Type} {related : α → β → Prop}
    {expectation : Expectation} {usage otherUsage : Usage}
    {reading : start < first.size → Reading α} {other : index < second.size → Reading β}
    (reaches : likeness.ReachesEnd) (maps : likeness.Maps start index)
    (pairs : likeness.Pairs usage otherUsage)
    (here : ∀ (inside : start < first.size) (otherInside : index < second.size),
      index < likeness.high → second[index] = first[start] →
        likeness.AlikeFrom usage otherUsage (reading inside) (other otherInside) related) :
    likeness.AlikeFrom usage otherUsage
      (if inside : start < first.size then reading inside
        else throw (.expected first start expectation))
      (if inside : index < second.size then other inside
        else throw (.expected second index expectation)) related := by
  rcases reaches.token_or_end maps with
    ⟨inside, firstInside, secondInside, token, firstPresent, secondPresent⟩ |
    ⟨-, rfl, -, ended | ⟨excused, -⟩⟩
  · rw [dif_pos firstInside, dif_pos secondInside]
    obtain ⟨_, rfl⟩ := Array.getElem?_eq_some_iff.mp firstPresent
    exact here _ _ inside (Array.getElem?_eq_some_iff.mp secondPresent).2
  · rw [dif_neg (Nat.lt_irrefl _), dif_neg (Nat.not_lt.mpr ended)]
    exact alike_expected _ maps usage otherUsage pairs
  · rw [dif_neg (Nat.lt_irrefl _)]
    exact alike_throw_excused excused usage otherUsage pairs

/-- What is scanned within the streams agrees if what is scanned inside the window does. -/
theorem agree_inside {start index : Nat} {α β : Type} {related : α → β → Prop}
    {expectation : Expectation}
    {answer : start < first.size → Except ParseError α}
    {other : index < second.size → Except ParseError β}
    (reaches : likeness.ReachesEnd) (maps : likeness.Maps start index)
    (here : ∀ (inside : start < first.size) (otherInside : index < second.size),
      index < likeness.high → second[index] = first[start] →
        likeness.Agree (answer inside) (other otherInside) related) :
    likeness.Agree
      (if inside : start < first.size then answer inside
        else .error (.expected first start expectation))
      (if inside : index < second.size then other inside
        else .error (.expected second index expectation)) related := by
  rcases reaches.token_or_end maps with
    ⟨inside, firstInside, secondInside, token, firstPresent, secondPresent⟩ |
    ⟨-, rfl, -, ended | ⟨excused, -⟩⟩
  · rw [dif_pos firstInside, dif_pos secondInside]
    obtain ⟨_, rfl⟩ := Array.getElem?_eq_some_iff.mp firstPresent
    exact here _ _ inside (Array.getElem?_eq_some_iff.mp secondPresent).2
  · rw [dif_neg (Nat.lt_irrefl _), dif_neg (Nat.not_lt.mpr ended)]
    exact agree_expected _ maps
  · rw [dif_neg (Nat.lt_irrefl _)]
    exact agree_error_excused excused

/-! ### Scans up to the end -/

/-- A pair that ends before a limit ends there for any higher limit. -/
theorem closingFrom_mono {tokens : Array Token} {opener limit higher index : Nat}
    {bracket : Bracket} {outer : List Bracket} {behind : opener < index}
    {close : { close : Nat // opener < close ∧ close < limit }} (le_higher : limit ≤ higher)
    (found : closingFrom tokens opener limit bracket outer index behind = .ok close) :
    closingFrom tokens opener higher bracket outer index behind =
      .ok ⟨close.val, close.property.1, Nat.lt_of_lt_of_le close.property.2 le_higher⟩ := by
  fun_induction closingFrom tokens opener limit bracket outer index behind with
  | case1 => cases found
  | case2 _ _ _ _ inside token present inner opens inductionHypothesis =>
      rw [closingFrom, dif_pos (Nat.lt_of_lt_of_le inside le_higher)]
      simp only [present, opens]
      exact inductionHypothesis found
  | case3 _ _ _ _ inside token present opens closes inductionHypothesis =>
      rw [closingFrom, dif_pos (Nat.lt_of_lt_of_le inside le_higher)]
      simp only [present, opens, closes]
      exact inductionHypothesis found
  | case4 _ _ inside token present opens closed closes =>
      rw [closingFrom, dif_pos (Nat.lt_of_lt_of_le inside le_higher)]
      simp only [present, opens, closes, ↓reduceIte]
      cases found
      rfl
  | case5 _ _ inside token present opens closed closes next rest inductionHypothesis =>
      rw [closingFrom, dif_pos (Nat.lt_of_lt_of_le inside le_higher)]
      simp only [present, opens, closes, ↓reduceIte]
      exact inductionHypothesis found
  | case6 => cases found
  | case7 => cases found

/-- A pair of the window ends at corresponding indexes, however far the streams reach. -/
theorem agree_closing_size {start index : Nat} {token : Token} {bracket : Bracket}
    (reaches : likeness.ReachesEnd) (maps : likeness.Maps start index)
    (inside : index < likeness.high)
    (firstPresent : first[start]? = some token) (secondPresent : second[index]? = some token)
    (opens : token.opens? = some bracket) :
    likeness.Agree (closing first start first.size) (closing second index second.size)
      fun close otherClose => likeness.Maps close.val otherClose.val ∧
        otherClose.val < likeness.high := by
  have agree := agree_closing maps reaches.maps_size inside firstPresent secondPresent opens
  have low_eq := reaches.low_eq
  have size_eq := reaches.size_eq
  have high_le := reaches.high_le
  simp only [closing, firstPresent, secondPresent, Option.bind_some, opens] at agree ⊢
  cases found : closingFrom first start first.size bracket [] (start + 1) _ with
  | ok close =>
      rw [found] at agree
      obtain ⟨otherClose, otherFound, same⟩ := agree
      rw [closingFrom_mono high_le otherFound]
      have := otherClose.property
      exact agree_ok ⟨by dsimp only; omega, this.2⟩
  | error error =>
      rw [found] at agree
      rcases reaches.behind with ended | ⟨excused, -⟩
      · rw [ended]
        exact agree
      · exact .inl (excused error)

/-- To look for the end of a pair of the window is to go on behind it in both streams. -/
theorem alikeFrom_closing_size_bind {start index : Nat} {α β : Type} {related : α → β → Prop}
    {next : { close : Nat // start < close ∧ close < first.size } → Reading α}
    {otherNext : { close : Nat // index < close ∧ close < second.size } → Reading β}
    {token : Token} {bracket : Bracket} {usage otherUsage : Usage} (reaches : likeness.ReachesEnd)
    (maps : likeness.Maps start index) (inside : index < likeness.high)
    (firstPresent : first[start]? = some token) (secondPresent : second[index]? = some token)
    (opens : token.opens? = some bracket)
    (later : ∀ close otherClose, likeness.Maps close otherClose → otherClose < likeness.high →
      ∀ (start_lt_close : start < close) (close_lt_size : close < first.size)
        (index_lt_close : index < otherClose) (otherClose_lt_size : otherClose < second.size),
        closing first start first.size = .ok ⟨close, start_lt_close, close_lt_size⟩ →
        likeness.AlikeFrom usage otherUsage (next ⟨close, start_lt_close, close_lt_size⟩)
          (otherNext ⟨otherClose, index_lt_close, otherClose_lt_size⟩) related) :
    likeness.AlikeFrom usage otherUsage (liftM (closing first start first.size) >>= next)
      (liftM (closing second index second.size) >>= otherNext) related := by
  have agree := agree_closing_size reaches maps inside firstPresent secondPresent opens
  refine alikeFrom_lift_bind agree ?_
  rintro ⟨close, start_lt_close, close_lt_size⟩ ⟨otherClose, index_lt_close, otherClose_lt_size⟩
    closes ⟨behinds, otherClose_lt_high⟩
  exact later close otherClose behinds otherClose_lt_high start_lt_close close_lt_size
    index_lt_close otherClose_lt_size closes

def MapsPending (likeness : Likeness first second) (pending other : Nat × Bracket) : Prop :=
  likeness.Maps pending.1 other.1 ∧ pending.2 = other.2

theorem agree_valueExtentFrom {start index : Nat} {pending otherPending : List (Nat × Bracket)}
    (reaches : likeness.ReachesEnd)
    (matched : List.Forall₂ likeness.MapsPending pending otherPending)
    (maps : likeness.Maps start index) :
    likeness.Agree (valueExtentFrom first first.size pending start)
      (valueExtentFrom second second.size otherPending index) likeness.Maps := by
  rw [valueExtentFrom.eq_def first, valueExtentFrom.eq_def second]
  rcases reaches.token_or_end maps with
    ⟨inside, firstInside, secondInside, token, firstPresent, secondPresent⟩ |
    ⟨rfl, rfl, -, ended⟩
  · have behind : likeness.Maps (start + 1) (index + 1) := by omega
    rw [dif_pos firstInside, dif_pos secondInside]
    refine agree_tokenAt_bind firstPresent secondPresent ?_
    refine agree_ite Iff.rfl (fun _ _ => ?_) (fun _ _ => ?_)
    · cases matched with
      | nil => exact agree_ok maps
      | cons here _ => exact agree_violationAt _ here.1
    have sameEmpty : pending.isEmpty = otherPending.isEmpty := by cases matched <;> rfl
    refine agree_ite (by rw [sameEmpty]) (fun _ _ => agree_ok maps) (fun _ _ => ?_)
    cases token.opens? with
    | some bracket => exact agree_valueExtentFrom reaches (.cons ⟨maps, rfl⟩ matched) behind
    | none =>
        cases token.closes? with
        | none => exact agree_valueExtentFrom reaches matched behind
        | some closed =>
            cases matched with
            | nil => exact agree_ok maps
            | cons here outer =>
                exact agree_ite (by rw [here.2])
                  (fun _ _ => agree_valueExtentFrom reaches outer behind) fun _ _ =>
                  agree_violationAt _ maps
  · rw [dif_neg (Nat.lt_irrefl _)]
    cases matched with
    | cons here _ =>
        rcases ended with ended | ⟨excused, -⟩
        · rw [dif_neg (Nat.not_lt.mpr ended)]
          exact agree_violationAt _ here.1
        · exact agree_error_excused excused
    | nil =>
        rcases ended with ended | ⟨-, token, present, ends⟩
        · have : second.size = likeness.high := Nat.le_antisymm ended reaches.high_le
          rw [dif_neg (Nat.not_lt.mpr ended), this]
          exact agree_ok maps
        · rw [dif_pos (Array.getElem?_eq_some_iff.mp present).1, Sound.tokenAt_eq_ok present]
          simp only [Sound.ok_bind, ends, ↓reduceIte]
          exact agree_ok maps
termination_by likeness.high - index

/-- A value of the window is followed by something else at corresponding indexes. -/
theorem agree_valueExtent {start index : Nat} (reaches : likeness.ReachesEnd)
    (maps : likeness.Maps start index) :
    likeness.Agree (valueExtent first start first.size) (valueExtent second index second.size)
      likeness.Maps := by
  rw [valueExtent, valueExtent, Nat.min_self, Nat.min_self]
  exact agree_valueExtentFrom reaches .nil maps

/-- A statement of the window ends at corresponding indexes. -/
theorem maps_statementEnd {start index : Nat} (reaches : likeness.ReachesEnd)
    (maps : likeness.Maps start index) :
    likeness.Maps (statementEnd first start) (statementEnd second index) := by
  rw [statementEnd.eq_def first, statementEnd.eq_def second]
  rcases reaches.token_or_end maps with
    ⟨inside, firstInside, secondInside, token, firstPresent, secondPresent⟩ |
    ⟨rfl, rfl, -, ended⟩
  · obtain ⟨_, rfl⟩ := Array.getElem?_eq_some_iff.mp firstPresent
    obtain ⟨_, same⟩ := Array.getElem?_eq_some_iff.mp secondPresent
    rw [dif_pos firstInside, dif_pos secondInside, same]
    split
    · exact maps
    · exact maps_statementEnd reaches (by omega)
  · rw [dif_neg (Nat.lt_irrefl _), Nat.max_self]
    rcases ended with ended | ⟨-, token, present, ends⟩
    · rw [dif_neg (Nat.not_lt.mpr ended), Nat.max_eq_left ended]
      exact maps
    · obtain ⟨secondInside, same⟩ := Array.getElem?_eq_some_iff.mp present
      rw [dif_pos secondInside, same, if_pos ends]
      exact maps
termination_by likeness.high - index

/-! ### Directives -/

theorem advances_arguments {start index : Nat} (reaches : likeness.ReachesEnd)
    (maps : likeness.Maps start index) :
    likeness.Advances (arguments first start) (arguments second index) := by
  rw [arguments.eq_def first, arguments.eq_def second]
  rcases reaches.token_or_end maps with
    ⟨inside, firstInside, secondInside, token, firstPresent, secondPresent⟩ |
    ⟨rfl, rfl, -, ended⟩
  · obtain ⟨_, rfl⟩ := Array.getElem?_eq_some_iff.mp firstPresent
    obtain ⟨_, same⟩ := Array.getElem?_eq_some_iff.mp secondPresent
    obtain ⟨sameLater, nexts⟩ := advances_arguments reaches
      (show likeness.Maps (start + 1) (index + 1) by omega)
    simp only [firstInside, secondInside, ↓reduceDIte, same]
    split
    · exact ⟨rfl, maps⟩
    · exact ⟨congrArg (_ :: ·) sameLater, nexts⟩
  · rw [dif_neg (Nat.lt_irrefl _)]
    rcases ended with ended | ⟨-, token, present, ends⟩
    · rw [dif_neg (Nat.not_lt.mpr ended)]
      exact ⟨rfl, maps⟩
    · obtain ⟨secondInside, same⟩ := Array.getElem?_eq_some_iff.mp present
      simp only [secondInside, ↓reduceDIte, same, ends, Bool.true_or, ↓reduceIte]
      exact ⟨rfl, maps⟩
termination_by likeness.high - index

/-- Where a token of a class is asked for, both streams have the same one, or both have to fail. -/
theorem tokenOfClass?_cases {start index : Nat} (tokenClass : TokenClass)
    (reaches : likeness.ReachesEnd) (maps : likeness.Maps start index) :
    (∃ token, tokenOfClass? first start tokenClass = some token ∧
      tokenOfClass? second index tokenClass = some token ∧ index < likeness.high) ∨
    tokenOfClass? first start tokenClass = none ∧
      (tokenOfClass? second index tokenClass = none ∨ ∀ error, likeness.excused error) := by
  rcases reaches.token_or_end maps with
    ⟨inside, -, -, token, firstPresent, secondPresent⟩ | ⟨rfl, rfl, absent, ended⟩
  · simp only [tokenOfClass?, firstPresent, secondPresent]
    cases (some token).filter (·.tokenClass == tokenClass) with
    | none => exact .inr ⟨rfl, .inl rfl⟩
    | some found => exact .inl ⟨found, rfl, rfl, inside⟩
  · refine .inr ⟨by simp [tokenOfClass?], ?_⟩
    rcases ended with ended | ⟨excused, -⟩
    · exact .inl (by simp [tokenOfClass?, Array.getElem?_eq_none ended])
    · exact .inr excused

theorem agree_directive {start index : Nat} (reaches : likeness.ReachesEnd)
    (maps : likeness.Maps start index) :
    likeness.Agree (directive first start) (directive second index) likeness.Advances := by
  unfold directive
  rcases tokenOfClass?_cases .directiveWord reaches maps with
    ⟨word, firstFound, secondFound, inside⟩ | ⟨absent, otherAbsent | excused⟩
  · simp only [firstFound, secondFound]
    obtain ⟨same, nexts⟩ := advances_arguments reaches
      (show likeness.Maps (start + 1) (index + 1) by omega)
    exact agree_ok ⟨by rw [same], nexts⟩
  · simp only [absent, otherAbsent]
    exact agree_expected _ maps
  · simp only [absent]
    exact agree_error_excused excused

theorem agree_directivesFrom {start index : Nat} (reaches : likeness.ReachesEnd)
    (maps : likeness.Maps start index) :
    likeness.Agree (directivesFrom first start) (directivesFrom second index)
      likeness.Advances := by
  rw [directivesFrom.eq_def first, directivesFrom.eq_def second]
  refine agree_inside reaches maps fun firstInside secondInside inside same => ?_
  rw [same]
  refine agree_ite Iff.rfl (fun _ _ => agree_ok ⟨rfl, maps⟩) (fun _ _ => ?_)
  refine agree_ite Iff.rfl (fun _ _ => ?_) (fun _ _ => ?_)
  · exact (agree_directivesFrom reaches (by omega)).bind_advance fun _ _ _ nexts _ _ =>
      agree_ok ⟨rfl, nexts⟩
  refine agree_ite Iff.rfl (fun _ _ => ?_) fun _ _ => agree_violationAt _ maps
  refine (agree_directive reaches maps).bind_advance fun node behind otherBehind behinds _ _ => ?_
  exact (agree_directivesFrom reaches behinds).bind_advance fun _ _ _ nexts _ _ =>
    agree_ok ⟨rfl, nexts⟩
termination_by likeness.high - index

theorem agree_preprocessorSection {anchor otherAnchor start index : Nat}
    (reaches : likeness.ReachesEnd) (anchors : likeness.Maps anchor otherAnchor)
    (inside : otherAnchor < likeness.high) (maps : likeness.Maps start index) :
    likeness.Agree (preprocessorSection first anchor start)
      (preprocessorSection second otherAnchor index) likeness.Advances := by
  obtain ⟨marker, firstPresent, secondPresent⟩ := exists_token anchors inside
  refine agree_tokenAt_bind firstPresent secondPresent ?_
  exact (agree_directivesFrom reaches maps).bind_advance fun _ _ _ nexts _ _ =>
    agree_ok ⟨rfl, nexts⟩

/-! ### Headers -/

variable {origin : FilePart × Usage} {usage otherUsage : Usage}

theorem headerList_alikeFrom {control : Bool} {bracket : Bracket}
    {opener otherOpener close otherClose : Nat} (simple : likeness.ReadsSimple origin)
    (openers : likeness.Maps opener otherOpener) (closes : likeness.Maps close otherClose)
    (inside : otherOpener < otherClose) (pairs : likeness.Pairs usage otherUsage)
    (reached : control = true →
      Reaches first origin (.statementList opener (opener + 1) close, usage)) :
    likeness.AlikeFrom usage otherUsage (headerList first control bracket opener close)
      (headerList second control bracket otherOpener otherClose) Eq := by
  have behind : likeness.Maps (opener + 1) (otherOpener + 1) := by omega
  unfold headerList
  refine alikeFrom_ite Iff.rfl (fun isControl _ => ?_) (fun _ _ => ?_)
  · exact statementList_alikeFrom simple openers behind closes (by omega) pairs (reached isControl)
  refine alikeFrom_ite Iff.rfl (fun _ _ => ?_) (fun _ _ => ?_)
  · exact parameterList_alike openers behind closes (by omega) usage otherUsage pairs
  · exact typeList_alike openers behind closes (by omega) usage otherUsage pairs

def SameChild (likeness : Likeness first second) {start index : Nat} (child : HeaderChild start)
    (other : HeaderChild index) : Prop :=
  child.node = other.node ∧ child.state = other.state ∧ likeness.Maps child.next other.next

/-- No token before which statements end is a keyword. -/
theorem isKeyword_eq_false_of_endsStatement {token : Token} {keyword : Keyword}
    (ends : token.endsStatement = true) : token.isKeyword keyword = false := by
  simp only [Token.endsStatement, Token.isBlockMarker, Token.marker?, Bool.or_eq_true,
    beq_iff_eq] at ends
  cases classified : token.tokenClass <;> simp_all [Token.isKeyword]

/-- What needs a token of a class agrees if it does with every such token. -/
theorem agree_tokenOfClass {start index : Nat} {α β : Type} {related : α → β → Prop}
    {tokenClass : TokenClass} {expectation : Expectation} {answer : Token → Except ParseError α}
    {other : Token → Except ParseError β} (reaches : likeness.ReachesEnd)
    (maps : likeness.Maps start index)
    (here : ∀ token, index < likeness.high → likeness.Agree (answer token) (other token) related) :
    likeness.Agree
      (match tokenOfClass? first start tokenClass with
        | some token => answer token
        | none => .error (.expected first start expectation))
      (match tokenOfClass? second index tokenClass with
        | some token => other token
        | none => .error (.expected second index expectation)) related := by
  rcases tokenOfClass?_cases tokenClass reaches maps with
    ⟨token, firstFound, secondFound, inside⟩ | ⟨absent, otherAbsent | excused⟩
  · simpa only [firstFound, secondFound] using here token inside
  · simpa only [absent, otherAbsent] using agree_expected _ maps
  · simpa only [absent] using agree_error_excused excused

/-- The same keyword comes next in both streams, or none does. -/
theorem any_isKeyword_eq {start index : Nat} (keyword : Keyword) (reaches : likeness.ReachesEnd)
    (maps : likeness.Maps start index) :
    first[start]?.any (·.isKeyword keyword) = second[index]?.any (·.isKeyword keyword) := by
  rcases reaches.token_or_end maps with
    ⟨-, -, -, token, firstPresent, secondPresent⟩ |
      ⟨-, -, absent, ended | ⟨-, token, present, ends⟩⟩
  · rw [firstPresent, secondPresent]
  · rw [absent, Array.getElem?_eq_none ended]
  · rw [absent, present, Option.any_some, isKeyword_eq_false_of_endsStatement ends]
    rfl

/-- A keyword that comes next in the first stream is a token of the window. -/
theorem lt_high_of_any_isKeyword {start index : Nat} {keyword : Keyword}
    (reaches : likeness.ReachesEnd) (maps : likeness.Maps start index)
    (isNext : first[start]?.any (·.isKeyword keyword) = true) : index < likeness.high := by
  rcases reaches.token_or_end maps with ⟨inside, -⟩ | ⟨-, -, absent, -⟩
  · exact inside
  · simp [absent] at isNext

theorem agree_headerKeyword {start index : Nat} {state : HeaderState} {token : Token}
    (reaches : likeness.ReachesEnd) (maps : likeness.Maps start index)
    (inside : index < likeness.high) :
    likeness.Agree (headerKeyword first state token start)
      (headerKeyword second state token index) likeness.SameChild := by
  have behind : likeness.Maps (start + 1) (index + 1) := by omega
  unfold headerKeyword
  cases token.keyword? with
  | none =>
      exact agree_ite Iff.rfl (fun _ _ => agree_violationAt _ maps) fun _ _ =>
        agree_violationAt _ maps
  | some keyword =>
      refine agree_ite Iff.rfl (fun _ _ => agree_ok ⟨rfl, rfl, behind⟩) (fun _ _ => ?_)
      refine agree_ite Iff.rfl (fun _ _ => agree_violationAt _ maps) (fun _ _ => ?_)
      refine agree_ite (by rw [any_isKeyword_eq .ifWord reaches behind]) (fun isElseIf _ => ?_)
        (fun _ _ => ?_)
      · simp only [Bool.and_eq_true] at isElseIf
        have := lt_high_of_any_isKeyword reaches behind isElseIf.2
        exact agree_ok ⟨rfl, rfl, by dsimp only; omega⟩
      refine agree_ite Iff.rfl (fun _ _ => agree_ok ⟨rfl, rfl, behind⟩) (fun _ _ => ?_)
      refine agree_ite Iff.rfl (fun _ _ => ?_) (fun _ _ => ?_)
      · exact agree_tokenOfClass reaches behind fun _ _ =>
          agree_ok ⟨rfl, rfl, by dsimp only; omega⟩
      refine agree_ite Iff.rfl (fun _ _ => ?_) fun _ _ => agree_violationAt _ maps
      exact agree_tokenOfClass reaches behind fun _ _ =>
        agree_ok ⟨rfl, rfl, by dsimp only; omega⟩

mutual

theorem headerFrom_alikeFrom {first second : Array Token} {likeness : Likeness first second}
    {origin : FilePart × Usage} {usage otherUsage : Usage} {start index : Nat}
    {state : HeaderState} (simple : likeness.ReadsSimple origin) (reaches : likeness.ReachesEnd)
    (maps : likeness.Maps start index) (pairs : likeness.Pairs usage otherUsage)
    (reached : Reaches first origin (.header state start, usage)) :
    likeness.AlikeFrom usage otherUsage (headerFrom first state start)
      (headerFrom second state index) likeness.Advances := by
  -- The match on the token at hand comes with a proof, so each side is opened by itself.
  have firstText := headerFrom.eq_def first state start
  have secondText := headerFrom.eq_def second state index
  rcases reaches.token_or_end maps with
    ⟨inside, firstInside, secondInside, token, firstPresent, secondPresent⟩ | ⟨-, -, absent, ended⟩
  · split at firstText
    next absent => simp [firstPresent] at absent
    next found firstFound =>
    obtain rfl : token = found := by simpa [firstPresent] using firstFound
    split at secondText
    next absent => simp [secondPresent] at absent
    next other secondFound =>
    obtain rfl : token = other := by simpa [secondPresent] using secondFound
    rw [firstText, secondText]
    have behind : likeness.Maps (start + 1) (index + 1) := by omega
    refine alikeFrom_ite Iff.rfl (fun _ _ => alike_pure ⟨rfl, maps⟩ _ _ pairs)
      (fun unended _ => ?_)
    split
    next opens =>
      exact listThen_alikeFrom simple reaches maps inside firstPresent secondPresent opens
        (by decide) pairs reached
    next opens =>
      exact listThen_alikeFrom simple reaches maps inside firstPresent secondPresent opens
        (by decide) pairs reached
    next noRound noSquare =>
      refine alikeFrom_ite Iff.rfl (fun isName _ => ?_) (fun _ _ => ?_)
      · simp only [Bool.and_eq_true, beq_iff_eq, Bool.not_eq_true'] at isName
        refine alikeFrom_ite Iff.rfl (fun _ _ => alike_violationAt _ maps _ _ pairs)
          (fun unnamed _ => ?_)
        rw [Bool.not_eq_true] at unnamed
        have later := reached.call (.behindName firstPresent isName.1 isName.2 unnamed)
        exact (headerFrom_alikeFrom simple reaches behind pairs later).bind_advance
          fun _ _ _ nexts _ _ _ => alike_pure ⟨rfl, nexts⟩ _ _ pairs
      refine alikeFrom_ite Iff.rfl (fun isKeyword _ => ?_) (fun noKeyword _ => ?_)
      · rw [beq_iff_eq] at isKeyword
        refine alikeFrom_lift_bind (agree_headerKeyword reaches maps inside) ?_
        rintro ⟨child, found, behind, _⟩ ⟨otherChild, otherFound, otherBehind, _⟩ read
          ⟨sameChild, sameState, behinds⟩
        have later := reached.call (.behindKeyword firstPresent isKeyword read)
        dsimp only at sameChild sameState behinds later ⊢
        subst sameChild sameState
        exact (headerFrom_alikeFrom simple reaches behinds pairs later).bind_advance
          fun _ _ _ nexts _ _ _ => alike_pure ⟨rfl, nexts⟩ _ _ pairs
      rw [beq_iff_eq] at noKeyword
      refine alikeFrom_ite Iff.rfl (fun control _ => ?_)
        fun _ _ => alike_violationAt _ maps _ _ pairs
      refine alikeFrom_lift_bind (agree_valueExtent reaches maps)
        fun stop otherStop extent stops => ?_
      refine alikeFrom_dite (by omega) (fun advances _ => ?_)
        fun _ _ => alike_expected _ stops _ _ pairs
      refine (valueStatement_alike maps stops (by omega) _ _ pairs).bind
        fun condition _ read _ same => ?_
      subst same
      have later := reached.call (.behindCondition firstPresent unended noRound noSquare noKeyword
        control extent advances read)
      exact (headerFrom_alikeFrom simple reaches stops pairs later).bind_advance
        fun _ _ _ nexts _ _ _ => alike_pure ⟨rfl, nexts⟩ _ _ pairs
  · split at firstText
    next =>
      rw [firstText]
      rcases ended with ended | ⟨excused, -⟩
      · split at secondText
        next =>
          rw [secondText]
          exact alike_expected _ maps _ _ pairs
        next present => simp [Array.getElem?_eq_none ended] at present
      · exact alike_throw_excused excused _ _ pairs
    next present => simp [absent] at present
termination_by 2 * (likeness.high - index)
decreasing_by all_goals omega

theorem listThen_alikeFrom {first second : Array Token} {likeness : Likeness first second}
    {origin : FilePart × Usage} {usage otherUsage : Usage} {start index : Nat}
    {state : HeaderState} {bracket : Bracket} {opener : Token}
    {firstInside : start < first.size} {secondInside : index < second.size}
    (simple : likeness.ReadsSimple origin) (reaches : likeness.ReachesEnd)
    (maps : likeness.Maps start index) (inside : index < likeness.high)
    (firstPresent : first[start]? = some opener) (secondPresent : second[index]? = some opener)
    (opens : opener.opens? = some bracket) (listable : bracket ≠ .curly)
    (pairs : likeness.Pairs usage otherUsage)
    (reached : Reaches first origin (.header state start, usage)) :
    likeness.AlikeFrom usage otherUsage (headerFrom.listThen first state bracket start firstInside)
      (headerFrom.listThen second state bracket index secondInside) likeness.Advances := by
  rw [headerFrom.listThen.eq_def first, headerFrom.listThen.eq_def second]
  refine alikeFrom_ite Iff.rfl (fun _ _ => alike_violationAt _ maps _ _ pairs) (fun fresh _ => ?_)
  refine alikeFrom_closing_size_bind reaches maps inside firstPresent secondPresent opens ?_
  intro close otherClose behinds close_lt_high _ _ _ _ closes
  refine (headerList_alikeFrom simple maps behinds (by omega) pairs fun control =>
    reached.call (.listBehind firstPresent opens listable fresh closes control)).bind
      fun list otherList read _ same => ?_
  subst same
  have later : Reaches first origin (.header (state.withList bracket) (close + 1), usage) :=
    reached.call (.behindList firstPresent opens listable fresh closes read)
  exact (headerFrom_alikeFrom simple reaches (by omega) pairs later).bind_advance
    fun _ _ _ nexts _ _ _ => alike_pure ⟨rfl, nexts⟩ _ _ pairs
termination_by 2 * (likeness.high - index) - 1
decreasing_by all_goals omega

end

theorem header_alikeFrom {anchor otherAnchor start index : Nat}
    (simple : likeness.ReadsSimple origin) (reaches : likeness.ReachesEnd)
    (anchors : likeness.Maps anchor otherAnchor) (inside : otherAnchor < likeness.high)
    (maps : likeness.Maps start index) (pairs : likeness.Pairs usage otherUsage)
    (reached : Reaches first origin (.header .empty start, usage)) :
    likeness.AlikeFrom usage otherUsage (header first anchor start)
      (header second otherAnchor index) likeness.Advances := by
  obtain ⟨marker, firstPresent, secondPresent⟩ := exists_token anchors inside
  refine alikeFrom_tokenAt_bind firstPresent secondPresent ?_
  exact (headerFrom_alikeFrom simple reaches maps pairs reached).bind_advance
    fun _ _ _ nexts _ _ _ => alike_pure ⟨rfl, nexts⟩ _ _ pairs

/-! ### Items and sections -/

mutual

theorem item_alikeFrom {first second : Array Token} {likeness : Likeness first second}
    {origin : FilePart × Usage} {usage otherUsage : Usage} {start index : Nat} {stray : Violation}
    (simple : likeness.ReadsSimple origin) (reaches : likeness.ReachesEnd)
    (maps : likeness.Maps start index) (pairs : likeness.Pairs usage otherUsage)
    (reached : Reaches first origin (.item stray start, usage)) :
    likeness.AlikeFrom usage otherUsage (item first stray start) (item second stray index)
      likeness.Advances := by
  rw [item.eq_def first, item.eq_def second]
  refine alikeFrom_inside reaches maps pairs fun firstInside secondInside inside same => ?_
  have present := Array.getElem?_eq_getElem firstInside
  have behind : likeness.Maps (start + 1) (index + 1) := by omega
  dsimp only
  rw [same]
  split
  next opens =>
    have here := reached.call (.codeChain present opens)
    exact (sectionChain_alikeFrom simple reaches maps inside pairs here).bind_advance
      fun _ _ _ nexts _ _ _ => alike_pure ⟨rfl, nexts⟩ _ _ pairs
  next opens =>
    have here := reached.call (.preprocessorChain present opens)
    exact (sectionChain_alikeFrom simple reaches maps inside pairs here).bind_advance
      fun _ _ _ nexts _ _ _ => alike_pure ⟨rfl, nexts⟩ _ _ pairs
  next =>
    refine alikeFrom_ite Iff.rfl (fun separates _ => ?_) (fun _ _ => ?_)
    · have stops := maps_statementEnd reaches behind
      have := le_statementEnd second (index + 1)
      unfold statementItem
      refine alikeFrom_ite (by omega) (fun _ _ => alike_pure ⟨rfl, behind⟩ _ _ pairs)
        (fun nonempty _ => ?_)
      have here := reached.call (.itemStatement present separates nonempty)
      refine (statement_alikeFrom simple behind stops (by omega) pairs here).bind
        fun node _ _ _ same => ?_
      exact alike_pure ⟨by rw [same], stops⟩ _ _ pairs
    refine alikeFrom_ite Iff.rfl (fun _ _ => ?_) (fun _ _ => ?_)
    · exact (alike_lift (agree_directive reaches behind) _ _ pairs).bind_advance
        fun _ _ _ nexts _ _ _ => alike_pure ⟨rfl, nexts⟩ _ _ pairs
    · exact alikeFrom_ite Iff.rfl (fun _ _ => alike_violationAt _ maps _ _ pairs) fun _ _ =>
        alike_violationAt _ maps _ _ pairs
termination_by 4 * (likeness.high - index) + 1
decreasing_by all_goals omega

theorem sectionChain_alikeFrom {first second : Array Token} {likeness : Likeness first second}
    {origin : FilePart × Usage} {usage otherUsage : Usage} {start index : Nat} {kind : Section}
    (simple : likeness.ReadsSimple origin) (reaches : likeness.ReachesEnd)
    (maps : likeness.Maps start index) (inside : index < likeness.high)
    (pairs : likeness.Pairs usage otherUsage)
    (reached : Reaches first origin (.chain kind start, usage)) :
    likeness.AlikeFrom usage otherUsage (sectionChain first kind start)
      (sectionChain second kind index) likeness.Advances := by
  obtain ⟨_, firstPresent, secondPresent⟩ := exists_token maps inside
  have firstInside := (Array.getElem?_eq_some_iff.mp firstPresent).1
  rw [sectionChain.eq_def first, sectionChain.eq_def second, dif_pos firstInside,
    dif_pos (Array.getElem?_eq_some_iff.mp secondPresent).1]
  refine alikeFrom_nested maps inside pairs fun room otherRoom => ?_
  have deeper := pairs.enter room otherRoom
  have here := reached.call (.firstSection firstInside room)
  refine (sectionAt_alikeFrom simple reaches maps inside (by omega) deeper here).bind_advance
    fun head behind otherBehind behinds _ _ read => ?_
  have later := reached.call (.restOfChain firstInside room read)
  exact (laterSections_alikeFrom simple reaches behinds deeper later).bind_advance
    fun _ _ _ nexts _ _ _ => alike_pure ⟨rfl, nexts⟩ _ _ deeper
termination_by 4 * (likeness.high - index)
decreasing_by all_goals omega

theorem laterSections_alikeFrom {first second : Array Token} {likeness : Likeness first second}
    {origin : FilePart × Usage} {usage otherUsage : Usage} {start index : Nat} {kind : Section}
    (simple : likeness.ReadsSimple origin) (reaches : likeness.ReachesEnd)
    (maps : likeness.Maps start index) (pairs : likeness.Pairs usage otherUsage)
    (reached : Reaches first origin (.laterSections kind start, usage)) :
    likeness.AlikeFrom usage otherUsage (laterSections first kind start)
      (laterSections second kind index) likeness.Advances := by
  rw [laterSections.eq_def first, laterSections.eq_def second]
  refine alikeFrom_inside reaches maps pairs fun firstInside secondInside inside same => ?_
  have present := Array.getElem?_eq_getElem firstInside
  rw [same]
  cases marked : first[start].marker? with
  | none => exact alike_expected _ maps _ _ pairs
  | some marker =>
      refine alikeFrom_ite Iff.rfl (fun closes _ => ?_)
        fun _ _ => alike_violationAt _ maps _ _ pairs
      cases opens : marker.opens? with
      | none => exact alike_pure ⟨rfl, by dsimp only; omega⟩ _ _ pairs
      | some opened =>
          have chained (noComment : opened ≠ .comment) : likeness.AlikeFrom usage otherUsage
              (do
                let ⟨node, behind, le_behind⟩ ← sectionAt first opened start (start + 1)
                let ⟨later, next, le_next⟩ ← laterSections first opened behind
                return ⟨node :: later, next, Nat.le_trans (Nat.le_of_succ_le le_behind) le_next⟩ :
                Reading (Advance (List Node) start))
              (do
                let ⟨node, behind, le_behind⟩ ← sectionAt second opened index (index + 1)
                let ⟨later, next, le_next⟩ ← laterSections second opened behind
                return ⟨node :: later, next, Nat.le_trans (Nat.le_of_succ_le le_behind) le_next⟩ :
                Reading (Advance (List Node) index)) likeness.Advances := by
            have here := reached.call (.nextSection present marked closes opens noComment)
            refine (sectionAt_alikeFrom simple reaches maps inside (by omega) pairs
              here).bind_advance fun node behind otherBehind behinds _ _ read => ?_
            have later := reached.call
              (.sectionsBehind present marked closes opens noComment read)
            exact (laterSections_alikeFrom simple reaches behinds pairs later).bind_advance
              fun _ _ _ nexts _ _ _ => alike_pure ⟨rfl, nexts⟩ _ _ pairs
          cases opened with
          | comment => exact alike_violationAt _ maps _ _ pairs
          | code => exact chained (by decide)
          | preprocessor => exact chained (by decide)
termination_by 4 * (likeness.high - index)
decreasing_by all_goals omega

theorem sectionAt_alikeFrom {first second : Array Token} {likeness : Likeness first second}
    {origin : FilePart × Usage} {usage otherUsage : Usage}
    {anchor otherAnchor start index : Nat} {kind : Section}
    (simple : likeness.ReadsSimple origin) (reaches : likeness.ReachesEnd)
    (anchors : likeness.Maps anchor otherAnchor) (inside : otherAnchor < likeness.high)
    (maps : likeness.Maps start index) (pairs : likeness.Pairs usage otherUsage)
    (reached : Reaches first origin (.sectionAt kind anchor start, usage)) :
    likeness.AlikeFrom usage otherUsage (sectionAt first kind anchor start)
      (sectionAt second kind otherAnchor index) likeness.Advances := by
  rw [sectionAt.eq_def first, sectionAt.eq_def second]
  obtain ⟨marker, firstPresent, secondPresent⟩ := exists_token anchors inside
  split
  next => exact alike_lift (agree_preprocessorSection reaches anchors inside maps) _ _ pairs
  next noPreprocessor =>
    refine alikeFrom_tokenAt_bind firstPresent secondPresent ?_
    have here := reached.call (.heading noPreprocessor firstPresent)
    refine (header_alikeFrom simple reaches anchors inside maps pairs here).bind_advance
      fun heading behind otherBehind behinds _ _ read => ?_
    have later := reached.call (.body noPreprocessor firstPresent read)
    exact (bodyFrom_alikeFrom simple reaches behinds pairs later).bind_advance
      fun _ _ _ nexts _ _ _ => alike_pure ⟨rfl, nexts⟩ _ _ pairs
termination_by 4 * (likeness.high - index) + 3
decreasing_by all_goals omega

theorem bodyFrom_alikeFrom {first second : Array Token} {likeness : Likeness first second}
    {origin : FilePart × Usage} {usage otherUsage : Usage} {start index : Nat}
    (simple : likeness.ReadsSimple origin) (reaches : likeness.ReachesEnd)
    (maps : likeness.Maps start index) (pairs : likeness.Pairs usage otherUsage)
    (reached : Reaches first origin (.body start, usage)) :
    likeness.AlikeFrom usage otherUsage (bodyFrom first start) (bodyFrom second index)
      likeness.Advances := by
  rw [bodyFrom.eq_def first, bodyFrom.eq_def second]
  refine alikeFrom_inside reaches maps pairs fun firstInside secondInside inside same => ?_
  have present := Array.getElem?_eq_getElem firstInside
  rw [same]
  refine alikeFrom_ite Iff.rfl (fun _ _ => alike_pure ⟨rfl, maps⟩ _ _ pairs) (fun unended _ => ?_)
  have here := reached.call (.bodyItem present unended)
  refine (item_alikeFrom simple reaches maps pairs here).bind_advance
    fun node behind otherBehind behinds _ _ read => ?_
  have later := reached.call (.restOfBody present unended read)
  exact (bodyFrom_alikeFrom simple reaches behinds pairs later).bind_advance
    fun _ _ _ nexts _ _ _ => alike_pure ⟨rfl, nexts⟩ _ _ pairs
termination_by 4 * (likeness.high - index) + 2
decreasing_by all_goals omega

end

/-- Two streams that end together are read as the same items from corresponding indexes on. -/
theorem rootItemsFrom_alikeFrom {start index : Nat} (simple : likeness.ReadsSimple origin)
    (reaches : likeness.ReachesEnd) (together : second.size = likeness.high)
    (maps : likeness.Maps start index) (pairs : likeness.Pairs usage otherUsage)
    (reached : Reaches first origin (.rootItems start, usage)) :
    likeness.AlikeFrom usage otherUsage (rootItemsFrom first start) (rootItemsFrom second index)
      Eq := by
  have size_eq := reaches.size_eq
  rw [rootItemsFrom.eq_def first, rootItemsFrom.eq_def second]
  refine alikeFrom_dite (by omega) (fun inside _ => ?_) fun _ _ => alike_pure rfl _ _ pairs
  have here := reached.call (.rootItem inside)
  refine (item_alikeFrom simple reaches maps pairs here).bind_advance
    fun node behind otherBehind behinds _ _ read => ?_
  have later := reached.call (.laterRootItems inside read)
  exact (rootItemsFrom_alikeFrom simple reaches together behinds pairs later).bind
    fun _ _ _ _ same => alike_pure (by rw [same]) _ _ pairs
termination_by second.size - index

end Likeness

end TnslReader
