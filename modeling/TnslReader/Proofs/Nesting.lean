import TnslReader.Proofs.Balance

/-!
Contract: properly nested text, and how the bracket scanners go through it.

`Nested` texts are balanced, have no marker and no end of a statement, and commas outside brackets
only if that is said. A scanner that comes to such a text is, with the same state, behind it.

Owns:
- `closing` finds a closer of the opener's kind;
- `parts` cuts a range at separators, with nothing lost between the parts, and passes over balanced
  text without any.
-/

set_option autoImplicit false

namespace TnslReader

/-- `Nested separated text`: the brackets of the text are paired by kind, it holds no marker, no
statement ends in it, and it has commas outside its brackets only if it is separated by them. -/
inductive Nested : Bool → List Token → Prop where
  | nil {separated : Bool} : Nested separated []
  | plain {separated : Bool} {token : Token} {rest : List Token}
      (opens : token.opens? = none) (closes : token.closes? = none)
      (unmarked : token.marker? = none) (inside : token.endsStatement = false)
      (comma : token.isComma = true → separated = true) (later : Nested separated rest) :
      Nested separated (token :: rest)
  | pair {separated : Bool} {opener closer : Token} {bracket : Bracket} {text rest : List Token}
      (opens : opener.opens? = some bracket) (closes : closer.closes? = some bracket)
      (within : Nested true text) (later : Nested separated rest) :
      Nested separated (opener :: (text ++ closer :: rest))

namespace Nested

variable {separated : Bool} {text rest : List Token}

theorem append (first : Nested separated text) (second : Nested separated rest) :
    Nested separated (text ++ rest) := by
  induction first with
  | nil => exact second
  | plain opens closes unmarked inside comma _ inductionHypothesis =>
      exact .plain opens closes unmarked inside comma (inductionHypothesis second)
  | pair opens closes within _ _ inductionHypothesis =>
      simpa using Nested.pair opens closes within (inductionHypothesis second)

theorem toSeparated (nested : Nested separated text) : Nested true text := by
  induction nested with
  | nil => exact .nil
  | plain opens closes unmarked inside _ _ inductionHypothesis =>
      exact .plain opens closes unmarked inside (fun _ => rfl) inductionHypothesis
  | pair opens closes within _ _ inductionHypothesis =>
      exact .pair opens closes within inductionHypothesis

theorem cons_of_isPlain {token : Token} (plain : token.IsPlain) (later : Nested separated rest) :
    Nested separated (token :: rest) :=
  .plain plain.opens? plain.closes? plain.marker? plain.endsStatement
    (fun comma => by simp [plain.isComma] at comma) later

theorem comma_cons {token : Token} (isComma : token.isComma = true) (later : Nested true rest) :
    Nested true (token :: rest) := by
  have classified := Token.tokenClass_of_isComma isComma
  refine .plain ?_ ?_ ?_ ?_ (fun _ => rfl) later <;>
    simp [Token.opens?, Token.closes?, Token.endsStatement, Token.isBlockMarker, Token.marker?,
      classified]

theorem bracketed {opener closer : Token} {bracket : Bracket}
    (opens : opener.opens? = some bracket) (within : Nested true text)
    (closes : closer.closes? = some bracket) : Nested separated (opener :: (text ++ [closer])) :=
  .pair opens closes within .nil

theorem balanced (nested : Nested separated text) : Balanced separated text := by
  induction nested with
  | nil => exact .nil
  | plain opens closes _ _ comma _ inductionHypothesis =>
      exact .plain opens closes comma inductionHypothesis
  | pair opens closes _ _ withinHypothesis laterHypothesis =>
      exact .pair opens closes withinHypothesis laterHypothesis

/-- No token of a nested text ends a statement. -/
theorem endsStatement_eq_false (nested : Nested separated text) :
    ∀ token ∈ text, token.endsStatement = false := by
  induction nested with
  | nil => simp
  | plain _ _ _ inside _ _ inductionHypothesis =>
      simpa [inside] using inductionHypothesis
  | @pair _ opener closer _ _ _ opens closes _ _ withinHypothesis laterHypothesis =>
      have opening : opener.endsStatement = false :=
        Token.endsStatement_eq_false_of_unmarked (Token.marker?_eq_none_of_opens? opens)
          (by simp [Token.tokenClass_of_opens? opens])
      have closing : closer.endsStatement = false :=
        Token.endsStatement_eq_false_of_unmarked (Token.marker?_eq_none_of_closes? closes)
          (by simp [Token.tokenClass_of_closes? closes])
      rw [List.forall_mem_cons, List.forall_mem_append, List.forall_mem_cons]
      exact ⟨opening, withinHypothesis, closing, laterHypothesis⟩

end Nested

/-! ### The end of a bracket pair -/

variable {tokens : Array Token} {opener limit : Nat}

theorem sound_closingFrom {bracket last : Bracket} {outer : List Bracket} {index : Nat}
    (behind : opener < index) (outermost : (bracket :: outer).getLast? = some last) :
    Sound tokens (closingFrom tokens opener limit bracket outer index behind) fun close =>
      ∃ closer, tokens[close.val]? = some closer ∧ closer.closes? = some last := by
  fun_induction closingFrom tokens opener limit bracket outer index behind with
  | case1 => exact Sound.violationAt ..
  | case2 _ _ _ _ _ _ _ _ _ inductionHypothesis =>
      exact inductionHypothesis (by simpa using outermost)
  | case3 _ _ _ _ _ _ _ _ _ inductionHypothesis => exact inductionHypothesis outermost
  | case4 _ _ _ _ present _ _ closed =>
      cases outermost
      exact Sound.ok ⟨_, present, closed⟩
  | case5 _ _ _ _ _ _ _ _ _ _ inductionHypothesis =>
      exact inductionHypothesis (by simpa using outermost)
  | case6 => exact Sound.violationAt ..
  | case7 => exact Sound.violationAt ..

/-- What closes a pair is a closer of the same kind. -/
theorem sound_closing {token : Token} {bracket : Bracket} (present : tokens[opener]? = some token)
    (opens : token.opens? = some bracket) :
    Sound tokens (closing tokens opener limit) fun close =>
      ∃ closer, tokens[close.val]? = some closer ∧ closer.closes? = some bracket := by
  unfold closing
  simp only [present, Option.bind_some, opens]
  exact sound_closingFrom (opener.lt_succ_self) rfl

/-- To look for the end of a pair is to go on with any closer of its kind behind the opener. -/
theorem ensures_closing_bind {α : Type} {usage : Usage} {property : α → Prop}
    {next : { close : Nat // opener < close ∧ close < limit } → Reading α} {token : Token}
    {bracket : Bracket} (present : tokens[opener]? = some token)
    (opens : token.opens? = some bracket)
    (later : ∀ close, ∀ opener_lt_close : opener < close, ∀ close_lt_limit : close < limit,
      ∀ closer, tokens[close]? = some closer → closer.closes? = some bracket →
        (next ⟨close, opener_lt_close, close_lt_limit⟩).Ensures tokens usage property) :
    (liftM (closing tokens opener limit) >>= next).Ensures tokens usage property := by
  refine (Reading.ensures_lift (sound_closing present opens)).bind fun answer held => ?_
  rcases answer with ⟨close, opener_lt_close, close_lt_limit⟩
  rcases held with ⟨closer, closerPresent, closes⟩
  exact later close opener_lt_close close_lt_limit closer closerPresent closes

/-! ### The parts of a range -/

def Part.range {low high : Nat} (part : Part low high) : Nat × Nat :=
  (part.start, part.stop)

/-- `Cuts tokens isSeparator high start ranges`: the ranges follow each other from `start` to
`high`, with one separator between each two. -/
inductive Cuts (tokens : Array Token) (isSeparator : Token → Bool) (high : Nat) :
    Nat → List (Nat × Nat) → Prop where
  | last {start : Nat} (ordered : start ≤ high) : Cuts tokens isSeparator high start [(start, high)]
  | more {start stop : Nat} {token : Token} {ranges : List (Nat × Nat)} (ordered : start ≤ stop)
      (inside : stop < high) (present : tokens[stop]? = some token)
      (separates : isSeparator token = true)
      (later : Cuts tokens isSeparator high (stop + 1) ranges) :
      Cuts tokens isSeparator high start ((start, stop) :: ranges)

variable {isSeparator : Token → Bool} {low high : Nat}

/-- The first of some ranges begins where they all do, and is the last or ends at a separator. -/
theorem Cuts.of_cons {start : Nat} {range : Nat × Nat} {ranges : List (Nat × Nat)}
    (cuts : Cuts tokens isSeparator high start (range :: ranges)) :
    range.1 = start ∧ ((range.2 = high ∧ ranges = []) ∨
      (range.2 < high ∧ ∃ token, tokens[range.2]? = some token ∧ isSeparator token = true ∧
        Cuts tokens isSeparator high (range.2 + 1) ranges)) := by
  cases cuts with
  | last => exact ⟨rfl, .inl ⟨rfl, rfl⟩⟩
  | more _ inside present separates later =>
      exact ⟨rfl, .inr ⟨inside, _, present, separates, later⟩⟩

section Steps

variable {start index : Nat} {low_le_start : low ≤ start} {start_le_index : start ≤ index}
  {index_le_high : index ≤ high} {token : Token} {bracket : Bracket}

/-- The search for separators skips the pair that begins at an opener. -/
theorem partsFrom_of_opener (inside : index < high) (present : tokens[index]? = some token)
    (opens : token.opens? = some bracket) :
    partsFrom tokens isSeparator low high start index low_le_start start_le_index index_le_high =
      closing tokens index high >>= fun close =>
        partsFrom tokens isSeparator low high start (close.val + 1) low_le_start
          (Nat.le_succ_of_le (Nat.le_trans start_le_index (Nat.le_of_lt close.property.1)))
          close.property.2 := by
  rw [partsFrom, dif_pos inside, Sound.tokenAt_eq_ok present, Sound.ok_bind,
    if_pos (by simp [Token.isOpener, opens])]
  exact bind_congr fun ⟨_, _, _⟩ => rfl

/-- A closer that stands outside all pairs ends the search. -/
theorem partsFrom_of_closer (inside : index < high) (present : tokens[index]? = some token)
    (closes : token.closes? = some bracket) :
    partsFrom tokens isSeparator low high start index low_le_start start_le_index index_le_high =
      .error (.violationAt tokens index .unexpectedCloser) := by
  rw [partsFrom, dif_pos inside, Sound.tokenAt_eq_ok present, Sound.ok_bind,
    if_neg (by simp [Token.isOpener, Token.opens?_eq_none_of_closes? closes]),
    if_pos (by simp [Token.isCloser, closes])]
  rfl

/-- At a separator one part ends and the next one begins. -/
theorem partsFrom_of_separator (inside : index < high) (present : tokens[index]? = some token)
    (opens : token.opens? = none) (closes : token.closes? = none)
    (separates : isSeparator token = true) :
    partsFrom tokens isSeparator low high start index low_le_start start_le_index index_le_high =
      partsFrom tokens isSeparator low high (index + 1) (index + 1)
        (Nat.le_succ_of_le (Nat.le_trans low_le_start start_le_index)) (Nat.le_refl _) inside >>=
      fun later => .ok (⟨start, index, low_le_start, start_le_index, index_le_high⟩ :: later) := by
  rw [partsFrom, dif_pos inside, Sound.tokenAt_eq_ok present, Sound.ok_bind,
    if_neg (by simp [Token.isOpener, opens]), if_neg (by simp [Token.isCloser, closes]),
    if_pos separates]
  rfl

theorem partsFrom_of_plain (inside : index < high) (present : tokens[index]? = some token)
    (opens : token.opens? = none) (closes : token.closes? = none)
    (other : isSeparator token = false) :
    partsFrom tokens isSeparator low high start index low_le_start start_le_index index_le_high =
      partsFrom tokens isSeparator low high start (index + 1) low_le_start
        (Nat.le_succ_of_le start_le_index) inside := by
  rw [partsFrom, dif_pos inside, Sound.tokenAt_eq_ok present, Sound.ok_bind,
    if_neg (by simp [Token.isOpener, opens]), if_neg (by simp [Token.isCloser, closes]),
    if_neg (by simp [other])]

theorem partsFrom_end {start_le_high : start ≤ high} :
    partsFrom tokens isSeparator low high start high low_le_start start_le_high (Nat.le_refl _) =
      .ok [⟨start, high, low_le_start, start_le_high, Nat.le_refl _⟩] := by
  rw [partsFrom, dif_neg (Nat.lt_irrefl high)]
  rfl

end Steps

theorem sound_partsFrom (bound : high ≤ tokens.size) {start index : Nat}
    (low_le_start : low ≤ start) (start_le_index : start ≤ index) (index_le_high : index ≤ high) :
    Sound tokens (partsFrom tokens isSeparator low high start index low_le_start start_le_index
      index_le_high) fun items => Cuts tokens isSeparator high start (items.map Part.range) := by
  by_cases inside : index < high
  · have present := Array.getElem?_eq_getElem (show index < tokens.size by omega)
    generalize tokens[index] = token at present
    cases opens : token.opens? with
    | some bracket =>
        rw [partsFrom_of_opener inside present opens]
        refine (sound_closing present opens).bind ?_
        rintro ⟨close, index_lt_close, close_lt_high⟩ -
        exact sound_partsFrom bound _ _ _
    | none =>
        cases closes : token.closes? with
        | some bracket =>
            rw [partsFrom_of_closer inside present closes]
            exact Sound.violationAt ..
        | none =>
            cases separates : isSeparator token with
            | true =>
                rw [partsFrom_of_separator inside present opens closes separates]
                refine (sound_partsFrom bound _ (Nat.le_refl _) inside).bind fun later cut => ?_
                exact Sound.ok (.more start_le_index inside present separates cut)
            | false =>
                rw [partsFrom_of_plain inside present opens closes separates]
                exact sound_partsFrom bound _ _ _
  · obtain rfl := Nat.le_antisymm index_le_high (Nat.not_lt.mp inside)
    rw [partsFrom_end]
    exact Sound.ok (.last start_le_index)
termination_by high - index

/-- The parts of a range follow each other from end to end; an empty range has none. -/
theorem sound_parts (bound : high ≤ tokens.size) :
    Sound tokens (parts tokens isSeparator low high) fun items =>
      (high ≤ low ∧ items = []) ∨
        (low < high ∧ Cuts tokens isSeparator high low (items.map Part.range)) := by
  unfold parts
  split
  next nonempty =>
    exact (sound_partsFrom bound _ _ _).mono fun items cut => .inr ⟨nonempty, cut⟩
  next empty => exact Sound.ok (.inl ⟨Nat.not_lt.mp empty, rfl⟩)

/-- The search for commas passes over balanced text that has none outside its brackets. -/
theorem partsFrom_balanced {separated : Bool} {text : List Token}
    (balanced : Balanced separated text) (unseparated : separated = false) :
    ∀ {start index mid : Nat} (low_le_start : low ≤ start) (start_le_index : start ≤ index)
      (index_le_mid : index ≤ mid) (_ : slice tokens index mid = text) (mid_le_high : mid ≤ high)
      (_ : high ≤ tokens.size),
      partsFrom tokens Token.isComma low high start index low_le_start start_le_index
          (by omega) =
        partsFrom tokens Token.isComma low high start mid low_le_start (by omega)
          mid_le_high := by
  induction balanced with
  | nil =>
      intro start index mid low_le_start start_le_index index_le_mid equal mid_le_high bound
      have lengths := congrArg List.length equal
      rw [length_slice (by omega), List.length_nil] at lengths
      obtain rfl : index = mid := by omega
      rfl
  | @plain _ token _ opens closes comma _ inductionHypothesis =>
      intro start index mid low_le_start start_le_index index_le_mid equal mid_le_high bound
      obtain ⟨index_lt_mid, present, rest⟩ := eq_cons_of_slice equal
      have notComma : token.isComma = false := by
        cases isComma : token.isComma with
        | false => rfl
        | true => simp [comma isComma] at unseparated
      rw [partsFrom_of_plain (by omega) present opens closes notComma]
      exact inductionHypothesis unseparated _ _ index_lt_mid rest mid_le_high bound
  | @pair _ _ _ _ _ _ opens closes within _ _ laterHypothesis =>
      intro start index mid low_le_start start_le_index index_le_mid equal mid_le_high bound
      obtain ⟨index_lt_mid, present, rest⟩ := eq_cons_of_slice equal
      obtain ⟨seam, index_lt_seam, seam_le_mid, inside, outside⟩ :=
        eq_append_of_slice rest index_lt_mid (by omega)
      obtain ⟨seam_lt_mid, closerPresent, after⟩ := eq_cons_of_slice outside
      rw [partsFrom_of_opener (by omega) present opens,
        closing_balanced within present opens inside index_lt_seam closerPresent closes
          (show seam < high by omega), Sound.ok_bind]
      exact laterHypothesis unseparated _ _ seam_lt_mid after mid_le_high bound

end TnslReader
