import TnslReader.Proofs.BracketErrors
import TnslReader.Token.Comment

/-!
Contract: the two scanners of brackets answer exactly what the nesting of brackets says.

`closing` keeps a stack and stops at the first closer that empties it or does not fit. `parts` skips
each pair that it finds and looks at what stands between them. So one of them decides whether there
is a closer behind an opener with properly nested text between the two, and the other one whether a
range is properly nested. Both fail for brackets only.

Owns:
- `closing` answers with the only end of a pair, and fails exactly if there is none;
- `parts` answers exactly for balanced ranges, and no separator stands outside the brackets of a
  part.
-/

set_option autoImplicit false

namespace TnslReader

def Judged {α : Type} (answer : Except ParseError α) (property : α → Prop) : Prop :=
  match answer with
  | .ok result => property result
  | .error error => error.IsBracketError

namespace Judged

variable {α β : Type} {property weaker : α → Prop} {other : β → Prop} {answer : Except ParseError α}

theorem mono (judged : Judged answer property)
    (implies : ∀ result, property result → weaker result) : Judged answer weaker := by
  cases answer with
  | ok result => exact implies result judged
  | error error => exact judged

theorem bind {next : α → Except ParseError β} (first : Judged answer property)
    (second : ∀ result, property result → Judged (next result) other) :
    Judged (answer >>= next) other := by
  cases answer with
  | ok result => exact second result first
  | error error => exact first

theorem violationAt {tokens : Array Token} {index : Nat} {token : Token} {cause : Violation}
    (present : tokens[index]? = some token)
    (isAbout : (ParseError.violation cause token).IsBracketError) :
    Judged (.error (.violationAt tokens index cause)) property := by
  unfold ParseError.violationAt
  rw [present]
  exact isAbout

end Judged

/-! ### The end of a bracket pair -/

/-- The pair that is opened at `opener` ends at `close`: a closer of its kind stands there, and all
brackets strictly between the two are properly nested. -/
structure EndsPair (tokens : Array Token) (opener limit : Nat) (bracket : Bracket) (close : Nat) :
    Prop where
  opener_lt_close : opener < close
  close_lt_limit : close < limit
  closes : tokens[close]?.bind Token.closes? = some bracket
  nested : Balanced true (slice tokens (opener + 1) close)

variable {tokens : Array Token} {opener limit : Nat} {token : Token} {bracket : Bracket}

namespace EndsPair

variable {close : Nat}

theorem closing_eq (ends : EndsPair tokens opener limit bracket close)
    (present : tokens[opener]? = some token) (opens : token.opens? = some bracket) :
    closing tokens opener limit = .ok ⟨close, ends.opener_lt_close, ends.close_lt_limit⟩ := by
  obtain ⟨closer, closerPresent, closes⟩ := Option.bind_eq_some_iff.mp ends.closes
  exact closing_balanced ends.nested present opens rfl ends.opener_lt_close closerPresent closes
    ends.close_lt_limit

/-- A pair has one end only. -/
theorem eq {other : Nat} (ends : EndsPair tokens opener limit bracket close)
    (otherEnds : EndsPair tokens opener limit bracket other)
    (present : tokens[opener]? = some token) (opens : token.opens? = some bracket) :
    other = close := by
  have same := (otherEnds.closing_eq present opens).symm.trans (ends.closing_eq present opens)
  exact congrArg Subtype.val (Except.ok.inj same)

/-- The whole pair is balanced. -/
theorem balanced (ends : EndsPair tokens opener limit bracket close)
    (present : tokens[opener]? = some token) (opens : token.opens? = some bracket) :
    Balanced true (slice tokens opener (close + 1)) := by
  obtain ⟨closer, closerPresent, closes⟩ := Option.bind_eq_some_iff.mp ends.closes
  rw [slice_eq_pair present ends.opener_lt_close closerPresent close.lt_succ_self,
    slice_eq_nil tokens (Nat.le_refl _)]
  exact .pair opens closes ends.nested .nil

end EndsPair

/-- The text from `index` up to and with `close` closes all the pairs that are open before it. -/
structure EmptiesAt (tokens : Array Token) (index : Nat) (pending : List Bracket) (close : Nat) :
    Prop where
  index_le_close : index ≤ close
  emptied : stillOpen pending (slice tokens index (close + 1)) = some []

theorem EmptiesAt.of_bracketStep {index close : Nat} {pending next : List Bracket}
    (here : tokens[index]? = some token) (stepped : bracketStep pending token = some next)
    (later : EmptiesAt tokens (index + 1) next close) :
    EmptiesAt tokens index pending close := by
  have index_le_close := Nat.le_of_succ_le later.index_le_close
  refine ⟨index_le_close, ?_⟩
  rw [slice_eq_cons here (Nat.lt_succ_of_le index_le_close), stillOpen, List.foldlM_cons, stepped]
  exact later.emptied

/-- The search goes on while pairs are open, and the closer that it finds leaves none. -/
theorem judged_closingFrom (present : tokens[opener]? = some token) {outer : List Bracket}
    {index : Nat} (behind : opener < index) :
    Judged (closingFrom tokens opener limit bracket outer index behind) fun close =>
      EmptiesAt tokens index (bracket :: outer) close.val := by
  fun_induction closingFrom tokens opener limit bracket outer index behind with
  | case1 => exact .violationAt present trivial
  | case2 _ _ _ _ _ _ here _ opens inductionHypothesis =>
      exact inductionHypothesis.mono fun _ => .of_bracketStep here (by simp [bracketStep, opens])
  | case3 _ _ _ _ _ _ here opens closes inductionHypothesis =>
      exact inductionHypothesis.mono fun _ =>
        .of_bracketStep here (by simp [bracketStep, opens, closes])
  | case4 index _ _ _ here _ _ closes =>
      refine ⟨Nat.le_refl index, ?_⟩
      rw [slice_eq_cons here index.lt_succ_self, stillOpen_cons_of_closes? closes,
        slice_eq_nil tokens (Nat.le_refl _)]
      rfl
  | case5 _ _ _ _ here opens _ closes _ _ inductionHypothesis =>
      exact inductionHypothesis.mono fun _ =>
        .of_bracketStep here (by simp [bracketStep, opens, closes])
  | case6 _ _ _ _ _ _ here => exact .violationAt here trivial
  | case7 => exact .violationAt present trivial

/-- Where all pairs are closed the one that was opened first has an end. -/
theorem EmptiesAt.exists_endsPair {close : Nat}
    (empties : EmptiesAt tokens (opener + 1) [bracket] close) (close_lt_limit : close < limit)
    (size : close < tokens.size) : ∃ early, EndsPair tokens opener limit bracket early := by
  obtain ⟨opener_lt_close, emptied⟩ := empties
  obtain ⟨within, first, rest, split, nested, closes, -⟩ := exists_closer_of_stillOpen emptied
  obtain ⟨early, opener_lt_early, -, inside, behind⟩ :=
    eq_append_of_slice split (Nat.succ_le_succ (Nat.le_of_lt opener_lt_close)) size
  obtain ⟨early_le_close, firstPresent, -⟩ := eq_cons_of_slice behind
  exact ⟨early,
    { opener_lt_close := opener_lt_early
      close_lt_limit := Nat.lt_of_le_of_lt (Nat.le_of_lt_succ early_le_close) close_lt_limit
      closes := Option.bind_eq_some_iff.mpr ⟨first, firstPresent, closes⟩
      nested := inside ▸ nested }⟩

/-- What the search finds is the end of the pair. -/
theorem judged_closing (present : tokens[opener]? = some token)
    (opens : token.opens? = some bracket) :
    Judged (closing tokens opener limit) fun close =>
      EndsPair tokens opener limit bracket close.val := by
  have judged : Judged (closing tokens opener limit) fun close =>
      EmptiesAt tokens (opener + 1) [bracket] close.val := by
    unfold closing
    simp only [present, Option.bind_some, opens]
    exact judged_closingFrom present opener.lt_succ_self
  have sound := @sound_closing tokens opener limit token bracket present opens
  cases found : closing tokens opener limit with
  | error error =>
      rw [found] at judged
      exact judged
  | ok close =>
      rw [found] at judged sound
      obtain ⟨closer, closerPresent, -⟩ := sound
      obtain ⟨size, -⟩ := Array.getElem?_eq_some_iff.mp closerPresent
      -- The pair has an end, and where a pair ends the search stops.
      obtain ⟨early, ends⟩ := judged.exists_endsPair close.property.2 size
      have same := found.symm.trans (ends.closing_eq present opens)
      rw [Except.ok.inj same]
      exact ends

/-- A range that ends within a pair is not balanced. -/
theorem EndsPair.not_balanced {close : Nat} (ends : EndsPair tokens opener limit bracket close)
    (present : tokens[opener]? = some token) (opens : token.opens? = some bracket) {stop : Nat}
    (opener_lt_stop : opener < stop) (stop_le_close : stop ≤ close) :
    ¬Balanced true (slice tokens opener stop) := by
  intro balanced
  obtain ⟨closer, closerPresent, -⟩ := Option.bind_eq_some_iff.mp ends.closes
  obtain ⟨closeBound, -⟩ := Array.getElem?_eq_some_iff.mp closerPresent
  obtain ⟨early, opener_lt_early, early_lt_stop, found, -⟩ :=
    exists_closing present opens opener_lt_stop (by omega) balanced
  have judged := @judged_closing tokens opener stop token bracket present opens
  rw [found] at judged
  have early_lt_close := Nat.lt_of_lt_of_le early_lt_stop stop_le_close
  have earlyEnds : EndsPair tokens opener limit bracket early :=
    { judged with close_lt_limit := Nat.lt_trans early_lt_close ends.close_lt_limit }
  exact absurd (ends.eq earlyEnds present opens) (Nat.ne_of_lt early_lt_close)

/-! ### The parts of a range -/

variable {isSeparator : Token → Bool} {low high : Nat}

/-- No separator stands outside the brackets of the range: wherever the text before a token is
balanced, the token is none. -/
def Unseparated (tokens : Array Token) (isSeparator : Token → Bool) (start stop : Nat) : Prop :=
  ∀ index token, start ≤ index → index < stop → tokens[index]? = some token →
    Balanced true (slice tokens start index) → isSeparator token = false

theorem Unseparated.empty (start : Nat) : Unseparated tokens isSeparator start start :=
  fun _ _ start_le_index index_lt_start => absurd index_lt_start (Nat.not_lt.mpr start_le_index)

theorem Unseparated.succ {start stop : Nat} (unseparated : Unseparated tokens isSeparator start stop)
    (present : tokens[stop]? = some token) (other : isSeparator token = false) :
    Unseparated tokens isSeparator start (stop + 1) := by
  intro index found start_le_index index_lt_stop here balanced
  rcases Nat.lt_or_eq_of_le (Nat.le_of_lt_succ index_lt_stop) with before | rfl
  · exact unseparated index found start_le_index before here balanced
  · rw [← Option.some.inj (present.symm.trans here)]
    exact other

/-- To add a pair adds no separator outside of brackets. -/
theorem Unseparated.pair {start stop close : Nat}
    (unseparated : Unseparated tokens isSeparator start stop)
    (before : Balanced true (slice tokens start stop)) (start_le_stop : start ≤ stop)
    (present : tokens[stop]? = some token) (opens : token.opens? = some bracket)
    (other : isSeparator token = false) (ends : EndsPair tokens stop limit bracket close) :
    Unseparated tokens isSeparator start (close + 1) := by
  intro index found start_le_index index_le_close here balanced
  rcases Nat.lt_or_ge stop index with within | upTo
  · rw [← slice_append tokens start_le_stop (Nat.le_of_lt within)] at balanced
    exact absurd (balanced.of_append before)
      (ends.not_balanced present opens within (Nat.le_of_lt_succ index_le_close))
  · exact unseparated.succ present other index found start_le_index (Nat.lt_succ_of_le upTo) here
      balanced

/-- What is cut is balanced, and no part has separators outside its brackets. -/
theorem judged_partsFrom (size : high ≤ tokens.size)
    (rejects : ∀ token, isSeparator token = true → token.opens? = none ∧ token.closes? = none)
    {start index : Nat} (low_le_start : low ≤ start) (start_le_index : start ≤ index)
    (index_le_high : index ≤ high) (before : Balanced true (slice tokens start index))
    (unseparated : Unseparated tokens isSeparator start index) :
    Judged (partsFrom tokens isSeparator low high start index low_le_start start_le_index
        index_le_high) fun items => Balanced true (slice tokens index high) ∧
      ∀ part ∈ items, Unseparated tokens isSeparator part.start part.stop := by
  by_cases inside : index < high
  · have present := Array.getElem?_eq_getElem (show index < tokens.size by omega)
    have text := slice_eq_cons present inside
    generalize tokens[index] = token at *
    cases opens : token.opens? with
    | some bracket =>
        have other : isSeparator token = false := by
          by_contra separates
          simp [(rejects token (by simpa using separates)).1] at opens
        rw [partsFrom_of_opener inside present opens]
        refine (judged_closing present opens).bind ?_
        rintro ⟨close, index_lt_close, close_lt_high⟩ ends
        have pair := ends.balanced present opens
        have start_le_close : start ≤ close + 1 := by omega
        have beforeRest : Balanced true (slice tokens start (close + 1)) := by
          rw [← slice_append tokens start_le_index (by omega)]
          exact before.append pair
        have rest := judged_partsFrom size rejects low_le_start start_le_close close_lt_high
          beforeRest (unseparated.pair before start_le_index present opens other ends)
        refine rest.mono fun items held => ⟨?_, held.2⟩
        rw [← slice_append tokens (show index ≤ close + 1 by omega) close_lt_high]
        exact pair.append held.1
    | none =>
        cases closes : token.closes? with
        | some bracket =>
            rw [partsFrom_of_closer inside present closes]
            exact .violationAt present trivial
        | none =>
            have here : Balanced true [token] := .plain opens closes (fun _ => rfl) .nil
            rw [text]
            cases separates : isSeparator token with
            | true =>
                rw [partsFrom_of_separator inside present opens closes separates]
                have rest := judged_partsFrom size rejects (Nat.le_succ_of_le
                  (Nat.le_trans low_le_start start_le_index)) (Nat.le_refl _) inside
                  (slice_eq_nil tokens (Nat.le_refl _) ▸ .nil) (.empty _)
                refine rest.bind fun later held => ⟨here.append held.1, ?_⟩
                exact List.forall_mem_cons.mpr ⟨unseparated, held.2⟩
            | false =>
                rw [partsFrom_of_plain inside present opens closes separates]
                have rest := judged_partsFrom size rejects low_le_start
                  (Nat.le_succ_of_le start_le_index) inside
                  (slice_succ present start_le_index ▸ before.append here)
                  (unseparated.succ present separates)
                exact rest.mono fun items held => ⟨here.append held.1, held.2⟩
  · obtain rfl := Nat.le_antisymm index_le_high (Nat.not_lt.mp inside)
    rw [partsFrom_end]
    exact ⟨slice_eq_nil tokens (Nat.le_refl _) ▸ .nil, by simpa using unseparated⟩
termination_by high - index

/-! ### What both answer -/

/-- Whether this is what the search for the end of a pair must answer: its only end, or an error
about brackets if it has none. -/
def FindsEnd (tokens : Array Token) (opener limit : Nat) (bracket : Bracket)
    (answer : Except ParseError { close : Nat // opener < close ∧ close < limit }) : Prop :=
  match answer with
  | .ok close => EndsPair tokens opener limit bracket close.val ∧
      ∀ other, EndsPair tokens opener limit bracket other → other = close.val
  | .error error => error.IsBracketError ∧ ∀ close, ¬EndsPair tokens opener limit bracket close

/-- Whether this is what the search for separators must answer: if the range is balanced, the
balanced parts between the separators outside all brackets, and else an error about brackets. -/
def FindsParts (tokens : Array Token) (isSeparator : Token → Bool) (low high : Nat)
    (answer : Except ParseError (List (Part low high))) : Prop :=
  match answer with
  | .ok items => Balanced true (slice tokens low high) ∧
      ((high ≤ low ∧ items = []) ∨
        (low < high ∧ Cuts tokens isSeparator high low (items.map Part.range))) ∧
      ∀ part ∈ items, Balanced true (slice tokens part.start part.stop) ∧
        Unseparated tokens isSeparator part.start part.stop
  | .error error => error.IsBracketError ∧ ¬Balanced true (slice tokens low high)

theorem closing_findsEnd (present : tokens[opener]? = some token)
    (opens : token.opens? = some bracket) :
    FindsEnd tokens opener limit bracket (closing tokens opener limit) := by
  have judged := @judged_closing tokens opener limit token bracket present opens
  cases found : closing tokens opener limit with
  | ok close =>
      rw [found] at judged
      exact ⟨judged, fun other ends => judged.eq ends present opens⟩
  | error error =>
      rw [found] at judged
      refine ⟨judged, fun close ends => ?_⟩
      cases found.symm.trans (ends.closing_eq present opens)

theorem parts_findsParts
    (rejects : ∀ token, isSeparator token = true → token.opens? = none ∧ token.closes? = none)
    (size : high ≤ tokens.size) :
    FindsParts tokens isSeparator low high (parts tokens isSeparator low high) := by
  have judged : Judged (parts tokens isSeparator low high) fun items =>
      Balanced true (slice tokens low high) ∧
        ∀ part ∈ items, Unseparated tokens isSeparator part.start part.stop := by
    unfold parts
    split
    next nonempty =>
      exact judged_partsFrom size rejects _ _ _ (slice_eq_nil tokens (Nat.le_refl _) ▸ .nil)
        (.empty low)
    next empty =>
      exact ⟨slice_eq_nil tokens (Nat.not_lt.mp empty) ▸ .nil, by simp⟩
  have sound := @sound_parts tokens isSeparator low high size
  have complete := @exists_parts_of_balanced tokens low high isSeparator size
  cases found : parts tokens isSeparator low high with
  | ok items =>
      rw [found] at judged sound
      obtain ⟨balanced, unseparated⟩ := judged
      obtain ⟨others, cut, each⟩ := complete balanced
      obtain rfl := Except.ok.inj (found.symm.trans cut)
      exact ⟨balanced, sound, fun part member => ⟨each part member, unseparated part member⟩⟩
  | error error =>
      rw [found] at judged
      refine ⟨judged, fun balanced => ?_⟩
      obtain ⟨items, cut, -⟩ := complete balanced
      cases found.symm.trans cut

/-- Wherever a pair is opened its end is found, if it has one before the limit. Whatever separates
parts, as long as it is no bracket, a range is cut into parts exactly if it is balanced. -/
theorem brackets_found (tokens : Array Token) :
    (∀ opener limit token bracket, tokens[opener]? = some token → token.opens? = some bracket →
      FindsEnd tokens opener limit bracket (closing tokens opener limit)) ∧
    (∀ (isSeparator : Token → Bool) (low high : Nat),
      (∀ token, isSeparator token = true → token.opens? = none ∧ token.closes? = none) →
      high ≤ tokens.size →
      FindsParts tokens isSeparator low high (parts tokens isSeparator low high)) :=
  ⟨fun _ _ _ _ present opens => closing_findsEnd present opens,
    fun _ _ _ rejects size => parts_findsParts rejects size⟩

/-- Pairs within a pair, with a comma in each, and one behind the last part. -/
theorem brackets_found_nestedList :
    (lex "(a[b,c],(),)")[0]? = some ⟨.delimiter, "(", 1, 1, ⟨0, 1⟩⟩ ∧
      (⟨.delimiter, "(", 1, 1, ⟨0, 1⟩⟩ : Token).opens? = some .round ∧
      FindsEnd (lex "(a[b,c],(),)") 0 12 .round (closing (lex "(a[b,c],(),)") 0 12) ∧
      (closing (lex "(a[b,c],(),)") 0 12).map (·.val) = .ok 11 ∧
      (∀ token : Token, token.isComma = true → token.opens? = none ∧ token.closes? = none) ∧
      11 ≤ (lex "(a[b,c],(),)").size ∧
      FindsParts (lex "(a[b,c],(),)") Token.isComma 1 11
        (parts (lex "(a[b,c],(),)") Token.isComma 1 11) ∧
      (parts (lex "(a[b,c],(),)") Token.isComma 1 11).map (·.map Part.range) =
        .ok [(1, 7), (8, 10), (11, 11)] := by
  have present : (lex "(a[b,c],(),)")[0]? = some ⟨.delimiter, "(", 1, 1, ⟨0, 1⟩⟩ := by
    decide +kernel
  have opens : (⟨.delimiter, "(", 1, 1, ⟨0, 1⟩⟩ : Token).opens? = some .round := by decide +kernel
  have rejects : ∀ token : Token, token.isComma = true →
      token.opens? = none ∧ token.closes? = none := by
    intro token isComma
    have separator := Token.tokenClass_of_isComma isComma
    simp [Token.opens?, Token.closes?, separator]
  have size : 11 ≤ (lex "(a[b,c],(),)").size := by decide +kernel
  obtain ⟨ends, cuts⟩ := brackets_found (lex "(a[b,c],(),)")
  exact ⟨present, opens, ends 0 12 _ .round present opens, by decide +kernel, rejects, size,
    cuts Token.isComma 1 11 rejects size, by decide +kernel⟩

end TnslReader
