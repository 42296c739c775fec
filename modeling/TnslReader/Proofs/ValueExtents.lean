import TnslReader.Grammar.Extent
import TnslReader.Proofs.Balance

/-!
Contract: where a value ends that is followed by something else.

The search for the end of a value keeps the bracket pairs that are open on a stack. What it goes
over closes them, one after the other from the inside, with a balanced piece before each closer and
behind the last one. That is the invariant of the search; at its beginning no pair is open, so the
whole extent is balanced.

Owns: what the search goes over, what it stops at, and where it stops at once or not at all.
-/

set_option autoImplicit false

namespace TnslReader

variable {tokens : Array Token}

/-- `ClosesAll pending text`: the text closes the pairs that are open, the innermost first, and is
balanced in between. Commas stand inside the pairs, those that are open and its own. -/
def ClosesAll : List Bracket → List Token → Prop
  | [], text => Balanced false text
  | bracket :: outer, text => ∃ within closer rest, text = within ++ closer :: rest ∧
      Balanced true within ∧ closer.closes? = some bracket ∧ ClosesAll outer rest

/-- A token that is no bracket may stand before, but no comma does where no pair is open. -/
theorem ClosesAll.cons_plain {pending : List Bracket} {token : Token} {rest : List Token}
    (opens : token.opens? = none) (closes : token.closes? = none)
    (comma : token.isComma = true → pending ≠ []) (later : ClosesAll pending rest) :
    ClosesAll pending (token :: rest) := by
  cases pending with
  | nil => exact Balanced.plain opens closes (fun isComma => absurd rfl (comma isComma)) later
  | cons bracket outer =>
      obtain ⟨within, closer, behind, rfl, balanced, closesBracket, later⟩ := later
      exact ⟨token :: within, closer, behind, rfl, .plain opens closes (fun _ => rfl) balanced,
        closesBracket, later⟩

/-- An opener before adds a pair that is closed first. -/
theorem ClosesAll.cons_opener {pending : List Bracket} {token : Token} {bracket : Bracket}
    {rest : List Token} (opens : token.opens? = some bracket)
    (later : ClosesAll (bracket :: pending) rest) : ClosesAll pending (token :: rest) := by
  obtain ⟨inner, innerCloser, rest, rfl, innerBalanced, innerCloses, later⟩ := later
  cases pending with
  | nil => exact Balanced.pair opens innerCloses innerBalanced later
  | cons outermost outer =>
      obtain ⟨within, closer, behind, rfl, balanced, closes, later⟩ := later
      exact ⟨token :: (inner ++ innerCloser :: within), closer, behind, by simp,
        .pair opens innerCloses innerBalanced balanced, closes, later⟩

structure ValueEnds (tokens : Array Token) (limit : Nat) (pending : List Bracket)
    (index stop : Nat) : Prop where
  index_le_stop : index ≤ stop
  stop_le_limit : stop ≤ limit
  closes : ClosesAll pending (slice tokens index stop)
  unended : ∀ token ∈ slice tokens index stop, token.endsStatement = false
  ended : stop < limit → ∀ token, tokens[stop]? = some token →
    token.endsStatement = true ∨ token.isComma = true ∨ token.isCloser = true

/-- A token before a value is part of it if it does not end one. -/
theorem ValueEnds.cons {limit index stop : Nat} {pending behind : List Bracket} {token : Token}
    (present : tokens[index]? = some token) (unended : token.endsStatement = false)
    (later : ValueEnds tokens limit behind (index + 1) stop)
    (closes : ∀ rest, ClosesAll behind rest → ClosesAll pending (token :: rest)) :
    ValueEnds tokens limit pending index stop := by
  have text := slice_eq_cons present later.index_le_stop
  refine ⟨Nat.le_of_succ_le later.index_le_stop, later.stop_le_limit, ?_, ?_, later.ended⟩
  · exact text ▸ closes _ later.closes
  · exact text ▸ List.forall_mem_cons.mpr ⟨unended, later.unended⟩

theorem ValueEnds.here {limit index : Nat} (index_le_limit : index ≤ limit)
    (ended : index < limit → ∀ token, tokens[index]? = some token →
      token.endsStatement = true ∨ token.isComma = true ∨ token.isCloser = true) :
    ValueEnds tokens limit [] index index := by
  have nothing := slice_eq_nil tokens (Nat.le_refl index)
  refine ⟨Nat.le_refl _, index_le_limit, ?_, ?_, ended⟩
  · exact nothing ▸ Balanced.nil
  · simp [nothing]

/-- The search ends where the value does, or fails. -/
theorem sound_valueExtentFrom {limit index : Nat} {pending : List (Nat × Bracket)}
    (size : limit ≤ tokens.size) (bound : index ≤ limit) :
    Sound tokens (valueExtentFrom tokens limit pending index)
      (ValueEnds tokens limit (pending.map Prod.snd) index) := by
  rw [valueExtentFrom.eq_def]
  split
  next inside =>
    refine (Sound.tokenAt (by omega)).bind fun token present => ?_
    have here (ends : token.endsStatement = true ∨ token.isComma = true ∨ token.isCloser = true) :
        ValueEnds tokens limit [] index index := by
      refine .here bound fun _ other otherPresent => ?_
      cases present.symm.trans otherPresent
      exact ends
    have behind (outer : List (Nat × Bracket)) :=
      @sound_valueExtentFrom limit (index + 1) outer size inside
    split
    next ends =>
      split
      · exact Sound.ok (here (.inl ends))
      · exact Sound.violationAt ..
    next notEnd =>
      have unended : token.endsStatement = false := by simpa using notEnd
      split
      next isComma =>
        simp only [Bool.and_eq_true, List.isEmpty_iff] at isComma
        obtain ⟨isComma, rfl⟩ := isComma
        exact Sound.ok (here (.inr (.inl isComma)))
      next notComma =>
        split
        next bracket opens =>
          exact (behind _).mono fun stop later =>
            later.cons present unended fun rest => ClosesAll.cons_opener opens
        next opens =>
          split
          next closes =>
            refine (behind _).mono fun stop later => later.cons present unended fun rest => ?_
            exact ClosesAll.cons_plain opens closes (by simpa using notComma)
          next closed closes =>
            exact Sound.ok (here (.inr (.inr (by simp [Token.isCloser, closes]))))
          next closed opener bracket outer closes =>
            split
            next same =>
              refine (behind _).mono fun stop later => later.cons present unended fun rest all => ?_
              exact ⟨[], token, rest, rfl, .nil, same ▸ closes, all⟩
            next => exact Sound.violationAt ..
  next ended =>
    obtain rfl := Nat.le_antisymm bound (Nat.not_lt.mp ended)
    split
    · exact Sound.ok (.here bound fun beyond => absurd beyond (Nat.lt_irrefl _))
    · exact Sound.violationAt ..
termination_by limit - index

theorem sound_valueExtent {index : Nat} (bound : index ≤ tokens.size) :
    Sound tokens (valueExtent tokens index tokens.size) fun stop =>
      stop ≤ tokens.size ∧ ∀ token, tokens[stop]? = some token →
        token.endsStatement = true ∨ token.isComma = true ∨ token.isCloser = true := by
  rw [valueExtent, Nat.min_self]
  refine (sound_valueExtentFrom (Nat.le_refl _) bound).mono fun stop ends => ?_
  exact ⟨ends.stop_le_limit, fun token present =>
    ends.ended (Array.getElem?_eq_some_iff.mp present).1 token present⟩

/-- A token that ends a value begins no other value. -/
theorem valueExtentFrom_eq {limit index : Nat} {token : Token} (inside : index < limit)
    (present : tokens[index]? = some token)
    (ends : token.endsStatement = true ∨ token.isComma = true ∨ token.isCloser = true) :
    valueExtentFrom tokens limit [] index = .ok index := by
  rw [valueExtentFrom, dif_pos inside, Sound.tokenAt_eq_ok present, Sound.ok_bind]
  by_cases endsStatement : token.endsStatement = true
  · simp only [endsStatement, ↓reduceIte]
    rfl
  · by_cases isComma : token.isComma = true
    · simp only [endsStatement, isComma, List.isEmpty_nil, Bool.and_self, Bool.false_eq_true,
        ↓reduceIte]
      rfl
    · have closes : token.isCloser = true := by simpa [endsStatement, isComma] using ends
      obtain ⟨bracket, closes⟩ := Option.isSome_iff_exists.mp closes
      simp only [endsStatement, isComma, Token.opens?_eq_none_of_closes? closes, closes,
        Bool.false_and, Bool.false_eq_true, ↓reduceIte]
      rfl

/-- A value of plain tokens goes on to the end of its range. -/
theorem valueExtentFrom_eq_limit {limit index : Nat} (index_le_limit : index ≤ limit)
    (size : limit ≤ tokens.size) (plain : ∀ token ∈ slice tokens index limit, token.IsPlain) :
    valueExtentFrom tokens limit [] index = .ok limit := by
  rw [valueExtentFrom]
  by_cases inside : index < limit
  · have present := Array.getElem?_eq_getElem (show index < tokens.size by omega)
    rw [slice_eq_cons present inside] at plain
    obtain ⟨here, later⟩ := List.forall_mem_cons.mp plain
    rw [dif_pos inside, Sound.tokenAt_eq_ok present, Sound.ok_bind]
    simp only [here.endsStatement, here.isComma, here.opens?, here.closes?, Bool.false_eq_true,
      ↓reduceIte, Bool.false_and]
    exact valueExtentFrom_eq_limit inside size later
  · obtain rfl := Nat.le_antisymm index_le_limit (Nat.not_lt.mp inside)
    rw [dif_neg inside]
termination_by limit - index

end TnslReader
