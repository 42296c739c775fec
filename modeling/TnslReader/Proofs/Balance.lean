import TnslReader.Grammar.Bracketing
import TnslReader.Proofs.Ensures
import TnslReader.Proofs.TokenFacts

/-!
Contract: balanced text, and how the search for the end of a bracket pair goes through it.

`Balanced` texts have all brackets paired by kind. Markers and ends of statements may stand anywhere
in them, and commas outside the brackets if that is said. The same is told by a stack: `stillOpen`
goes over a text with the pairs that are open, and a text is balanced if it leaves the stack as it
was. The first form is what scanners pass over. The second one makes cuts easy, since a stack goes
over one piece behind the other. `balanced_iff_stillOpen` joins the two.

Owns:
- balanced texts, and that a balanced text less a balanced beginning is balanced;
- `closing` finds the closer that a balanced text leads to, and finds one at every opener of a
  balanced range.
-/

set_option autoImplicit false

namespace TnslReader

/-- `Balanced separated text`: the brackets of the text are paired by kind, and it has commas
outside its brackets only if it is separated by them. -/
inductive Balanced : Bool → List Token → Prop where
  | nil {separated : Bool} : Balanced separated []
  | plain {separated : Bool} {token : Token} {rest : List Token} (opens : token.opens? = none)
      (closes : token.closes? = none) (comma : token.isComma = true → separated = true)
      (later : Balanced separated rest) : Balanced separated (token :: rest)
  | pair {separated : Bool} {opener closer : Token} {bracket : Bracket} {text rest : List Token}
      (opens : opener.opens? = some bracket) (closes : closer.closes? = some bracket)
      (within : Balanced true text) (later : Balanced separated rest) :
      Balanced separated (opener :: (text ++ closer :: rest))

/-- What one token does to the pairs that are open, the innermost first. There is no answer for a
closer that meets no pair of its kind. -/
def bracketStep (pending : List Bracket) (token : Token) : Option (List Bracket) :=
  match token.opens? with
  | some bracket => some (bracket :: pending)
  | none =>
      match token.closes?, pending with
      | none, _ => some pending
      | some _, [] => none
      | some closed, bracket :: outer => if closed = bracket then some outer else none

/-- The pairs that are open behind a text, if those `pending` are open before it. -/
def stillOpen (pending : List Bracket) (text : List Token) : Option (List Bracket) :=
  text.foldlM bracketStep pending

/-! ### The stack -/

section Stack

variable {pending : List Bracket} {token : Token} {bracket : Bracket} {text rest : List Token}

theorem stillOpen_append :
    stillOpen pending (text ++ rest) =
      (stillOpen pending text).bind fun middle => stillOpen middle rest :=
  List.foldlM_append

theorem stillOpen_cons_of_opens? (opens : token.opens? = some bracket) :
    stillOpen pending (token :: rest) = stillOpen (bracket :: pending) rest := by
  simp [stillOpen, bracketStep, opens]

theorem stillOpen_cons_of_plain (opens : token.opens? = none) (closes : token.closes? = none) :
    stillOpen pending (token :: rest) = stillOpen pending rest := by
  simp [stillOpen, bracketStep, opens, closes]

theorem stillOpen_cons_of_closes? (closes : token.closes? = some bracket) :
    stillOpen (bracket :: pending) (token :: rest) = stillOpen pending rest := by
  simp [stillOpen, bracketStep, Token.opens?_eq_none_of_closes? closes, closes]

/-- A closer that is not refused closes the innermost pair. -/
theorem exists_of_stillOpen_closer {last : List Bracket} (closes : token.closes? = some bracket)
    (ran : stillOpen pending (token :: rest) = some last) :
    ∃ outer, pending = bracket :: outer ∧ stillOpen outer rest = some last := by
  cases pending with
  | nil => simp [stillOpen, bracketStep, Token.opens?_eq_none_of_closes? closes, closes] at ran
  | cons innermost outer =>
      by_cases same : bracket = innermost
      · subst same
        exact ⟨outer, rfl, stillOpen_cons_of_closes? closes ▸ ran⟩
      · simp [stillOpen, bracketStep, Token.opens?_eq_none_of_closes? closes, closes, same] at ran

/-- A stack that a text empties has its innermost pair closed behind a balanced piece. -/
theorem exists_closer_of_stillOpen {bracket : Bracket} {pending : List Bracket}
    {text : List Token} (ran : stillOpen (bracket :: pending) text = some []) :
    ∃ within closer rest, text = within ++ closer :: rest ∧ Balanced true within ∧
      closer.closes? = some bracket ∧ stillOpen pending rest = some [] := by
  match text with
  | [] => cases ran
  | token :: text =>
      cases opens : token.opens? with
      | some inner =>
          rw [stillOpen_cons_of_opens? opens] at ran
          obtain ⟨first, firstCloser, behind, split, firstBalanced, firstCloses, ran⟩ :=
            exists_closer_of_stillOpen ran
          have shorter : behind.length < text.length := by
            rw [split, List.length_append, List.length_cons]
            omega
          obtain ⟨second, closer, rest, rfl, secondBalanced, closes, ran⟩ :=
            exists_closer_of_stillOpen ran
          exact ⟨token :: (first ++ firstCloser :: second), closer, rest, by simp [split],
            .pair opens firstCloses firstBalanced secondBalanced, closes, ran⟩
      | none =>
          cases closes : token.closes? with
          | none =>
              rw [stillOpen_cons_of_plain opens closes] at ran
              obtain ⟨within, closer, rest, rfl, balanced, isCloser, ran⟩ :=
                exists_closer_of_stillOpen ran
              exact ⟨token :: within, closer, rest, rfl,
                .plain opens closes (fun _ => rfl) balanced, isCloser, ran⟩
          | some closed =>
              obtain ⟨outer, same, ran⟩ := exists_of_stillOpen_closer closes ran
              cases same
              exact ⟨[], token, text, rfl, .nil, closes, ran⟩
termination_by text.length
decreasing_by all_goals simp only [List.length_cons]; omega

end Stack

namespace Balanced

variable {separated : Bool} {text rest : List Token}

theorem append (first : Balanced separated text) (second : Balanced separated rest) :
    Balanced separated (text ++ rest) := by
  induction first with
  | nil => exact second
  | plain opens closes comma _ inductionHypothesis =>
      exact .plain opens closes comma (inductionHypothesis second)
  | pair opens closes within _ _ inductionHypothesis =>
      simpa using Balanced.pair opens closes within (inductionHypothesis second)

theorem toSeparated (balanced : Balanced separated text) : Balanced true text := by
  induction balanced with
  | nil => exact .nil
  | plain opens closes _ _ inductionHypothesis =>
      exact .plain opens closes (fun _ => rfl) inductionHypothesis
  | pair opens closes within _ _ inductionHypothesis =>
      exact .pair opens closes within inductionHypothesis

/-- A balanced text leaves the stack as it was. -/
theorem stillOpen_eq (balanced : Balanced separated text) (pending : List Bracket) :
    stillOpen pending text = some pending := by
  induction balanced generalizing pending with
  | nil => rfl
  | plain opens closes _ _ inductionHypothesis =>
      rw [stillOpen_cons_of_plain opens closes, inductionHypothesis]
  | pair opens closes _ _ withinHypothesis laterHypothesis =>
      rw [stillOpen_cons_of_opens? opens, stillOpen_append, withinHypothesis, Option.bind_some,
        stillOpen_cons_of_closes? closes, laterHypothesis]

end Balanced

/-- A text is balanced exactly if it opens nothing that it does not close, and closes nothing that
it did not open. -/
theorem balanced_iff_stillOpen {text : List Token} :
    Balanced true text ↔ stillOpen [] text = some [] := by
  constructor
  · exact fun balanced => balanced.stillOpen_eq []
  · intro ran
    match text with
    | [] => exact .nil
    | token :: text =>
        cases opens : token.opens? with
        | some bracket =>
            rw [stillOpen_cons_of_opens? opens] at ran
            obtain ⟨within, closer, rest, split, balanced, closes, ran⟩ :=
              exists_closer_of_stillOpen ran
            have shorter : rest.length < text.length := by
              rw [split, List.length_append, List.length_cons]
              omega
            rw [split]
            exact .pair opens closes balanced (balanced_iff_stillOpen.mpr ran)
        | none =>
            cases closes : token.closes? with
            | none =>
                rw [stillOpen_cons_of_plain opens closes] at ran
                exact .plain opens closes (fun _ => rfl) (balanced_iff_stillOpen.mpr ran)
            | some closed =>
                obtain ⟨outer, none, -⟩ := exists_of_stillOpen_closer closes ran
                cases none
termination_by text.length
decreasing_by all_goals simp only [List.length_cons]; omega

namespace Balanced

variable {separated : Bool} {text rest : List Token} {token : Token}

/-- What stands behind a balanced beginning of a balanced text is balanced. -/
theorem of_append (balanced : Balanced true (text ++ rest)) (first : Balanced separated text) :
    Balanced true rest := by
  have ran := balanced_iff_stillOpen.mp balanced
  rw [stillOpen_append, first.stillOpen_eq, Option.bind_some] at ran
  exact balanced_iff_stillOpen.mpr ran

/-- A balanced text does not begin with a closer. -/
theorem closes?_head (balanced : Balanced separated (token :: rest)) : token.closes? = none := by
  cases balanced with
  | plain _ closes _ _ => exact closes
  | pair opens _ _ _ => exact Token.closes?_eq_none_of_opens? opens

theorem tail (balanced : Balanced separated (token :: rest)) (opens : token.opens? = none) :
    Balanced separated rest := by
  cases balanced with
  | plain _ _ _ later => exact later
  | pair opensBracket _ _ _ => cases opens.symm.trans opensBracket

/-- A balanced text that begins with an opener begins with a pair. -/
theorem exists_pair {bracket : Bracket} (balanced : Balanced separated (token :: rest))
    (opens : token.opens? = some bracket) :
    ∃ within closer later, rest = within ++ closer :: later ∧ Balanced true within ∧
      closer.closes? = some bracket ∧ Balanced separated later := by
  cases balanced with
  | plain opensNone _ _ _ => cases opensNone.symm.trans opens
  | pair opensBracket closes within later =>
      cases opensBracket.symm.trans opens
      exact ⟨_, _, _, rfl, within, closes, later⟩

end Balanced

/-! ### The end of a bracket pair -/

variable {tokens : Array Token} {opener limit : Nat}

/-- The search for the end of a pair passes over balanced text. -/
theorem closingFrom_balanced {separated : Bool} {text : List Token}
    (balanced : Balanced separated text) :
    ∀ {bracket : Bracket} {outer : List Bracket} {index mid : Nat} (behind : opener < index)
      (index_le_mid : index ≤ mid) (_ : slice tokens index mid = text) (_ : mid ≤ limit)
      (_ : mid ≤ tokens.size),
      closingFrom tokens opener limit bracket outer index behind =
        closingFrom tokens opener limit bracket outer mid (by omega) := by
  induction balanced with
  | nil =>
      intro bracket outer index mid behind index_le_mid equal _ bound
      have lengths := congrArg List.length equal
      rw [length_slice bound, List.length_nil] at lengths
      have : index = mid := by omega
      subst this
      rfl
  | plain opens closes _ _ inductionHypothesis =>
      intro bracket outer index mid behind index_le_mid equal limited bound
      obtain ⟨index_lt_mid, present, rest⟩ := eq_cons_of_slice equal
      rw [closingFrom, dif_pos (show index < limit by omega)]
      simp only [present, opens, closes]
      exact inductionHypothesis _ index_lt_mid rest limited bound
  | @pair _ _ _ inner _ _ opens closes _ _ withinHypothesis laterHypothesis =>
      intro bracket outer index mid behind index_le_mid equal limited bound
      obtain ⟨index_lt_mid, present, rest⟩ := eq_cons_of_slice equal
      obtain ⟨seam, index_lt_seam, seam_le_mid, inside, outside⟩ :=
        eq_append_of_slice rest index_lt_mid bound
      obtain ⟨seam_lt_mid, closerPresent, after⟩ := eq_cons_of_slice outside
      rw [closingFrom, dif_pos (show index < limit by omega)]
      simp only [present, opens]
      rw [withinHypothesis (by omega) index_lt_seam inside (by omega) (by omega), closingFrom,
        dif_pos (show seam < limit by omega)]
      simp only [closerPresent, Token.opens?_eq_none_of_closes? closes, closes, ↓reduceIte]
      exact laterHypothesis _ seam_lt_mid after limited bound

/-- A pair around balanced text is closed by the token behind that text. -/
theorem closing_balanced {separated : Bool} {text : List Token} (balanced : Balanced separated text)
    {close : Nat} {token closer : Token} {bracket : Bracket}
    (present : tokens[opener]? = some token) (opens : token.opens? = some bracket)
    (inside : slice tokens (opener + 1) close = text) (behind : opener < close)
    (closerPresent : tokens[close]? = some closer) (closes : closer.closes? = some bracket)
    (close_lt_limit : close < limit) :
    closing tokens opener limit = .ok ⟨close, behind, close_lt_limit⟩ := by
  have bound := (Array.getElem?_eq_some_iff.mp closerPresent).1
  unfold closing
  simp only [present, Option.bind_some, opens]
  rw [closingFrom_balanced balanced (opener.lt_succ_self) behind inside (by omega) (by omega),
    closingFrom, dif_pos close_lt_limit]
  simp only [closerPresent, Token.opens?_eq_none_of_closes? closes, closes, ↓reduceIte]

/-- An opener at which a balanced range begins has a closer in it. What is within the pair, the pair
itself and what is behind it are balanced. -/
theorem exists_closing {token : Token} {bracket : Bracket} {index high : Nat}
    (present : tokens[index]? = some token) (opens : token.opens? = some bracket)
    (inside : index < high) (size : high ≤ tokens.size)
    (balanced : Balanced true (slice tokens index high)) :
    ∃ (close : Nat) (index_lt_close : index < close) (close_lt_high : close < high),
      closing tokens index high = .ok ⟨close, index_lt_close, close_lt_high⟩ ∧
        Balanced true (slice tokens (index + 1) close) ∧
        Balanced true (slice tokens index (close + 1)) ∧
        Balanced true (slice tokens (close + 1) high) := by
  have text := slice_eq_cons present inside
  rw [text] at balanced
  obtain ⟨within, closer, later, rest, withinBalanced, closes, laterBalanced⟩ :=
    balanced.exists_pair opens
  obtain ⟨close, index_lt_close, close_lt_high, -, rfl, closerPresent, rfl⟩ :=
    eq_pair_of_slice (text.trans (congrArg _ rest)) size
  have pair := slice_eq_pair present index_lt_close closerPresent (Nat.lt_succ_self close)
  refine ⟨close, index_lt_close, close_lt_high, closing_balanced withinBalanced present opens rfl
    index_lt_close closerPresent closes close_lt_high, withinBalanced, ?_, laterBalanced⟩
  rw [pair, slice_eq_nil tokens (Nat.le_refl _)]
  exact .pair opens closes withinBalanced .nil

end TnslReader
