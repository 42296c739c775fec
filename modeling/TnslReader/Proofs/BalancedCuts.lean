import TnslReader.Proofs.Joints
import TnslReader.Proofs.ValueNesting

/-!
Contract: a balanced range is cut into balanced ranges.

The search for the operators of a chain counts how many pairs are open and does not look at their
kinds. Over a balanced text its count is the height of the stack, so where it finds nothing open the
text so far is balanced, and so are the operands between the operators. The parts of a list skip
pair by pair, which never fails in a balanced range.
-/

set_option autoImplicit false

namespace TnslReader

/-! ### The operators of a chain -/

variable {tokens : Array Token} {low high : Nat}

/-- One token opens or closes a pair for the scan where it does for the stack. -/
theorem exists_scanStep_of_bracketStep (index : Nat) (behindOperand : Bool)
    {pending next : List Bracket} {token : Token}
    (stepped : bracketStep pending token = some next) :
    ∃ noted, scanStep index pending.length behindOperand token = some (noted, next.length) := by
  unfold bracketStep at stepped
  unfold scanStep
  cases opens : token.opens? with
  | some bracket =>
      rw [opens] at stepped
      cases stepped
      exact ⟨[], by simp [Token.isOpener, opens]⟩
  | none =>
      simp only [opens] at stepped
      cases closes : token.closes? with
      | none =>
          simp only [closes, Option.some.injEq] at stepped
          subst stepped
          simp only [Token.isOpener, opens, Option.isSome_none, Bool.false_eq_true, ↓reduceIte,
            Token.isCloser, closes]
          split
          · exact ⟨_, rfl⟩
          · exact ⟨_, rfl⟩
      | some closed =>
          cases pending with
          | nil => simp [closes] at stepped
          | cons bracket outer =>
              simp only [closes] at stepped
              split at stepped
              next =>
                cases stepped
                exact ⟨[], by simp [Token.isOpener, opens, Token.isCloser, closes]⟩
              next => cases stepped

/-- The scan of a text has as many pairs open behind it as the stack. -/
theorem exists_scan_of_stillOpen (index : Nat) (behindOperand : Bool)
    {pending last : List Bracket} {text : List Token}
    (ran : stillOpen pending text = some last) :
    ∃ found behind, scan index pending.length behindOperand text =
      some (found, last.length, behind) := by
  induction text generalizing index behindOperand pending with
  | nil =>
      cases ran
      exact ⟨[], behindOperand, rfl⟩
  | cons token rest inductionHypothesis =>
      obtain ⟨next, stepped, ran⟩ := Option.bind_eq_some_iff.mp ran
      obtain ⟨noted, scanned⟩ := exists_scanStep_of_bracketStep index behindOperand stepped
      obtain ⟨found, behind, later⟩ := inductionHypothesis (index + 1) token.endsOperand ran
      exact ⟨noted ++ found, behind, by rw [scan, scanned, Option.bind_some, later]; rfl⟩

/-- A beginning of a balanced text behind which a scan has no pair open is balanced. -/
theorem Balanced.of_scan {index : Nat} {behindOperand behind : Bool} {text rest : List Token}
    {found : List (Nat × Nat)} (balanced : Balanced true (text ++ rest))
    (scanned : scan index 0 behindOperand text = some (found, 0, behind)) : Balanced true text := by
  have ran := balanced_iff_stillOpen.mp balanced
  rw [stillOpen_append] at ran
  obtain ⟨middle, ran, -⟩ := Option.bind_eq_some_iff.mp ran
  obtain ⟨others, otherBehind, counted⟩ := exists_scan_of_stillOpen index behindOperand ran
  have none : middle.length = 0 := by
    have same := scanned.symm.trans counted
    simp only [Option.some.injEq, Prod.mk.injEq] at same
    exact same.2.1.symm
  rw [List.length_eq_zero_iff.mp none] at ran
  exact balanced_iff_stillOpen.mpr ran

/-- A balanced range is cut at operators, and up to each of them, and behind it, it is balanced. -/
theorem exists_splitPoints_of_balanced (size : high ≤ tokens.size)
    (balanced : Balanced true (slice tokens low high)) :
    ∃ points, splitPoints tokens low high = .ok points ∧ ∀ point ∈ points,
      Balanced true (slice tokens low point.index) ∧
        Balanced true (slice tokens low (point.index + 1)) := by
  have agrees := @splitPoints_agrees tokens low high size
  cases split : splitPoints tokens low high with
  | error error =>
      rw [split] at agrees
      obtain ⟨found, behind, scanned⟩ :=
        exists_scan_of_stillOpen low false (balanced_iff_stillOpen.mp balanced)
      exact absurd (agrees.2.symm.trans scanned) (by simp)
  | ok points =>
      rw [split] at agrees
      obtain ⟨found, loosest, ⟨state, scanned⟩, -, -, points_eq⟩ := agrees
      refine ⟨points, rfl, fun point member => ?_⟩
      have noted : point.noted ∈ found := by
        have kept : point.noted ∈ points.map Joint.noted := List.mem_map_of_mem member
        exact List.mem_of_mem_filter (points_eq ▸ kept)
      obtain ⟨before, after, rfl⟩ := List.append_of_mem noted
      have low_lt_index := point.low_lt_index
      have index_lt_high := point.index_lt_high
      obtain ⟨-, -, operator, present, ordered, beforeScanned, -⟩ :=
        scan_slice_split size (by omega) scanned
      have here : Balanced true (slice tokens low point.index) := by
        rw [← slice_append tokens (Nat.le_of_lt low_lt_index) (Nat.le_of_lt index_lt_high)]
          at balanced
        exact balanced.of_scan beforeScanned
      refine ⟨here, ?_⟩
      have plain := Token.isPlain_of_order? ordered
      rw [slice_succ present (Nat.le_of_lt low_lt_index)]
      exact here.append (.plain plain.opens? plain.closes? (fun _ => rfl) .nil)

/-- The operand behind an operator of a balanced range is balanced. -/
theorem balanced_of_mem_links {points : List (Joint low high)}
    (balanced : Balanced true (slice tokens low high))
    (cut : ∀ point ∈ points, Balanced true (slice tokens low point.index) ∧
      Balanced true (slice tokens low (point.index + 1))) :
    ∀ link ∈ links points, Balanced true (slice tokens (link.operator + 1) link.stop) := by
  have between {operator stop : Nat} (low_le_operator : low ≤ operator)
      (before : Balanced true (slice tokens low (operator + 1)))
      (upTo : Balanced true (slice tokens low stop)) :
      Balanced true (slice tokens (operator + 1) stop) := by
    rcases Nat.le_total (operator + 1) stop with ordered | empty
    · rw [← slice_append tokens (Nat.le_succ_of_le low_le_operator) ordered] at upTo
      exact upTo.of_append before
    · rw [slice_eq_nil tokens empty]
      exact .nil
  induction points with
  | nil => simp [links]
  | cons first later inductionHypothesis =>
      obtain ⟨here, cutLater⟩ := List.forall_mem_cons.mp cut
      have low_le_first := Nat.le_of_lt first.low_lt_index
      cases later with
      | nil => simpa [links] using between low_le_first here.2 balanced
      | cons next rest =>
          rw [links, List.forall_mem_cons]
          exact ⟨between low_le_first here.2 (cutLater next (by simp)).1,
            inductionHypothesis cutLater⟩

/-! ### The parts of a range -/

theorem exists_partsFrom_of_balanced {isSeparator : Token → Bool} {start index : Nat}
    (size : high ≤ tokens.size) (low_le_start : low ≤ start) (start_le_index : start ≤ index)
    (index_le_high : index ≤ high) (before : Balanced true (slice tokens start index))
    (behind : Balanced true (slice tokens index high)) :
    ∃ items, partsFrom tokens isSeparator low high start index low_le_start start_le_index
        index_le_high = .ok items ∧
      ∀ part ∈ items, Balanced true (slice tokens part.start part.stop) := by
  by_cases inside : index < high
  · have present := Array.getElem?_eq_getElem (show index < tokens.size by omega)
    have text := slice_eq_cons present inside
    generalize tokens[index] = token at *
    cases opens : token.opens? with
    | some bracket =>
        obtain ⟨close, index_lt_close, close_lt_high, closed, -, pair, later⟩ :=
          exists_closing present opens inside size behind
        have start_le_close : start ≤ close + 1 := by omega
        rw [partsFrom_of_opener inside present opens, closed, Sound.ok_bind]
        refine exists_partsFrom_of_balanced size low_le_start start_le_close close_lt_high ?_ later
        rw [← slice_append tokens start_le_index (Nat.le_succ_of_le (Nat.le_of_lt index_lt_close))]
        exact before.append pair
    | none =>
        rw [text] at behind
        have closes := behind.closes?_head
        cases separates : isSeparator token with
        | true =>
            obtain ⟨items, cut, each⟩ := exists_partsFrom_of_balanced size
              (Nat.le_succ_of_le (Nat.le_trans low_le_start start_le_index)) (Nat.le_refl _) inside
              (slice_eq_nil tokens (Nat.le_refl _) ▸ .nil) (behind.tail opens)
            rw [partsFrom_of_separator inside present opens closes separates, cut, Sound.ok_bind]
            exact ⟨_, rfl, List.forall_mem_cons.mpr ⟨before, each⟩⟩
        | false =>
            have upTo := slice_succ present start_le_index
            rw [partsFrom_of_plain inside present opens closes separates]
            exact exists_partsFrom_of_balanced size low_le_start
              (Nat.le_succ_of_le start_le_index) inside
              (upTo ▸ before.append (.plain opens closes (fun _ => rfl) .nil)) (behind.tail opens)
  · obtain rfl := Nat.le_antisymm index_le_high (Nat.not_lt.mp inside)
    rw [partsFrom_end]
    exact ⟨_, rfl, by simpa using before⟩
termination_by high - index

theorem exists_parts_of_balanced {isSeparator : Token → Bool} (size : high ≤ tokens.size)
    (balanced : Balanced true (slice tokens low high)) :
    ∃ items, parts tokens isSeparator low high = .ok items ∧
      ∀ part ∈ items, Balanced true (slice tokens part.start part.stop) := by
  unfold parts
  split
  next nonempty =>
    exact exists_partsFrom_of_balanced size _ _ _ (slice_eq_nil tokens (Nat.le_refl _) ▸ .nil)
      balanced
  next => exact ⟨[], rfl, by simp⟩

end TnslReader
