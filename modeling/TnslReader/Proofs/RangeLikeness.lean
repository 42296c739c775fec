import TnslReader.Grammar.Bracketing
import TnslReader.Grammar.Split
import TnslReader.Proofs.Likeness

/-!
Contract: scans of a range, side by side.

The scans that cut a range, at the end of a bracket pair, at its separators or at its operators,
have the same answers in two streams that are alike, each answer at the index that corresponds.
-/

set_option autoImplicit false

namespace TnslReader

namespace Likeness

variable {first second : Array Token} {likeness : Likeness first second}

/-! ### Bracket pairs -/

theorem agree_closingFrom {opener otherOpener start index stop limit : Nat} {bracket : Bracket}
    {outer : List Bracket} {behind : opener < start} {otherBehind : otherOpener < index}
    (openers : likeness.Maps opener otherOpener) (starts : likeness.Maps start index)
    (stops : likeness.Maps stop limit) :
    likeness.Agree (closingFrom first opener stop bracket outer start behind)
      (closingFrom second otherOpener limit bracket outer index otherBehind)
      fun close otherClose => close.val = likeness.offset + otherClose.val := by
  have unclosed := violationAt_meets .unclosedBracket openers
  rw [closingFrom.eq_def first, closingFrom.eq_def second]
  refine agree_dite (by omega) (fun _ inside => ?_) (fun _ _ => agree_error unclosed)
  obtain ⟨token, firstPresent, secondPresent⟩ := exists_token starts (by omega)
  simp only [firstPresent, secondPresent]
  cases token.opens? with
  | some inner => exact agree_closingFrom openers (by omega) stops
  | none =>
      cases token.closes? with
      | none => exact agree_closingFrom openers (by omega) stops
      | some closed =>
          refine agree_ite Iff.rfl (fun _ _ => ?_) fun _ _ =>
            agree_violationAt _ starts
          cases outer with
          | nil => exact agree_ok starts.1
          | cons => exact agree_closingFrom openers (by omega) stops
termination_by limit - index

/-- A bracket pair ends at corresponding indexes. -/
theorem agree_closing {start index stop limit : Nat} {token : Token} {bracket : Bracket}
    (starts : likeness.Maps start index) (stops : likeness.Maps stop limit)
    (inside : index < likeness.high) (firstPresent : first[start]? = some token)
    (secondPresent : second[index]? = some token) (opens : token.opens? = some bracket) :
    likeness.Agree (closing first start stop) (closing second index limit)
      fun close otherClose => close.val = likeness.offset + otherClose.val := by
  simp only [closing, firstPresent, secondPresent, Option.bind_some, opens]
  exact agree_closingFrom starts (by omega) stops

/-- To look for the end of a pair is to go on behind it in both streams. -/
theorem alike_closing_bind {α β : Type} {related : α → β → Prop} {start index stop limit : Nat}
    {next : { close : Nat // start < close ∧ close < stop } → Reading α}
    {otherNext : { close : Nat // index < close ∧ close < limit } → Reading β} {token : Token}
    {bracket : Bracket} (starts : likeness.Maps start index) (stops : likeness.Maps stop limit)
    (inside : index < likeness.high) (firstPresent : first[start]? = some token)
    (secondPresent : second[index]? = some token) (opens : token.opens? = some bracket)
    (later : ∀ close otherClose, likeness.Maps close otherClose →
      ∀ (start_lt_close : start < close) (close_lt_stop : close < stop)
        (index_lt_close : index < otherClose) (close_lt_limit : otherClose < limit),
        likeness.Alike (next ⟨close, start_lt_close, close_lt_stop⟩)
          (otherNext ⟨otherClose, index_lt_close, close_lt_limit⟩) related) :
    likeness.Alike (liftM (closing first start stop) >>= next)
      (liftM (closing second index limit) >>= otherNext) related := by
  refine (alike_lift (agree_closing starts stops inside firstPresent secondPresent opens)).bind ?_
  rintro ⟨close, start_lt_close, close_lt_stop⟩ ⟨otherClose, index_lt_close, close_lt_limit⟩ same
  dsimp only at same
  exact later close otherClose (by omega) start_lt_close close_lt_stop index_lt_close close_lt_limit

/-! ### Parts -/

def MapsPart (likeness : Likeness first second) {start stop low high : Nat}
    (part : Part start stop) (other : Part low high) : Prop :=
  likeness.Maps part.start other.start ∧ likeness.Maps part.stop other.stop

theorem agree_partsFrom {isSeparator : Token → Bool}
    {start stop cut position low high origin index : Nat}
    {start_le_cut : start ≤ cut} {cut_le_position : cut ≤ position}
    {position_le_stop : position ≤ stop} {low_le_origin : low ≤ origin}
    {origin_le_index : origin ≤ index} {index_le_high : index ≤ high}
    (cuts : likeness.Maps cut origin) (positions : likeness.Maps position index)
    (stops : likeness.Maps stop high) :
    likeness.Agree
      (partsFrom first isSeparator start stop cut position start_le_cut cut_le_position
        position_le_stop)
      (partsFrom second isSeparator low high origin index low_le_origin origin_le_index
        index_le_high)
      (List.Forall₂ likeness.MapsPart) := by
  rw [partsFrom.eq_def first, partsFrom.eq_def second]
  refine agree_dite (by omega) (fun _ inside => ?_) fun _ _ =>
    agree_ok (.cons ⟨cuts, stops⟩ .nil)
  obtain ⟨token, firstPresent, secondPresent⟩ := exists_token positions (by omega)
  refine agree_tokenAt_bind firstPresent secondPresent ?_
  refine agree_ite Iff.rfl (fun opener _ => ?_) (fun _ _ => ?_)
  · obtain ⟨bracket, opens⟩ := Option.isSome_iff_exists.mp opener
    refine (agree_closing positions stops (by omega) firstPresent secondPresent opens).bind ?_
    rintro ⟨close, _, _⟩ ⟨otherClose, _, _⟩ same
    dsimp only at same ⊢
    exact agree_partsFrom cuts (by omega) stops
  · refine agree_ite Iff.rfl (fun _ _ => agree_violationAt _ positions) (fun _ _ => ?_)
    refine agree_ite Iff.rfl (fun _ _ => ?_) fun _ _ => agree_partsFrom cuts (by omega) stops
    refine (agree_partsFrom (by omega) (by omega) stops).bind fun later others matched => ?_
    exact agree_ok (.cons ⟨cuts, positions⟩ matched)
termination_by high - index

/-- The parts of a range lie between corresponding indexes. -/
theorem agree_parts {isSeparator : Token → Bool} {start stop low high : Nat}
    (starts : likeness.Maps start low) (stops : likeness.Maps stop high) :
    likeness.Agree (parts first isSeparator start stop) (parts second isSeparator low high)
      (List.Forall₂ likeness.MapsPart) := by
  unfold parts
  refine agree_dite (by omega) (fun _ _ => ?_) fun _ _ => agree_ok .nil
  exact agree_partsFrom starts starts stops

/-! ### Operators between operands -/

def MapsJoint (likeness : Likeness first second) {start stop low high : Nat}
    (joint : Joint start stop) (other : Joint low high) : Prop :=
  likeness.Maps joint.index other.index ∧ joint.order = other.order

def MapsLink (likeness : Likeness first second) {start stop low high : Nat}
    (link : Link start stop) (other : Link low high) : Prop :=
  likeness.Maps link.operator other.operator ∧ likeness.Maps link.stop other.stop ∧
    other.operator < likeness.high

theorem agree_jointsFrom {start stop position low high index depth : Nat} {behindOperand : Bool}
    {start_le_position : start ≤ position} {low_le_index : low ≤ index}
    {behindFirst : behindOperand = true → start < position}
    {otherBehindFirst : behindOperand = true → low < index}
    (positions : likeness.Maps position index) (stops : likeness.Maps stop high) :
    likeness.Agree
      (jointsFrom first start stop position depth behindOperand start_le_position behindFirst)
      (jointsFrom second low high index depth behindOperand low_le_index otherBehindFirst)
      (List.Forall₂ likeness.MapsJoint) := by
  rw [jointsFrom.eq_def first, jointsFrom.eq_def second]
  refine agree_dite (by omega) (fun _ inside => ?_) fun _ _ => agree_ok .nil
  obtain ⟨token, firstPresent, secondPresent⟩ := exists_token positions (by omega)
  refine agree_tokenAt_bind firstPresent secondPresent ?_
  refine agree_ite Iff.rfl (fun _ _ => agree_jointsFrom (by omega) stops) (fun _ _ => ?_)
  refine agree_ite Iff.rfl (fun _ _ => ?_) (fun _ _ => ?_)
  · cases depth with
    | zero => exact agree_violationAt _ positions
    | succ => exact agree_jointsFrom (by omega) stops
  · refine agree_dite Iff.rfl (fun _ _ => ?_) fun _ _ => agree_jointsFrom (by omega) stops
    cases token.order? with
    | none => exact agree_jointsFrom (by omega) stops
    | some order =>
        refine (agree_jointsFrom (by omega) stops).bind fun later others matched => ?_
        exact agree_ok (.cons ⟨positions, rfl⟩ matched)
termination_by high - index

theorem loosestOrder_eq {start stop low high : Nat} {joints : List (Joint start stop)}
    {others : List (Joint low high)} (matched : List.Forall₂ likeness.MapsJoint joints others) :
    loosestOrder joints = loosestOrder others := by
  have orders : joints.map (·.order) = others.map (·.order) := by
    induction matched with
    | nil => rfl
    | cons here _ inductionHypothesis =>
        rw [List.map_cons, List.map_cons, here.2, inductionHypothesis]
  have folds {low high : Nat} (joints : List (Joint low high)) :
      loosestOrder joints = (joints.map (·.order)).foldl max 0 := by
    rw [loosestOrder, List.foldl_map]
  rw [folds, folds, orders]

/-- A range is split at corresponding operators. -/
theorem agree_splitPoints {start stop low high : Nat} (starts : likeness.Maps start low)
    (stops : likeness.Maps stop high) :
    likeness.Agree (splitPoints first start stop) (splitPoints second low high)
      (List.Forall₂ likeness.MapsJoint) := by
  unfold splitPoints
  refine (agree_jointsFrom starts stops).bind fun joints others matched => agree_ok ?_
  refine List.rel_filter (fun joint other here => ?_) matched
  dsimp only
  rw [loosestOrder_eq matched, here.2]

theorem mapsLink_links {start stop low high : Nat} (stops : likeness.Maps stop high)
    {joints : List (Joint start stop)} {others : List (Joint low high)}
    (matched : List.Forall₂ likeness.MapsJoint joints others) :
    List.Forall₂ likeness.MapsLink (links joints) (links others) := by
  induction matched with
  | nil => exact .nil
  | @cons joint other _ _ here later inductionHypothesis =>
      have inside : other.index < likeness.high := Nat.lt_of_lt_of_le other.index_lt_high stops.2.2
      cases later with
      | nil => exact .cons ⟨here.1, stops, inside⟩ .nil
      | cons next _ => exact .cons ⟨here.1, next.1, inside⟩ inductionHypothesis

end Likeness

end TnslReader
