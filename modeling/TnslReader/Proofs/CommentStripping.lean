import Mathlib.Data.List.Basic
import TnslReader.Token.Comment

/-!
Contract: what is left of tokens when comments are removed, token by token.

Owns:
- what is left of a list of tokens, and whether a comment is open behind it;
- that what is left lies where the tokens lay, and what each token that is left was before;
- that tokens without comment markers are all left as they are, and that none are left of a comment.
-/

set_option autoImplicit false

namespace TnslReader

/-- Whether the token is a marker that opens or closes a comment: one of `/#`, `#/`, `;#`, `:#`,
`#;` and `#:`. -/
def Token.isCommentMarker (token : Token) : Bool :=
  token.marker?.any (!·.isBlockMarker)

namespace Marker

def left? (marker : Marker) : Option Marker :=
  marker.leftByOpening?.or marker.leftByClosing?

theorem closesComment_of_touches (marker : Marker) (touches : (!marker.isBlockMarker) = true)
    (opens : ¬marker.opensComment = true) : marker.closesComment = true := by
  cases marker <;> revert touches opens <;> decide

theorem leftByOpening?_eq_none (marker : Marker) (opens : ¬marker.opensComment = true) :
    marker.leftByOpening? = none := by
  cases marker <;> revert opens <;> decide

theorem eq_closeComment (marker : Marker) (closes : marker.closesComment = true)
    (leftBy : marker.leftByClosing? = none) : marker = .closeComment := by
  cases marker <;> revert closes leftBy <;> decide

theorem isBlockMarker_of_left? {marker left : Marker} (leaves : marker.left? = some left) :
    left.isBlockMarker = true := by
  cases marker <;> cases leaves <;> rfl

end Marker

namespace Comment

/-! ### Lists of tokens -/

/-- What is left of tokens that stand inside or outside a comment. -/
def remains (inComment : Bool) : List Token → List Token
  | [] => []
  | token :: tokens =>
      (resolve inComment token).1.toList ++ remains (resolve inComment token).2 tokens

def isOpenAfter (inComment : Bool) : List Token → Bool
  | [] => inComment
  | token :: tokens => isOpenAfter (resolve inComment token).2 tokens

theorem foldl_stripStep (tokens : List Token) (left : Array Token) (inComment : Bool) :
    tokens.foldl stripStep (left, inComment) =
      (left ++ (remains inComment tokens).toArray, isOpenAfter inComment tokens) := by
  induction tokens generalizing left inComment with
  | nil => simp [remains, isOpenAfter]
  | cons token tokens inductionHypothesis =>
      rw [List.foldl_cons, stripStep, inductionHypothesis]
      refine Prod.ext (Array.ext' ?_) rfl
      simp [remains]

theorem toList_strip (tokens : Array Token) :
    (strip tokens).toList = remains false tokens.toList := by
  rw [strip, ← Array.foldl_toList, foldl_stripStep]
  simp

theorem remains_append (inComment : Bool) (tokens others : List Token) :
    remains inComment (tokens ++ others) =
      remains inComment tokens ++ remains (isOpenAfter inComment tokens) others := by
  induction tokens generalizing inComment with
  | nil => rfl
  | cons token tokens inductionHypothesis =>
      rw [List.cons_append, remains, remains, isOpenAfter, inductionHypothesis,
        List.append_assoc]

/-! ### One token -/

theorem resolve_of_not_isCommentMarker {token : Token} (plain : token.isCommentMarker = false)
    (inComment : Bool) :
    resolve inComment token = (if inComment then none else some token, inComment) := by
  unfold Token.isCommentMarker at plain
  unfold resolve
  cases found : token.marker? with
  | none => rfl
  | some marker =>
      rw [found] at plain
      cases marker <;> first | rfl | cases plain

inductive Leaves : Token → Token → Prop where
  | kept {token : Token}
      (keeps : ∀ marker, token.marker? = some marker →
        marker.isBlockMarker = true ∨ marker = .closeComment) : Leaves token token
  | respelled {token : Token} {marker left : Marker} (found : token.marker? = some marker)
      (leaves : marker.left? = some left) :
      Leaves token (token.respelled token.tokenClass left.spelling)

theorem Leaves.place_eq {token left : Token} (leaves : Leaves token left) :
    left.span = token.span ∧ left.line = token.line ∧ left.column = token.column := by
  cases leaves <;> exact ⟨rfl, rfl, rfl⟩

theorem leaves_of_resolve {inComment : Bool} {token left : Token}
    (resolved : (resolve inComment token).1 = some left) : Leaves token left := by
  by_cases comments : token.isCommentMarker = true
  · obtain ⟨marker, found, touches⟩ := (Option.any_eq_true _ _).mp comments
    unfold resolve at resolved
    rw [found] at resolved
    by_cases opens : marker.opensComment = true
    · simp only [opens, if_true] at resolved
      split_ifs at resolved with inside
      obtain ⟨leaves, leftBy, rfl⟩ := Option.map_eq_some_iff.mp resolved
      exact .respelled found (by rw [Marker.left?, leftBy, Option.some_or])
    · have closes := marker.closesComment_of_touches touches opens
      simp only [opens, Bool.false_eq_true, if_false, closes, if_true] at resolved
      cases leftBy : marker.leftByClosing? with
      | none =>
          rw [leftBy, Option.map_none, Option.none_or] at resolved
          split_ifs at resolved with inside
          rw [← Option.some.inj resolved]
          apply Leaves.kept
          intro other isOther
          rw [found, Option.some.injEq] at isOther
          exact .inr (isOther ▸ marker.eq_closeComment closes leftBy)
      | some leaves =>
          rw [leftBy, Option.map_some, Option.some_or] at resolved
          rw [← Option.some.inj resolved]
          exact .respelled found (by
            rw [Marker.left?, marker.leftByOpening?_eq_none opens, leftBy, Option.none_or])
  · have plain : token.isCommentMarker = false := by simpa using comments
    rw [resolve_of_not_isCommentMarker plain] at resolved
    split_ifs at resolved with inside
    rw [← Option.some.inj resolved]
    apply Leaves.kept
    intro marker found
    exact .inl (by simpa [Token.isCommentMarker, found] using plain)

/-! ### What is left of a list -/

theorem exists_leaves_of_mem_remains {inComment : Bool} {tokens : List Token} {left : Token}
    (member : left ∈ remains inComment tokens) : ∃ token ∈ tokens, Leaves token left := by
  induction tokens generalizing inComment with
  | nil => cases member
  | cons token tokens inductionHypothesis =>
      rcases List.mem_append.mp member with here | later
      · exact ⟨token, List.mem_cons_self, leaves_of_resolve (Option.mem_toList.mp here)⟩
      · obtain ⟨origin, inLater, leaves⟩ := inductionHypothesis later
        exact ⟨origin, List.mem_cons_of_mem token inLater, leaves⟩

/-- Whatever a token keeps that is left stands in order among what the tokens were. -/
theorem map_remains_sublist {Kept : Type} {keep : Token → Kept}
    (keeps : ∀ token left, Leaves token left → keep left = keep token) (inComment : Bool)
    (tokens : List Token) : ((remains inComment tokens).map keep).Sublist (tokens.map keep) := by
  induction tokens generalizing inComment with
  | nil => exact .refl []
  | cons token tokens inductionHypothesis =>
      have later := inductionHypothesis (resolve inComment token).2
      rw [remains, List.map_append, List.map_cons]
      cases resolved : (resolve inComment token).1 with
      | none => exact later.cons (keep token)
      | some left =>
          rw [Option.toList_some, List.map_singleton, keeps token left (leaves_of_resolve resolved)]
          exact later.cons_cons (keep token)

/-- The tokens that are left keep their places, in order. -/
theorem span_remains_sublist (inComment : Bool) (tokens : List Token) :
    ((remains inComment tokens).map (·.span)).Sublist (tokens.map (·.span)) :=
  map_remains_sublist (fun _ _ leaves => leaves.place_eq.1) inComment tokens

theorem remains_of_plain {tokens : List Token}
    (plain : ∀ token ∈ tokens, token.isCommentMarker = false) (inComment : Bool) :
    remains inComment tokens = (if inComment then [] else tokens) ∧
      isOpenAfter inComment tokens = inComment := by
  induction tokens with
  | nil => simp [remains, isOpenAfter]
  | cons token tokens inductionHypothesis =>
      obtain ⟨here, later⟩ := List.forall_mem_cons.mp plain
      have resolved := resolve_of_not_isCommentMarker here inComment
      obtain ⟨left, closed⟩ := inductionHypothesis later
      rw [remains, isOpenAfter, resolved]
      refine ⟨?_, closed⟩
      rw [left]
      cases inComment <;> rfl

/-- A comment that begins and ends on its own leaves nothing. -/
theorem remains_comment {opening closing : Token} {tokens : List Token}
    (opens : opening.marker? = some .openComment)
    (plain : ∀ token ∈ tokens, token.isCommentMarker = false)
    (closes : closing.marker? = some .closeComment) (others : List Token) :
    remains false (opening :: (tokens ++ closing :: others)) = remains false others := by
  have opened : resolve false opening = (none, true) := by
    unfold resolve
    rw [opens]
    rfl
  have closed : resolve true closing = (none, false) := by
    unfold resolve
    rw [closes]
    rfl
  obtain ⟨dropped, stillOpen⟩ := remains_of_plain plain true
  rw [remains, opened, remains_append, dropped, stillOpen, remains, closed]
  rfl

end Comment

end TnslReader
