import Mathlib.Data.List.ReduceOption
import TnslReader.Proofs.CommentStripping
import TnslReader.Proofs.TokenFacts

/-!
Contract: what becomes of each token when comments are removed, said without the bit that is carried
from one token to the next.

A token stands within a comment if a marker that opens one stands before it and none that closes one
stands between the two. What becomes of a token depends on that and on the marker that it is. What is
left holds no comment markers but ends of comments that nothing began, and these stand outside of
comments there as well. So nothing is left to be removed.

Owns:
- where tokens stand within comments;
- what becomes of each token, and in which places the tokens stand that are left;
- that what is left is left as it is.
-/

set_option autoImplicit false

namespace TnslReader

namespace Token

def opensComment (token : Token) : Bool :=
  token.marker?.any (·.opensComment)

def closesComment (token : Token) : Bool :=
  token.marker?.any (·.closesComment)

end Token

namespace Comment

/-! ### Within a comment -/

/-- Whether a token behind these tokens stands within a comment: a marker among them opens one, and
none behind that marker closes one. -/
def IsWithin (before : List Token) : Prop :=
  ∃ first opening between, before = first ++ opening :: between ∧ opening.opensComment = true ∧
    ∀ token ∈ between, token.closesComment = false

theorem not_isWithin_nil : ¬IsWithin [] := by
  rintro ⟨first, opening, between, split, -⟩
  simp at split

theorem isWithin_concat {before : List Token} {token : Token} :
    IsWithin (before ++ [token]) ↔
      token.opensComment = true ∨ IsWithin before ∧ token.closesComment = false := by
  constructor
  · rintro ⟨first, opening, between, split, opens, unclosed⟩
    cases between using List.reverseRecOn with
    | nil =>
        obtain ⟨-, same⟩ := List.append_inj' split rfl
        rw [List.singleton_inj.mp same]
        exact .inl opens
    | append_singleton between last =>
        rw [← List.cons_append, ← List.append_assoc] at split
        obtain ⟨rfl, same⟩ := List.append_inj' split rfl
        rw [List.singleton_inj.mp same]
        obtain ⟨earlier, atLast⟩ := List.forall_mem_append.mp unclosed
        exact .inr ⟨⟨first, opening, between, rfl, opens, earlier⟩,
          atLast last List.mem_cons_self⟩
  · rintro (opens | ⟨⟨first, opening, between, rfl, opens, unclosed⟩, stays⟩)
    · exact ⟨before, token, [], rfl, opens, by simp⟩
    · refine ⟨first, opening, between ++ [token], by simp, opens, ?_⟩
      exact List.forall_mem_append.mpr ⟨unclosed, List.forall_mem_singleton.mpr stays⟩

/-- Whether the next token stands within a comment is what the bit that is passed on to it says. -/
theorem resolve_snd (inComment : Bool) (token : Token) :
    (resolve inComment token).2 =
      (token.opensComment || (inComment && !token.closesComment)) := by
  unfold resolve Token.opensComment Token.closesComment
  cases token.marker? with
  | none => simp
  | some marker => cases marker <;> cases inComment <;> rfl

/-! ### Each token -/

/-- `Settles within token left`: what is left of a token that stands within a comment or outside of
all. -/
inductive Settles (within : Prop) (token : Token) : Option Token → Prop where
  /-- Outside of comments all stay but the markers that open or close one. Of these `#/` stays. -/
  | kept (outside : ¬within) (stays : ∀ marker, token.marker? = some marker →
        marker.isBlockMarker = true ∨ marker = .closeComment) : Settles within token (some token)
  /-- Within a comment all go but `#;` and `#:`, markers that open a comment among them. -/
  | dropped (inside : within) (goes : ∀ marker, token.marker? = some marker →
        marker ≠ .commentToCode ∧ marker ≠ .commentToPreprocessor) : Settles within token none
  | opened (outside : ¬within) (found : token.marker? = some .openComment) :
      Settles within token none
  | codeClosed (outside : ¬within) (found : token.marker? = some .codeToComment) :
      Settles within token (some { token with text := ";/" })
  | preprocessorClosed (outside : ¬within) (found : token.marker? = some .preprocessorToComment) :
      Settles within token (some { token with text := ":/" })
  | codeOpened (found : token.marker? = some .commentToCode) :
      Settles within token (some { token with text := "/;" })
  | preprocessorOpened (found : token.marker? = some .commentToPreprocessor) :
      Settles within token (some { token with text := "/:" })

theorem settles_resolve {within : Prop} {inComment : Bool} (same : inComment = true ↔ within)
    (token : Token) : Settles within token (resolve inComment token).1 := by
  by_cases comments : token.isCommentMarker = true
  · obtain ⟨marker, found, touches⟩ := (Option.any_eq_true _ _).mp comments
    unfold resolve
    rw [found]
    cases inComment with
    | false =>
        have outside : ¬within := by simpa using same
        cases marker with
        | openComment => exact .opened outside found
        | closeComment => exact .kept outside (by simp [found])
        | codeToComment => exact .codeClosed outside found
        | preprocessorToComment => exact .preprocessorClosed outside found
        | commentToCode => exact .codeOpened found
        | commentToPreprocessor => exact .preprocessorOpened found
        | _ => cases touches
    | true =>
        have inside : within := same.mp rfl
        cases marker with
        | openComment | closeComment | codeToComment | preprocessorToComment =>
            exact .dropped inside (by simp [found])
        | commentToCode => exact .codeOpened found
        | commentToPreprocessor => exact .preprocessorOpened found
        | _ => cases touches
  · rw [Bool.not_eq_true] at comments
    rw [resolve_of_not_isCommentMarker comments]
    have blocks : ∀ marker, token.marker? = some marker → marker.isBlockMarker = true := by
      intro marker found
      simpa [Token.isCommentMarker, found] using comments
    cases inComment with
    | false => exact .kept (by simpa using same) fun marker found => .inl (blocks marker found)
    | true =>
        refine .dropped (same.mp rfl) fun marker found => ?_
        have blocks := blocks marker found
        constructor <;> rintro rfl <;> cases blocks

/-- What is left of the tokens is what is left of each. -/
theorem exists_fates {inComment : Bool} {before : List Token}
    (same : inComment = true ↔ IsWithin before) (tokens : List Token) :
    ∃ fates : List (Option Token), fates.length = tokens.length ∧
      remains inComment tokens = fates.reduceOption ∧
      ∀ index token fate, tokens[index]? = some token → fates[index]? = some fate →
        Settles (IsWithin (before ++ tokens.take index)) token fate := by
  induction tokens generalizing inComment before with
  | nil => exact ⟨[], rfl, rfl, by simp⟩
  | cons first tokens inductionHypothesis =>
      have sameBehind : (resolve inComment first).2 = true ↔ IsWithin (before ++ [first]) := by
        simp [resolve_snd, isWithin_concat, same]
      obtain ⟨fates, sameLength, left, settles⟩ := inductionHypothesis sameBehind
      refine ⟨(resolve inComment first).1 :: fates, by simp [sameLength], ?_, ?_⟩
      · rw [remains, left]
        cases (resolve inComment first).1 with
        | none => rw [List.reduceOption_cons_of_none, Option.toList_none, List.nil_append]
        | some kept => rw [List.reduceOption_cons_of_some, Option.toList_some, List.singleton_append]
      · intro index token fate here atIndex
        cases index with
        | zero =>
            obtain rfl := Option.some.inj here
            obtain rfl := Option.some.inj atIndex
            rw [List.take_zero, List.append_nil]
            exact settles_resolve same first
        | succ index =>
            have later := settles index token fate here atIndex
            rw [List.append_assoc, List.singleton_append] at later
            exact later

/-! ### What is left -/

/-- What is left of a token is no comment marker, or the end of a comment that nothing began. -/
theorem Leaves.stays {token left : Token} (leaves : Leaves token left) {marker : Marker}
    (found : left.marker? = some marker) :
    marker.isBlockMarker = true ∨ marker = .closeComment := by
  cases leaves with
  | kept keeps => exact keeps marker found
  | @respelled _ other isMarker leaves =>
      have isDelimiter := Token.tokenClass_of_marker? isMarker
      simp only [Token.marker?, Token.respelled, isDelimiter, Marker.ofSpelling?_spelling,
        Option.some.injEq] at found
      exact .inl (found ▸ Marker.isBlockMarker_of_left? leaves)

/-- Tokens that stay outside of comments are all left as they are. -/
theorem remains_of_stays {tokens : List Token}
    (stays : ∀ token ∈ tokens, ∀ marker, token.marker? = some marker →
      marker.isBlockMarker = true ∨ marker = .closeComment) : remains false tokens = tokens := by
  induction tokens with
  | nil => rfl
  | cons token tokens inductionHypothesis =>
      obtain ⟨here, later⟩ := List.forall_mem_cons.mp stays
      have resolved : resolve false token = (some token, false) := by
        by_cases comments : token.isCommentMarker = true
        · obtain ⟨marker, found, touches⟩ := (Option.any_eq_true _ _).mp comments
          have closes : marker = .closeComment :=
            (here marker found).resolve_left (by simpa using touches)
          unfold resolve
          rw [found, closes]
          rfl
        · exact resolve_of_not_isCommentMarker (Bool.not_eq_true _ ▸ comments) false
      rw [remains, resolved, inductionHypothesis later, Option.toList_some, List.singleton_append]

/-- What is left of tokens is what is left of each of them, which depends on the markers in front of
it only. All that is left keeps its place, no marker among it touches a comment but ends of comments
that nothing began, and nothing of it would be removed. -/
theorem strip_settles (tokens : Array Token) :
    (∃ fates : List (Option Token), fates.length = tokens.size ∧
      (strip tokens).toList = fates.reduceOption ∧
      ∀ index token fate, tokens[index]? = some token → fates[index]? = some fate →
        Settles (IsWithin (tokens.toList.take index)) token fate) ∧
    ((strip tokens).toList.map fun token => (token.line, token.column, token.span)).Sublist
      (tokens.toList.map fun token => (token.line, token.column, token.span)) ∧
    (∀ token ∈ strip tokens, ∀ marker ∈ [Marker.openComment, .codeToComment,
      .preprocessorToComment, .commentToCode, .commentToPreprocessor],
        token.marker? ≠ some marker) ∧
    strip (strip tokens) = strip tokens := by
  have stays : ∀ token ∈ (strip tokens).toList, ∀ marker, token.marker? = some marker →
      marker.isBlockMarker = true ∨ marker = .closeComment := by
    intro token member marker found
    rw [toList_strip] at member
    obtain ⟨origin, -, leaves⟩ := exists_leaves_of_mem_remains member
    exact leaves.stays found
  refine ⟨?_, ?_, ?_, ?_⟩
  · have same : false = true ↔ IsWithin [] := by simp [not_isWithin_nil]
    obtain ⟨fates, sameLength, left, settles⟩ := exists_fates same tokens.toList
    simp only [Array.getElem?_toList] at settles
    exact ⟨fates, sameLength, (toList_strip tokens).trans left, settles⟩
  · rw [toList_strip]
    apply map_remains_sublist
    intro token left leaves
    obtain ⟨span_eq, line_eq, column_eq⟩ := leaves.place_eq
    simp only [span_eq, line_eq, column_eq]
  · intro token member marker touches found
    rcases stays token (Array.mem_toList_iff.mpr member) marker found with blocks | rfl
    · revert blocks
      fin_cases touches <;> decide
    · simp at touches
  · apply Array.ext'
    rw [toList_strip (strip tokens), remains_of_stays stays]

/-- Markers within a comment, of which the second opens none, and one that ends no comment. -/
example : (lex "x ;# n /# m #: y #/ z").map (·.text) = #["x", ";/", "/:", "y", "#/", "z"] := by
  decide +kernel

end Comment

end TnslReader
