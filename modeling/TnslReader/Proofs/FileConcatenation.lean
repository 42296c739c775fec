import TnslReader.Proofs.SectionLikeness
import TnslReader.Proofs.SectionSoundness

/-!
Contract: files one behind the other.

A file may go on with a token that begins an item. What comes before that token is read as if it
stood alone, since every scan stops there; what comes from that token on is read as if nothing stood
before it, since all that was taken of the limits has been given back and no reading looks behind
itself.

The two halves are two likenesses. The joined stream is like the second file from the place on where
that begins, exactly and to the end. And the first file is like the beginning of the joined stream,
where no more is claimed than that what was read is read again.
-/

set_option autoImplicit false

namespace TnslReader

def Token.beginsItem (token : Token) : Bool :=
  token.isMarker .openCode || token.isMarker .openPreprocessor || token.isLineSeparator ';' ||
    token.isLineSeparator ':'

/-- A statement ends before every item. -/
theorem Token.endsStatement_of_beginsItem {token : Token} (begins : token.beginsItem = true) :
    token.endsStatement = true := by
  simp only [beginsItem, isMarker, isLineSeparator, Bool.or_eq_true, beq_iff_eq, Bool.and_eq_true]
    at begins
  rcases begins with ((marker | marker) | separator) | separator
  · simp [endsStatement, isBlockMarker, marker, show Marker.openCode.isBlockMarker from rfl]
  · simp [endsStatement, isBlockMarker, marker, show Marker.openPreprocessor.isBlockMarker from rfl]
  · simp [endsStatement, separator.1]
  · simp [endsStatement, separator.1]

namespace Likeness

variable {front rest : Array Token}

/-- The joined stream is like the second one, from where that begins. -/
def ofRest (front rest : Array Token) (limits : Limits) (nonempty : 0 < rest.size) :
    Likeness (front ++ rest) rest where
  offset := front.size
  low := 0
  high := rest.size
  tokenWithin index _ inside := by
    refine ⟨rest[index], ?_, Array.getElem?_eq_getElem inside⟩
    rw [Array.getElem?_append_right (Nat.le_add_right ..), Nat.add_sub_cancel_left,
      Array.getElem?_eq_getElem inside]
  small := limits
  large := limits
  within := ⟨Nat.le_refl _, Nat.le_refl _⟩
  excused _ := False
  exact := True
  limited := .inl rfl
  ending _ := by
    constructor
    · rw [Array.getElem?_eq_none (by simp), Array.getElem?_eq_none (Nat.le_refl _)]
    · rw [Array.back?_eq_getElem?, Array.back?_eq_getElem?, Array.size_append,
        Array.getElem?_append_right (by omega)]
      congr 1
      omega

/-- The first stream is like the beginning of the joined one. -/
def ofFront (front rest : Array Token) (limits : Limits) : Likeness front (front ++ rest) where
  offset := 0
  low := 0
  high := front.size
  tokenWithin index _ inside := by
    rw [Nat.zero_add]
    refine ⟨front[index], Array.getElem?_eq_getElem inside, ?_⟩
    rw [Array.getElem?_append_left inside, Array.getElem?_eq_getElem inside]
  small := limits
  large := limits
  within := ⟨Nat.le_refl _, Nat.le_refl _⟩
  excused _ := False
  exact := False
  limited := .inl rfl
  ending := False.elim

theorem reachesEnd_ofRest {limits : Limits} {nonempty : 0 < rest.size} :
    (ofRest front rest limits nonempty).ReachesEnd where
  low_eq := rfl
  size_eq := by simp [ofRest]
  high_le := Nat.le_refl _
  behind := .inl rfl

theorem readsSimple_ofFront {limits : Limits} {origin : FilePart × Usage} :
    ((ofFront front rest limits).excusing fun _ => True).ReadsSimple origin :=
  (readsSimple_of_unexcused fun _ => id).excusing

theorem reachesEnd_ofFront {limits : Limits} {token : Token}
    (present : rest[0]? = some token) (ends : token.endsStatement = true) :
    ((ofFront front rest limits).excusing fun _ => True).ReachesEnd where
  low_eq := rfl
  size_eq := by simp [excusing, ofFront]
  high_le := by simp [excusing, ofFront]
  behind := by
    refine .inr ⟨fun _ => .inr trivial, token, ?_, ends⟩
    have : (front ++ rest)[front.size]? = rest[0]? := by
      rw [Array.getElem?_append_right (Nat.le_refl _), Nat.sub_self]
    exact this.trans present

end Likeness

/-- Behind the first file, the joined stream is read as the second file is from its beginning. -/
theorem rootItemsFrom_rest {front rest : Array Token} {usage : Usage} (nonempty : 0 < rest.size) :
    rootItemsFrom (front ++ rest) front.size usage = rootItemsFrom rest 0 usage := by
  have alike : (Likeness.ofRest front rest usage.limits nonempty).AlikeFrom usage usage
      (rootItemsFrom (front ++ rest) front.size) (rootItemsFrom rest 0) Eq :=
    Likeness.rootItemsFrom_alikeFrom (Likeness.readsSimple_of_unexcused fun _ => id)
      Likeness.reachesEnd_ofRest rfl ⟨rfl, Nat.le_refl _, Nat.zero_le _⟩ ⟨rfl, rfl, rfl, rfl⟩ .refl
  exact alike.eq_of_exact trivial fun _ => id

/-- An item of the first file is the same item in the joined stream, and ends in the first file. -/
theorem item_append {front rest : Array Token} {usage after : Usage} {token : Token} {start : Nat}
    {stray : Violation} {found : Advance (Option Node) (start + 1)} (present : rest[0]? = some token)
    (ends : token.endsStatement = true) (bound : start ≤ front.size)
    (read : item front stray start usage = .ok found after) :
    after = usage ∧ item (front ++ rest) stray start usage = .ok found usage ∧
      found.next ≤ front.size := by
  have alike : ((Likeness.ofFront front rest usage.limits).excusing fun _ => True).AlikeFrom
      usage usage (item front stray start) (item (front ++ rest) stray start)
      (Likeness.Advances _) :=
    Likeness.item_alikeFrom Likeness.readsSimple_ofFront
      (Likeness.reachesEnd_ofFront present ends) ⟨(Nat.zero_add _).symm, Nat.zero_le _, bound⟩
      ⟨rfl, rfl, rfl, rfl⟩ .refl
  unfold Likeness.AlikeFrom at alike
  rw [read] at alike
  obtain ⟨rfl, other, otherRead, sameNode, next_eq, -, next_le⟩ := alike
  have sameNext : found.next = other.next := next_eq.trans (Nat.zero_add _)
  obtain rfl : found = other := by
    cases found
    cases other
    simp_all
  exact ⟨rfl, otherRead, next_le⟩

/-- From a place in the first file on, the joined stream has the items of the first file and then
those behind it. -/
theorem rootItemsFrom_append {front rest : Array Token} {usage after : Usage} {token : Token}
    {items : List Node} {start : Nat} (present : rest[0]? = some token)
    (ends : token.endsStatement = true) (bound : start ≤ front.size)
    (read : rootItemsFrom front start usage = .ok items after) :
    rootItemsFrom (front ++ rest) start usage =
      (do
        let later ← rootItemsFrom (front ++ rest) front.size
        return items ++ later : Reading (List Node)) usage := by
  rw [rootItemsFrom] at read
  by_cases inside : start < front.size
  · rw [dif_pos inside] at read
    obtain ⟨⟨node, behind, start_lt_behind⟩, middle, itemRead, restRead⟩ :=
      Reading.exists_ok_of_bind read
    obtain ⟨nodes, last, laterRead, answered⟩ := Reading.exists_ok_of_bind restRead
    obtain ⟨rfl, -⟩ : node.toList ++ nodes = items ∧ last = after := by
      injection answered with sameItems sameUsage
      exact ⟨sameItems, sameUsage⟩
    obtain ⟨rfl, joinedRead, behind_le⟩ := item_append present ends bound itemRead
    have later := rootItemsFrom_append present ends behind_le laterRead
    rw [rootItemsFrom, dif_pos (by simp; omega), Reading.bind_eq_of_ok joinedRead]
    dsimp only
    rw [Reading.bind_congr_left later]
    simp only [bind_assoc, pure_bind, List.append_assoc]
  · rw [dif_neg inside] at read
    cases read
    obtain rfl : start = front.size := by omega
    simp
termination_by front.size - start

/-- A file that goes on where an item begins has the items of both its parts, or the error of the
second part. -/
theorem readTree_append {front rest : Array Token} {label : String} {limits : Limits} {root : Node}
    (begins : ∀ token, rest[0]? = some token → token.beginsItem = true)
    (read : readTree front label limits = .ok root) :
    readTree (front ++ rest) label limits = (readTree rest label limits).map fun later =>
      { later with children := root.children ++ later.children } := by
  unfold readTree at read
  cases answered : (rootItemsFrom front 0).answer (.none limits) with
  | error error => simp [answered, Except.map] at read
  | ok items =>
      rw [answered] at read
      obtain rfl := Except.ok.inj read
      obtain ⟨after, ran⟩ : ∃ after, rootItemsFrom front 0 (.none limits) = .ok items after := by
        unfold Reading.answer at answered
        cases ran : rootItemsFrom front 0 (.none limits) <;> simp_all
      rcases Nat.eq_zero_or_pos rest.size with empty | nonempty
      · obtain rfl : rest = #[] := Array.eq_empty_of_size_eq_zero empty
        rw [Array.append_empty, readTree, readTree, answered, rootItemsFrom]
        simp [Reading.answer, Except.map, pure, EStateM.pure]
      · have ends := Token.endsStatement_of_beginsItem
          (begins rest[0] (Array.getElem?_eq_getElem nonempty))
        have joined : rootItemsFrom (front ++ rest) 0 (.none limits) = _ :=
          rootItemsFrom_append (Array.getElem?_eq_getElem nonempty) ends (Nat.zero_le _) ran
        rw [Reading.bind_congr_left (rootItemsFrom_rest nonempty)] at joined
        rw [readTree, readTree, Reading.answer, joined]
        change (Reading.answer (rootItemsFrom rest 0 >>= fun later => pure (items ++ later))
          (.none limits)).map _ = _
        rw [Reading.answer_bind_pure]
        cases (rootItemsFrom rest 0).answer (.none limits) <;> rfl

/-- The tokens of `;x`. -/
def bareWord : Array Token :=
  #[⟨.lineSeparator, ";", 1, 1, ⟨0, 1⟩⟩, ⟨.userWord, "x", 1, 2, ⟨1, 2⟩⟩]

/-- The tokens of `/; f ;/`. -/
def emptyFunction : Array Token :=
  #[⟨.delimiter, "/;", 1, 1, ⟨0, 2⟩⟩, ⟨.userWord, "f", 1, 4, ⟨3, 4⟩⟩,
    ⟨.delimiter, ";/", 1, 6, ⟨5, 7⟩⟩]

/-- A function behind a statement without an end of its own is an item of its own. -/
theorem readTree_append_emptyFunction :
    readTree (bareWord ++ emptyFunction) "file" .standard =
      .ok ⟨.root, .root "file",
        [.tagged .valueStatement bareWord[1] [.leaf .identifier bareWord[1]],
          .tagged .block emptyFunction[0]
            [.tagged .header emptyFunction[0] [.leaf .identifier emptyFunction[1]]]]⟩ := by
  have front : readTree bareWord "file" .standard =
      .ok ⟨.root, .root "file",
        [.tagged .valueStatement bareWord[1] [.leaf .identifier bareWord[1]]]⟩ := by
    decide +kernel
  have rest : readTree emptyFunction "file" .standard =
      .ok ⟨.root, .root "file", [.tagged .block emptyFunction[0]
        [.tagged .header emptyFunction[0] [.leaf .identifier emptyFunction[1]]]]⟩ := by
    decide +kernel
  have begins : ∀ token, emptyFunction[0]? = some token → token.beginsItem = true := by
    intro token present
    cases present
    decide
  rw [readTree_append begins front, rest]
  rfl

end TnslReader
