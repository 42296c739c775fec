import TnslReader.Proofs.ValueReading

/-!
Contract: the reading of a type answers with just the trees that the grammar gives to the beginning
of a range, and reaches as far as the range goes on with the type.

A value fills its range, but a type ends somewhere in its own, and what comes behind it is for
others to read. So two things are said of an answer: the tokens up to where it ends are a type with
its tree, and those behind are no more of it. The second does not say that no longer type begins the
range. The reading looks one or two tokens ahead and never comes back, so no type is read of `int`
and a bracket that is never closed.

In a parameter the reading refuses `static` behind the qualifiers before it asks for the class of
the word. The grammar would take one with the class of a built-in type for the base of the type.

Owns: the exactness of the reading of types. Both directions are assembled from what is said of the
reading of each piece.
-/

set_option autoImplicit false

namespace TnslReader

variable {tokens : Array Token} {inParameter : Bool} {low high : Nat} {usage : Usage}

/-- What is read is a type that does not go on, under any limits. -/
theorem isType_of_typeAt (size : high ≤ tokens.size) {found : Advance Node low}
    (answered : (typeAt tokens inParameter low high).answer usage = .ok found) :
    found.next ≤ high ∧ IsType inParameter (slice tokens low found.next) found.result ∧
      ¬found.result.GoesOn inParameter (slice tokens found.next high) ∧
      (inParameter = true → ¬MeetsStatic (slice tokens low found.next)) := by
  have sound := (@typeAt_ensures tokens inParameter low high usage size).2
  rw [answered] at sound
  obtain ⟨next_le_high, type, stops, apart⟩ := sound
  exact ⟨next_le_high, ⟨_, _, type⟩, stops, apart⟩

/-- A type is read unless a limit is reached, and none is with as much room as the range has
tokens. -/
theorem typeAt_answers_of_isType (size : high ≤ tokens.size)
    (unreached : usage.HasRoomFor (high - low) ∨
      ∀ error, (typeAt tokens inParameter low high).answer usage = .error error → ¬error.IsLimit)
    {found : Advance Node low} (next_le_high : found.next ≤ high)
    (isType : IsType inParameter (slice tokens low found.next) found.result)
    (stops : ¬found.result.GoesOn inParameter (slice tokens found.next high))
    (apart : inParameter = true → ¬MeetsStatic (slice tokens low found.next)) :
    (typeAt tokens inParameter low high).answer usage = .ok found := by
  obtain ⟨depth, chain, type⟩ := isType
  have answers {depth chain : Nat}
      (type : TypeText inParameter depth chain (slice tokens low found.next) found.result) :
      (typeAt tokens inParameter low high).Answers usage (usage.Covers depth chain) found :=
    typeAt_answers rfl found.le_next next_le_high size stops apart type
  rcases unreached with room | unlimited
  · have length : (slice tokens low found.next).length ≤ high - low := by
      rw [length_slice (by omega)]
      omega
    exact (answers (type.widen (.inr length) (.inr length))).answer_eq room.covers
  · exact (answers type).answer_eq_of_unlimited unlimited

/-- With limits that are not reached, a type is read from the beginning of a range exactly if the
tokens up to where it ends are a type with its tree, those behind are no more of it, and in a
parameter its qualifiers do not end before `static`. -/
theorem typeAt_eq_ok_iff_isType (size : high ≤ tokens.size)
    (unreached : usage.HasRoomFor (high - low) ∨
      ∀ error, (typeAt tokens inParameter low high).answer usage = .error error → ¬error.IsLimit)
    (found : Advance Node low) :
    (typeAt tokens inParameter low high).answer usage = .ok found ↔
      found.next ≤ high ∧ IsType inParameter (slice tokens low found.next) found.result ∧
        ¬found.result.GoesOn inParameter (slice tokens found.next high) ∧
        (inParameter = true → ¬MeetsStatic (slice tokens low found.next)) := by
  constructor
  · exact isType_of_typeAt size
  · rintro ⟨next_le_high, isType, stops, apart⟩
    exact typeAt_answers_of_isType size unreached next_le_high isType stops apart

/-- The tokens of ``io.File` file``. -/
def referredFile : Array Token :=
  #[⟨.userWord, "io", 1, 1, ⟨0, 2⟩⟩, ⟨.operator, ".", 1, 3, ⟨2, 3⟩⟩,
    ⟨.userWord, "File", 1, 4, ⟨3, 7⟩⟩, ⟨.operator, "`", 1, 8, ⟨7, 8⟩⟩,
    ⟨.userWord, "file", 1, 10, ⟨9, 13⟩⟩]

def referredFileType : Node :=
  .tagged .type referredFile[0] [.leaf .pathSegment referredFile[0],
    ⟨.typeName, referredFile[2], []⟩, .leaf .backReference referredFile[3]]

/-- The type of ``io.File` file`` takes the path and the mark, and the name is left. -/
theorem typeAt_referredFile :
    (typeAt referredFile true 0 5).answer (.none .standard) =
      .ok ⟨referredFileType, 4, by decide⟩ := by
  apply (typeAt_eq_ok_iff_isType (by decide) (.inl (by constructor <;> decide)) _).mpr
  have path : NameText [referredFile[0], referredFile[1], referredFile[2]]
      [.leaf .pathSegment referredFile[0]] referredFile[2] :=
    .dotted (.dot rfl (by decide) (.word rfl))
  have mark : ReferenceText true [referredFile[3]] [.leaf .backReference referredFile[3]] :=
    .mark rfl (by decide)
  have type : TypeText true 1 0 ([] ++ [] ++ [referredFile[0], referredFile[1], referredFile[2]] ++
      [] ++ [referredFile[3]]) referredFileType :=
    .type Nat.zero_lt_one (List.forall_mem_nil _) .done path .none mark rfl
  refine ⟨by decide, ⟨1, 0, type⟩, ?_, fun _ meets => ?_⟩
  · rintro ⟨name, arguments, last, -⟩
    simp [referredFileType, Node.tagged, Node.leaf] at last
  · cases show MeetsStatic (referredFile[0] :: slice referredFile 1 4) from meets with
    | here isStatic => exact absurd isStatic (by decide)
    | behind qualifies _ => exact absurd qualifies (by decide)

/-- The word `static` with the class of a built-in type. -/
def staticBase : Array Token :=
  #[⟨.builtinType, "static", 1, 1, ⟨0, 6⟩⟩]

def staticBaseType : Node :=
  .tagged .type staticBase[0] [⟨.typeName, staticBase[0], []⟩]

/-- A built-in type that is spelled `static` is a type, but not one that is read in a parameter. -/
theorem typeAt_staticBase_refused :
    IsType true (slice staticBase 0 1) staticBaseType ∧
      ¬staticBaseType.GoesOn true (slice staticBase 1 1) ∧
      (Usage.none .standard).HasRoomFor 1 ∧
      (typeAt staticBase true 0 1).answer (.none .standard) =
        .error (.violation .staticParameter staticBase[0]) := by
  have type : TypeText true 1 0 ([] ++ [] ++ [staticBase[0]] ++ [] ++ []) staticBaseType :=
    .type Nat.zero_lt_one (List.forall_mem_nil _) .done (.builtin rfl) .none .none rfl
  have refused : qualifiers staticBase true 0 1 =
      .error (.violation .staticParameter staticBase[0]) := by
    rw [qualifiers]
    rfl
  refine ⟨⟨1, 0, type⟩, Node.not_goesOn_end, by constructor <;> decide, ?_⟩
  rw [typeAt, refused]
  rfl

end TnslReader
