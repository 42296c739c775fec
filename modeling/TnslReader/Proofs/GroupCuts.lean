import TnslReader.Proofs.CharacterKinds

/-!
Contract: the groups that runs of reserved runes are cut into.

Every reserved rune has a class on its own, so no cut of a run is without one. A group that is no
longer than the window is cut as a whole when it stands alone.

Does not own: that a cut takes the longest group.
-/

set_option autoImplicit false

namespace TnslReader

open Scan

theorem classifyGroup_single {rune : Char} (reserved : isReserved rune = true) :
    (classifyGroup (String.ofList [rune])).isSome = true := by
  simpa [classifyGroup, isReserved] using reserved

theorem one_le_maxGroupLength : 1 ≤ maxGroupLength := by
  decide +kernel

namespace Run

theorem groupLength_le (width : Nat) (run : List Char) :
    groupLength width run ≤ max width 1 := by
  fun_induction groupLength width run with
  | case1 => omega
  | case2 => omega
  | case3 => omega
  | case4 _ _ inductionHypothesis => omega

/-- What a run is cut at has a class of its own. -/
theorem classifyGroup_take_groupLength {first : Char} (reserved : isReserved first = true)
    (width : Nat) (rest : List Char) :
    (classifyGroup (String.ofList ((first :: rest).take
      (groupLength width (first :: rest))))).isSome = true := by
  fun_induction groupLength width (first :: rest) with
  | case1 => exact classifyGroup_single reserved
  | case2 => exact classifyGroup_single reserved
  | case3 _ found => exact found
  | case4 _ _ inductionHypothesis => exact inductionHypothesis

structure IsGroup (window : Nat) (group : List Char) : Prop where
  nonempty : group ≠ []
  reserved : ∀ rune ∈ group, isReserved rune = true
  length_le : group.length ≤ window
  classified : (classifyGroup (String.ofList group)).isSome = true

theorem isGroup_of_mem_groups {window : Nat} (positive : 0 < window) {run group : List Char}
    (reserved : ∀ rune ∈ run, isReserved rune = true) (member : group ∈ groups window run) :
    IsGroup window group := by
  fun_induction groups window run with
  | case1 => cases member
  | case2 first rest width inductionHypothesis =>
      rcases List.mem_cons.mp member with rfl | later
      · have within : width ≤ max ((first :: rest).take window).length 1 := groupLength_le _ _
        have takesOne : 0 < width := groupLength_pos _ _
        constructor
        · apply List.ne_nil_of_length_pos
          rw [List.length_take, List.length_cons]
          omega
        · intro rune member
          exact reserved rune (List.mem_of_mem_take member)
        · rw [List.length_take, List.length_cons] at within ⊢
          omega
        · exact classifyGroup_take_groupLength (reserved first List.mem_cons_self) _ rest
      · apply inductionHypothesis _ later
        intro rune member
        exact reserved rune (List.mem_of_mem_drop member)

/-- A group that stands alone takes the widest cut at once. -/
theorem groupLength_of_isGroup {window : Nat} {group : List Char}
    (isGroup : IsGroup window group) : groupLength group.length group = group.length := by
  obtain ⟨nonempty, -, -, classified⟩ := isGroup
  match group, nonempty, classified with
  | [_], _, _ => rfl
  | first :: second :: rest, _, classified =>
      have whole : (first :: second :: rest).take (rest.length + 2) = first :: second :: rest :=
        List.take_of_length_le (Nat.le_refl _)
      simp only [List.length_cons]
      rw [groupLength, whole, if_pos classified]

theorem groups_of_isGroup {window : Nat} {group : List Char} (isGroup : IsGroup window group) :
    groups window group = [group] := by
  have alone := groupLength_of_isGroup isGroup
  have fits : group.take window = group := List.take_of_length_le isGroup.length_le
  obtain ⟨first, rest, rfl⟩ := List.exists_cons_of_ne_nil isGroup.nonempty
  rw [groups, fits, alone]
  simp [groups]

end Run

end TnslReader
