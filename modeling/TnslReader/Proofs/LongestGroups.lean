import TnslReader.Proofs.GroupCuts
import TnslReader.Proofs.LiteralEnds

/-!
Contract: runs of reserved runes are cut at the longest groups.

A cut looks at the widest piece that the window shows and narrows it until it is a group, so it takes
the longest group among those that the window shows. The window is as wide as the longest marker and
the longest operator. So it hides none of them, and no longer one begins where a cut is made, however
long the run goes on.

Owns:
- the texts that are one group of several runes;
- that every cut takes the longest of them, or one rune where none begins;
- where the tokens of a run stand, and that their classes are those of their groups.
-/

set_option autoImplicit false

namespace TnslReader

open Literal (IsLongest)
open Scan (groupTokens takeRun tokenAt)

/-! ### Groups of several runes -/

/-- Whether the text is that of a marker, or of an operator that has several runes and is no word. -/
def IsCompound (text : List Char) : Prop :=
  (∃ marker : Marker, marker.spelling.toList = text) ∨
    ∃ operator : Operator, operator.isWordOperator = false ∧
      operator.spelling.toList = text ∧ 2 ≤ text.length

namespace IsCompound

variable {text : List Char}

theorem two_le_length (compound : IsCompound text) : 2 ≤ text.length := by
  rcases compound with ⟨marker, rfl⟩ | ⟨operator, -, rfl, several⟩
  · cases marker <;> decide
  · exact several

/-- The window shows every group, since it is taken from the tables that the groups are in. -/
theorem length_le (compound : IsCompound text) : text.length ≤ maxGroupLength := by
  unfold maxGroupLength
  rw [List.foldl_max]
  apply le_max_of_le_right
  apply List.le_max?_getD_of_mem
  rcases compound with ⟨marker, rfl⟩ | ⟨operator, isRunes, rfl, -⟩
  · rw [String.length_toList]
    exact List.mem_append_left _ (List.mem_map_of_mem marker.mem_all)
  · rw [String.length_toList]
    apply List.mem_append_right
    exact List.mem_map_of_mem (List.mem_filter.mpr ⟨operator.mem_all, by simp [isRunes]⟩)

end IsCompound

theorem classifyCompound_isSome_iff {text : List Char} (several : 2 ≤ text.length) :
    (classifyCompound (String.ofList text)).isSome = true ↔ IsCompound text := by
  unfold classifyCompound
  constructor
  · intro classified
    split at classified
    next marker found =>
      exact .inl ⟨marker, by rw [Marker.spelling_of_ofSpelling? found, String.toList_ofList]⟩
    next =>
      split at classified
      next operator found =>
        refine .inr ⟨operator, ?_, ?_, several⟩
        · by_contra isWord
          simp [isWord] at classified
        · rw [Operator.spelling_of_ofSpelling? found, String.toList_ofList]
      next => cases classified
  · rintro (⟨marker, rfl⟩ | ⟨operator, isRunes, rfl, -⟩)
    · rw [String.ofList_toList, Marker.ofSpelling?_spelling]
      rfl
    · rw [String.ofList_toList, Operator.ofSpelling?_spelling]
      split
      · rfl
      · simp [isRunes]

theorem classifyGroup_isSome_iff {text : List Char} (several : 2 ≤ text.length) :
    (classifyGroup (String.ofList text)).isSome = true ↔ IsCompound text := by
  rw [← classifyCompound_isSome_iff several]
  match text, several with
  | first :: second :: rest, _ => simp [classifyGroup]

/-! ### Cuts -/

/-- What is cut off where a text begins: the longest group of several runes that it begins with, or
one rune if it begins with none. -/
inductive IsLongestCut : List Char → List Char → Prop where
  | compound {group text : List Char} (longest : IsLongest IsCompound group text) :
      IsLongestCut group text
  | single {rune : Char} {rest : List Char}
      (none : ∀ other, other <+: rune :: rest → ¬IsCompound other) :
      IsLongestCut [rune] (rune :: rest)

namespace Run

/-- No piece that is wider than the cut, and not too wide for the window, is a group. -/
theorem classifyGroup_take_eq_false {width wider : Nat} {run : List Char}
    (beyond : groupLength width run < wider) (shown : wider ≤ width) :
    (classifyGroup (String.ofList (run.take wider))).isSome = false := by
  fun_induction groupLength width run with
  | case1 => omega
  | case2 => omega
  | case3 => omega
  | case4 width unknown inductionHypothesis =>
      rcases Nat.lt_or_eq_of_le shown with narrower | rfl
      · exact inductionHypothesis beyond (by omega)
      · simpa using unknown

/-- No group that a run begins with is longer than the cut. -/
theorem length_le_groupLength {run other : List Char} (begins : other <+: run)
    (compound : IsCompound other) :
    other.length ≤ groupLength (run.take maxGroupLength).length run := by
  by_contra longer
  have shown : other.length ≤ (run.take maxGroupLength).length := by
    rw [List.length_take]
    exact le_min compound.length_le begins.length_le
  have unknown := classifyGroup_take_eq_false (Nat.lt_of_not_le longer) shown
  rw [← List.prefix_iff_eq_take.mp begins,
    (classifyGroup_isSome_iff compound.two_le_length).mpr compound] at unknown
  cases unknown

theorem isLongestCut_take_groupLength {first : Char} (reserved : isReserved first = true)
    (rest : List Char) :
    IsLongestCut ((first :: rest).take (groupLength
      ((first :: rest).take maxGroupLength).length (first :: rest))) (first :: rest) := by
  have seen := @length_le_groupLength (first :: rest)
  have classified := classifyGroup_take_groupLength reserved
    ((first :: rest).take maxGroupLength).length rest
  have positive := groupLength_pos ((first :: rest).take maxGroupLength).length (first :: rest)
  have within : groupLength ((first :: rest).take maxGroupLength).length (first :: rest) ≤
      (first :: rest).length := by
    have narrow := groupLength_le ((first :: rest).take maxGroupLength).length (first :: rest)
    have shorter := List.length_take_le' maxGroupLength (first :: rest)
    rw [List.length_cons] at shorter ⊢
    omega
  generalize groupLength ((first :: rest).take maxGroupLength).length (first :: rest) = width at *
  have length : ((first :: rest).take width).length = width := by
    rw [List.length_take, Nat.min_eq_left within]
  by_cases several : 2 ≤ width
  · refine .compound ⟨List.take_prefix _ _, ?_, ?_⟩
    · exact (classifyGroup_isSome_iff (by rwa [length])).mp classified
    · intro other begins compound
      rw [length]
      exact seen begins compound
  · obtain rfl : width = 1 := by omega
    refine .single fun other begins compound => ?_
    have := seen begins compound
    have := compound.two_le_length
    omega

/-- Each group of a run is what is cut off where the group begins. -/
theorem isLongestCut_of_groups {run group : List Char} {before after : List (List Char)}
    (reserved : ∀ rune ∈ run, isReserved rune = true)
    (cut : groups maxGroupLength run = before ++ group :: after) :
    IsLongestCut group (group ++ after.flatten) := by
  induction before generalizing run with
  | nil =>
      cases run with
      | nil => simp [groups] at cut
      | cons first rest =>
          rw [groups] at cut
          obtain ⟨rfl, rfl⟩ := List.cons.inj cut
          rw [flatten_groups, List.take_append_drop]
          exact isLongestCut_take_groupLength (reserved first List.mem_cons_self) rest
  | cons earlier before inductionHypothesis =>
      cases run with
      | nil => simp [groups] at cut
      | cons first rest =>
          rw [groups] at cut
          apply inductionHypothesis _ (List.cons.inj cut).2
          exact fun rune member => reserved rune (List.mem_of_mem_drop member)

end Run

/-! ### The tokens of a run -/

namespace Scan

theorem groupTokens_append (position : Position) (first second : List (List Char)) :
    groupTokens position (first ++ second) =
      groupTokens position first ++ groupTokens (position.afterAll first.flatten) second := by
  induction first generalizing position with
  | nil => rfl
  | cons group first inductionHypothesis =>
      simp only [List.cons_append, groupTokens, inductionHypothesis, List.flatten_cons,
        Position.afterAll_append]

theorem length_groupTokens (position : Position) (groups : List (List Char)) :
    (groupTokens position groups).length = groups.length := by
  induction groups generalizing position with
  | nil => rfl
  | cons group groups inductionHypothesis => simp [groupTokens, inductionHypothesis]

/-- The token of a group stands where the groups before it end. -/
theorem getElem?_groupTokens (position : Position) (before : List (List Char))
    (group : List Char) (after : List (List Char)) :
    (groupTokens position (before ++ group :: after))[before.length]? =
      some (tokenAt (position.afterAll before.flatten)
        ((classifyGroup (String.ofList group)).getD .operator) group) := by
  rw [groupTokens_append, List.getElem?_append_right (by rw [length_groupTokens]),
    length_groupTokens, Nat.sub_self, groupTokens, List.getElem?_cons_zero]

/-- Every token of some groups is made of one of them. -/
theorem exists_of_mem_groupTokens {position : Position} {groups : List (List Char)} {token : Token}
    (member : token ∈ groupTokens position groups) :
    ∃ group ∈ groups, ∃ place, token =
      tokenAt place ((classifyGroup (String.ofList group)).getD .operator) group := by
  induction groups generalizing position with
  | nil => cases member
  | cons group groups inductionHypothesis =>
      rcases List.mem_cons.mp member with rfl | later
      · exact ⟨group, List.mem_cons_self, position, rfl⟩
      · obtain ⟨other, behind, place, made⟩ := inductionHypothesis later
        exact ⟨other, List.mem_cons_of_mem group behind, place, made⟩

/-- The tokens that a run gives are those of its first groups. -/
theorem takeRun_tokens_prefix (state : State) (run rest : List Char) :
    (takeRun state run rest).tokens <+:
      groupTokens state.position (Run.groups maxGroupLength run) := by
  have split := List.takeWhile_append_dropWhile (p := (· != ['#']))
    (l := Run.groups maxGroupLength run)
  conv_rhs => rw [← split, groupTokens_append]
  exact List.prefix_append _ _

end Scan

/-- A run of reserved runes is cut into groups without loss. Each of them is the longest group that
begins where it does, or one rune where none begins. So each has a class of its own, and the tokens
of the run have these classes and stand where their groups do. -/
theorem groups_are_longest {run : List Char} (reserved : ∀ rune ∈ run, isReserved rune = true) :
    (Run.groups maxGroupLength run).flatten = run ∧
    (∀ before group after, Run.groups maxGroupLength run = before ++ group :: after →
      group ≠ [] ∧ IsLongestCut group (group ++ after.flatten) ∧
      ∃ tokenClass, classifyGroup (String.ofList group) = some tokenClass ∧
        ∀ position, (groupTokens position (Run.groups maxGroupLength run))[before.length]? =
          some (tokenAt (position.afterAll before.flatten) tokenClass group)) ∧
    ∀ state rest,
      (takeRun state run rest).tokens <+:
        groupTokens state.position (Run.groups maxGroupLength run) ∧
      ∀ token ∈ (takeRun state run rest).tokens,
        classifyGroup token.text = some token.tokenClass := by
  refine ⟨Run.flatten_groups maxGroupLength run, fun before group after cut => ?_,
    fun state rest => ⟨Scan.takeRun_tokens_prefix state run rest, fun token member => ?_⟩⟩
  · have member : group ∈ Run.groups maxGroupLength run := by simp [cut]
    obtain ⟨nonempty, -, -, classified⟩ :=
      Run.isGroup_of_mem_groups one_le_maxGroupLength reserved member
    obtain ⟨tokenClass, classified⟩ := Option.isSome_iff_exists.mp classified
    refine ⟨nonempty, Run.isLongestCut_of_groups reserved cut, tokenClass, classified,
      fun position => ?_⟩
    rw [cut, Scan.getElem?_groupTokens, classified, Option.getD_some]
  · obtain ⟨group, cut, position, rfl⟩ := Scan.exists_of_mem_groupTokens
      ((Scan.takeRun_tokens_prefix state run rest).subset member)
    obtain ⟨tokenClass, classified⟩ := Option.isSome_iff_exists.mp
      (Run.isGroup_of_mem_groups one_le_maxGroupLength reserved cut).classified
    simp only [tokenAt, classified, Option.getD_some]

/-- In `>===-;;/` the first cut takes three runes and leaves `=`, which is no group with the minus
behind it. -/
theorem groups_are_longest_shiftedEqual :
    (∀ rune ∈ ">===-;;/".toList, isReserved rune = true) ∧
      Run.groups maxGroupLength ">===-;;/".toList =
        [">==".toList] ++ "=".toList :: ["-".toList, ";;".toList, "/".toList] ∧
      IsLongestCut "=".toList "=-;;/".toList ∧
      (groupTokens .start (Run.groups maxGroupLength ">===-;;/".toList))[1]? =
        some ⟨.operator, "=", 1, 4, ⟨3, 4⟩⟩ := by
  have reserved : ∀ rune ∈ ">===-;;/".toList, isReserved rune = true :=
    List.all_eq_true.mp (by decide +kernel)
  have cut : Run.groups maxGroupLength ">===-;;/".toList =
      [">==".toList] ++ "=".toList :: ["-".toList, ";;".toList, "/".toList] := by decide +kernel
  obtain ⟨-, longest, tokenClass, classified, placed⟩ :=
    (groups_are_longest reserved).2.1 _ _ _ cut
  have isOperator : classifyGroup (String.ofList "=".toList) = some .operator := by decide +kernel
  cases isOperator.symm.trans classified
  exact ⟨reserved, cut, longest, placed .start⟩

end TnslReader
