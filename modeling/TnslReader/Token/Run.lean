import TnslReader.Vocabulary.Classify

/-!
Contract: cutting a run of reserved runes into groups, longest group first.

Each cut takes the longest group that the run begins with, looking at no more runes than a given
window, and takes a single rune where no group fits. Nothing of the run is lost.
-/

set_option autoImplicit false

namespace TnslReader.Run

/-- The number of runes, at most `width`, in the longest group that the run begins with; one rune
where there is no group. -/
def groupLength (width : Nat) (run : List Char) : Nat :=
  match width with
  | 0 | 1 => 1
  | width + 2 =>
      if (classifyGroup (String.ofList (run.take (width + 2)))).isSome then width + 2
      else groupLength (width + 1) run

theorem groupLength_pos (width : Nat) (run : List Char) : 0 < groupLength width run := by
  fun_induction groupLength width run with
  | case1 => exact Nat.one_pos
  | case2 => exact Nat.one_pos
  | case3 => omega
  | case4 _ _ inductionHypothesis => exact inductionHypothesis

def groups (window : Nat) (run : List Char) : List (List Char) :=
  match run with
  | [] => []
  | first :: rest =>
      let width := groupLength ((first :: rest).take window).length (first :: rest)
      (first :: rest).take width :: groups window ((first :: rest).drop width)
termination_by run.length
decreasing_by
  have := groupLength_pos ((first :: rest).take window).length (first :: rest)
  simp only [List.length_drop, List.length_cons]
  omega

theorem flatten_groups (window : Nat) (run : List Char) : (groups window run).flatten = run := by
  fun_induction groups window run with
  | case1 => rfl
  | case2 first rest width inductionHypothesis =>
      rw [List.flatten_cons, inductionHypothesis, List.take_append_drop]

end TnslReader.Run
