import TnslReader.Proofs.FileInheritance
import TnslReader.Proofs.ValueWraps

/-!
Contract: how deep wraps nest in the tree of a file.

Above its values a tree has no wraps, and a value has no more room than the file. So what bounds the
wraps on a path of a value bounds those on a path of the whole tree.
-/

set_option autoImplicit false

namespace TnslReader

/-- As many wraps as there are levels have room for is what files inherit. -/
theorem inherited_wraps : Inherited fun depth _ node => node.WrapsAtMost (wrapRoom depth) where
  value := ValueText.wraps
  type := TypeText.wraps
  node noOperation below := Node.countAtMost_of_children (NodeKind.wraps_eq_false noOperation) below
  level inside wraps := wraps.mono (wrapRoom_le inside)

/-- On every path of a tree that is read, there are at most as many wraps as the sum of all numbers
below the greatest depth. -/
theorem readTree_wraps {tokens : Array Token} {label : String} {limits : Limits} {root : Node}
    {path : List Node} (read : readTree tokens label limits = .ok root)
    (isPath : root.IsPath path) :
    Node.wrapsOn path ≤ limits.maxDepth * (limits.maxDepth - 1) / 2 := by
  exact inherited_wraps.of_readTree read path isPath

/-- The tokens of `;(a++ ++)++ ++ ++`. -/
def steppedTwice : Array Token :=
  #[⟨.lineSeparator, ";", 1, 1, ⟨0, 1⟩⟩, ⟨.delimiter, "(", 1, 2, ⟨1, 2⟩⟩,
    ⟨.userWord, "a", 1, 3, ⟨2, 3⟩⟩, ⟨.operator, "++", 1, 4, ⟨3, 5⟩⟩,
    ⟨.operator, "++", 1, 7, ⟨6, 8⟩⟩, ⟨.delimiter, ")", 1, 9, ⟨8, 9⟩⟩,
    ⟨.operator, "++", 1, 10, ⟨9, 11⟩⟩, ⟨.operator, "++", 1, 13, ⟨12, 14⟩⟩,
    ⟨.operator, "++", 1, 16, ⟨15, 17⟩⟩]

/-- The path of the tree of `;(a++ ++)++ ++ ++` from its root down to the word. -/
def steppedTwicePath : List Node :=
  let word : Node := .leaf .identifier steppedTwice[2]
  let first : Node := ⟨.followingOperator, steppedTwice[3], [word]⟩
  let second : Node := ⟨.followingOperator, steppedTwice[4], [first]⟩
  let third : Node := ⟨.followingOperator, steppedTwice[6], [second]⟩
  let fourth : Node := ⟨.followingOperator, steppedTwice[7], [third]⟩
  let fifth : Node := ⟨.followingOperator, steppedTwice[8], [fourth]⟩
  let statement : Node := .tagged .valueStatement steppedTwice[1] [fifth]
  [⟨.root, .root "file", [statement]⟩, statement, fifth, fourth, third, second, first, word]

def steppedTwiceTree : Node :=
  steppedTwicePath[0]

theorem isPath_steppedTwicePath : steppedTwiceTree.IsPath steppedTwicePath := by
  have member (node : Node) : node ∈ [node] := List.mem_singleton_self node
  exact .down (member _) (.down (member _) (.down (member _) (.down (member _) (.down (member _)
    (.down (member _) (.down (member _) .leaf))))))

/-- Four levels let no path have more than six wraps. -/
theorem readTree_wraps_steppedTwice : Node.wrapsOn steppedTwicePath ≤ 6 := by
  have read : readTree steppedTwice "file" ⟨4, 0⟩ = .ok steppedTwiceTree := by
    decide +kernel
  exact readTree_wraps read isPath_steppedTwicePath

/-- There may be more wraps on a path than levels: what is in brackets has given its levels back
when what comes behind them takes its own. -/
theorem steppedTwice_wraps_exceed :
    readTree steppedTwice "file" ⟨4, 0⟩ = .ok steppedTwiceTree ∧
      steppedTwiceTree.IsPath steppedTwicePath ∧ 4 < Node.wrapsOn steppedTwicePath := by
  refine ⟨?_, isPath_steppedTwicePath, ?_⟩ <;> decide +kernel

end TnslReader
