import TnslReader.Proofs.Ensures

/-!
Contract: what a reading answers where the grammar has a tree.

A derivation of the grammar needs a certain room, and the limits of a reading may or may not leave
it. With the room the reading answers with the tree; without it the reading may also stop at a
limit. One statement, `Reading.Answers`, covers both, so that what is read back from a derivation is
proved once. As for `Ensures`, each way to build a reading has one rule.

Owns:
- the room that is left, and when it covers what a derivation needs;
- the rules for `Reading.Answers`.
-/

set_option autoImplicit false

namespace TnslReader

namespace Usage

def depthLeft (usage : Usage) : Nat :=
  usage.limits.maxDepth - usage.depth

def chainLeft (usage : Usage) : Nat :=
  usage.limits.maxChain - usage.chain

/-- Whether so many levels and so many chained operators are left. -/
def Covers (usage : Usage) (depth chain : Nat) : Prop :=
  depth ≤ usage.depthLeft ∧ chain ≤ usage.chainLeft

variable {usage : Usage}

theorem depthLeft_enter_lt (room : usage.depth < usage.limits.maxDepth) :
    (usage.enter room).depthLeft < usage.depthLeft := by
  simp only [depthLeft, enter]
  omega

theorem chainLeft_link_add_le {count : Nat}
    (room : usage.chain + count ≤ usage.limits.maxChain) :
    (usage.link count room).chainLeft + count ≤ usage.chainLeft := by
  simp only [chainLeft, link]
  omega

/-- One level deeper there is room for what takes a level less. -/
theorem Covers.enter {depth inner chain : Nat} (level : inner < depth)
    (covers : usage.Covers depth chain) (room : usage.depth < usage.limits.maxDepth) :
    (usage.enter room).Covers inner chain := by
  simp only [Covers, depthLeft, chainLeft, Usage.enter] at covers ⊢
  omega

/-- What needs a level finds one if there is room for it. -/
theorem Covers.lt_maxDepth {depth inner chain : Nat} (level : inner < depth)
    (covers : usage.Covers depth chain) : usage.depth < usage.limits.maxDepth := by
  simp only [Covers, depthLeft] at covers
  omega

/-- Behind some chained operators there is room for what takes as much less. -/
theorem Covers.link {depth chain rest count : Nat} (linked : rest + count ≤ chain)
    (covers : usage.Covers depth chain) (room : usage.chain + count ≤ usage.limits.maxChain) :
    (usage.link count room).Covers depth rest := by
  simp only [Covers, depthLeft, chainLeft, Usage.link] at covers ⊢
  omega

/-- What needs some chained operators finds them if there is room for it. -/
theorem Covers.le_maxChain {depth chain rest count : Nat} (linked : rest + count ≤ chain)
    (covers : usage.Covers depth chain) : usage.chain + count ≤ usage.limits.maxChain := by
  have := usage.chain_le
  simp only [Covers, chainLeft] at covers
  omega

end Usage

def ParseError.IsLimit : ParseError → Prop
  | .tooDeep .. => True
  | .tooLong .. => True
  | _ => False

theorem ParseError.limitAt_isLimit {tokens : Array Token} {index : Nat} {make : Token → ParseError}
    (bound : index < tokens.size) (isLimit : ∀ token, (make token).IsLimit) :
    (limitAt tokens index make).IsLimit := by
  simp only [limitAt, Array.getElem?_eq_getElem bound, Option.some_or]
  exact isLimit _

namespace Reading

/-- The reading answers with the result, and gives back what it took of the limits. Or it stops at a
limit, but only if there is not enough room. -/
def Answers {α : Type} (reading : Reading α) (usage : Usage) (enough : Prop) (result : α) : Prop :=
  reading usage = .ok result usage ∨
    (¬enough ∧ ∃ error, error.IsLimit ∧ reading usage = .error error usage)

variable {α β : Type} {tokens : Array Token} {usage : Usage} {enough : Prop}

theorem answers_pure (result : α) : Answers (pure result) usage enough result :=
  .inl rfl

theorem answers_lift {answer : Except ParseError α} {result : α} (answered : answer = .ok result) :
    Answers (liftM answer) usage enough result := by
  subst answered
  exact .inl rfl

theorem answers_tokenAt {index : Nat} {token : Token} (present : tokens[index]? = some token) :
    Answers (liftM (tokenAt tokens index)) usage enough token :=
  answers_lift (Sound.tokenAt_eq_ok present)

/-- With enough room the reading answers. -/
theorem Answers.answer_eq {reading : Reading α} {result : α}
    (answers : reading.Answers usage enough result) (room : enough) :
    reading.answer usage = .ok result := by
  rcases answers with answered | ⟨scarce, -⟩
  · rw [answer, answered]
  · exact absurd room scarce

/-- The reading answers if it does not stop at a limit. -/
theorem Answers.answer_eq_of_unlimited {reading : Reading α} {result : α}
    (answers : reading.Answers usage enough result)
    (unlimited : ∀ error, reading.answer usage = .error error → ¬error.IsLimit) :
    reading.answer usage = .ok result := by
  rcases answers with answered | ⟨-, error, isLimit, stopped⟩
  · rw [answer, answered]
  · exact absurd isLimit (unlimited error (by rw [answer, stopped]))

theorem Answers.bind {reading : Reading α} {next : α → Reading β} {first : α} {second : β}
    (answers : reading.Answers usage enough first)
    (later : (next first).Answers usage enough second) :
    (reading >>= next).Answers usage enough second := by
  unfold Answers at answers later ⊢
  change EStateM.bind reading next usage = _ ∨ _ ∧ ∃ error, _ ∧ EStateM.bind reading next usage = _
  unfold EStateM.bind
  rcases answers with answered | ⟨scarce, error, isLimit, stopped⟩
  · rw [answered]
    exact later
  · rw [stopped]
    exact .inr ⟨scarce, error, isLimit, rfl⟩

theorem answers_nested {index depth inner chain : Nat} {body : Reading α} {result : α}
    (bound : index < tokens.size) (level : inner < depth)
    (answers : ∀ room : usage.depth < usage.limits.maxDepth,
      body.Answers (usage.enter room) ((usage.enter room).Covers inner chain) result) :
    (nested tokens index body).Answers usage (usage.Covers depth chain) result := by
  unfold Answers nested
  by_cases room : usage.depth < usage.limits.maxDepth
  · simp only [room, ↓reduceDIte]
    rcases answers room with answered | ⟨scarce, error, isLimit, stopped⟩
    · exact .inl (by simp [answered, giveBack])
    · exact .inr ⟨fun covers => scarce (covers.enter level room), error, isLimit,
        by simp [stopped, giveBack]⟩
  · simp only [room, ↓reduceDIte]
    exact .inr ⟨fun covers => room (covers.lt_maxDepth level),
      .limitAt tokens index (.tooDeep usage.limits.maxDepth),
      ParseError.limitAt_isLimit bound fun _ => trivial, rfl⟩

theorem answers_chained {index depth chain rest count : Nat} {body : Reading α} {result : α}
    (bound : index < tokens.size) (linked : rest + count ≤ chain)
    (answers : ∀ room : usage.chain + count ≤ usage.limits.maxChain,
      body.Answers (usage.link count room) ((usage.link count room).Covers depth rest) result) :
    (chained tokens index count body).Answers usage (usage.Covers depth chain) result := by
  unfold Answers chained
  by_cases room : usage.chain + count ≤ usage.limits.maxChain
  · simp only [room, ↓reduceDIte]
    rcases answers room with answered | ⟨scarce, error, isLimit, stopped⟩
    · exact .inl (by simp [answered, giveBack])
    · exact .inr ⟨fun covers => scarce (covers.link linked room), error, isLimit,
        by simp [stopped, giveBack]⟩
  · simp only [room, ↓reduceDIte]
    exact .inr ⟨fun covers => room (covers.le_maxChain linked),
      .limitAt tokens index (.tooLong usage.limits.maxChain),
      ParseError.limitAt_isLimit bound fun _ => trivial, rfl⟩

end Reading

end TnslReader
