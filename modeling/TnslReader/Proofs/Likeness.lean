import TnslReader.Proofs.Answers

/-!
Contract: two readings side by side.

What is read from a range hangs on the tokens of the range and on the limits, and on nothing else.
To say so, two readings are run side by side: of two streams that have the same tokens in a window,
perhaps at some distance from each other, and under two limits, of which the first are no greater.
A likeness says which streams, window and limits these are, and what is claimed where the first
reading fails. Some errors of the first may be excused, and then nothing is claimed of the second
reading. Any other error must be met by an error of the second, by the same one if the likeness is
exact.

As for `Ensures` and `Answers`, each way to build a reading has its rule here. Some rules come
twice: from two given usages, where the second part of a reading may use what the first has
answered, and from all usages that pair, which follows.

Owns:
- likenesses of two streams;
- the rules for answers without state (`Likeness.Agree`) and for readings (`Likeness.Alike`).
-/

set_option autoImplicit false

namespace TnslReader

def Limits.Within (small large : Limits) : Prop :=
  small.maxDepth ≤ large.maxDepth ∧ small.maxChain ≤ large.maxChain

theorem Limits.Within.refl (limits : Limits) : limits.Within limits :=
  ⟨Nat.le_refl _, Nat.le_refl _⟩

/-- Under the same limits on both sides an error at a limit needs no excuse. -/
theorem Limits.eq_or_excused (limits : Limits) :
    limits = limits ∨ ∀ error : ParseError, error.IsLimit → False :=
  .inl rfl

def ParseError.IsFault : ParseError → Prop
  | .fault _ => True
  | _ => False

theorem ParseError.not_isFault_of_isLimit {error : ParseError} (isLimit : error.IsLimit) :
    ¬error.IsFault := by
  cases error <;> simp_all [IsLimit, IsFault]

theorem ParseError.not_isFault_of_arisesIn {tokens : Array Token} {error : ParseError}
    (arises : error.ArisesIn tokens) : ¬error.IsFault := by
  cases error <;> simp_all [ArisesIn, IsFault]

/-- Two streams with the same tokens in a window, two limits to read them under, and which errors of
the first reading say nothing about the second. The indexes of the window are those of the second
stream; in the first stream they are greater by the offset. -/
structure Likeness (first second : Array Token) where
  offset : Nat
  low : Nat
  high : Nat
  /-- In the window both streams have the same token. -/
  tokenWithin : ∀ index, low ≤ index → index < high →
    ∃ token, first[offset + index]? = some token ∧ second[index]? = some token
  small : Limits
  large : Limits
  within : small.Within large
  excused : ParseError → Prop
  /-- Whether errors that are not excused are met by the same errors. -/
  exact : Prop
  /-- Errors at a limit are excused unless the limits are the same. -/
  limited : small = large ∨ ∀ error : ParseError, error.IsLimit → excused error
  /-- At the end of the window both streams go on, or end, in the same way. -/
  ending : exact → first[offset + high]? = second[high]? ∧ first.back? = second.back?

namespace Likeness

variable {first second : Array Token} (likeness : Likeness first second)

/-- Whether an index of the first stream is that of the second, in the window or at its end. -/
abbrev Maps (start index : Nat) : Prop :=
  start = likeness.offset + index ∧ likeness.low ≤ index ∧ index ≤ likeness.high

def Same (error other : ParseError) : Prop :=
  ¬error.IsFault ∧ ¬other.IsFault ∧ (likeness.exact → error = other)

def Meets (error other : ParseError) : Prop :=
  likeness.excused error ∨ likeness.Same error other

def Pairs (usage other : Usage) : Prop :=
  usage.limits = likeness.small ∧ other.limits = likeness.large ∧
    usage.depth = other.depth ∧ usage.chain = other.chain

/-- Related answers, or errors that meet, unless the error of the first is excused. -/
def Agree {α β : Type} (answer : Except ParseError α) (other : Except ParseError β)
    (related : α → β → Prop) : Prop :=
  match answer with
  | .ok result => ∃ otherResult, other = .ok otherResult ∧ related result otherResult
  | .error error =>
      likeness.excused error ∨ ∃ otherError, other = .error otherError ∧
        likeness.Same error otherError

/-- From two given usages the readings give back what they take of the limits, and they have related
answers or errors that meet, unless the error of the first is excused. -/
def AlikeFrom {α β : Type} (usage otherUsage : Usage) (reading : Reading α) (other : Reading β)
    (related : α → β → Prop) : Prop :=
  match reading usage with
  | .ok result after =>
      after = usage ∧ ∃ otherResult, other otherUsage = .ok otherResult otherUsage ∧
        related result otherResult
  | .error error after =>
      after = usage ∧ (likeness.excused error ∨
        ∃ otherError, other otherUsage = .error otherError otherUsage ∧
          likeness.Same error otherError)

def Alike {α β : Type} (reading : Reading α) (other : Reading β) (related : α → β → Prop) : Prop :=
  ∀ usage otherUsage, likeness.Pairs usage otherUsage →
    likeness.AlikeFrom usage otherUsage reading other related

variable {likeness}

/-! ### Errors -/

theorem same_self {error : ParseError} (noFault : ¬error.IsFault) : likeness.Same error error :=
  ⟨noFault, noFault, fun _ => rfl⟩

theorem violation_meets (cause : Violation) (token : Token) :
    likeness.Meets (.violation cause token) (.violation cause token) :=
  .inr (same_self id)

/-- Within the window, both streams have the same token where their indexes correspond. -/
theorem exists_token {start index : Nat} (maps : likeness.Maps start index)
    (inside : index < likeness.high) :
    ∃ token, first[start]? = some token ∧ second[index]? = some token := by
  obtain ⟨rfl, low_le, -⟩ := maps
  exact likeness.tokenWithin index low_le inside

/-- An exact likeness has the same token, or none, wherever indexes correspond. -/
theorem getElem?_eq {start index : Nat} (maps : likeness.Maps start index)
    (exact : likeness.exact) :
    first[start]? = second[index]? ∧ first.back? = second.back? := by
  obtain ⟨ends, sameLast⟩ := likeness.ending exact
  refine ⟨?_, sameLast⟩
  rcases Nat.lt_or_eq_of_le maps.2.2 with inside | rfl
  · obtain ⟨token, firstPresent, secondPresent⟩ := exists_token maps inside
    rw [firstPresent, secondPresent]
  · rw [maps.1, ends]

theorem violationAt_meets {start index : Nat} (cause : Violation)
    (maps : likeness.Maps start index) :
    likeness.Meets (.violationAt first start cause) (.violationAt second index cause) := by
  refine .inr ⟨ParseError.not_isFault_of_arisesIn (ParseError.violationAt_arisesIn _ _ _),
    ParseError.not_isFault_of_arisesIn (ParseError.violationAt_arisesIn _ _ _), fun exact => ?_⟩
  obtain ⟨same, sameLast⟩ := getElem?_eq maps exact
  simp only [ParseError.violationAt, same, sameLast]

theorem expected_meets {start index : Nat} (expectation : Expectation)
    (maps : likeness.Maps start index) :
    likeness.Meets (.expected first start expectation) (.expected second index expectation) := by
  refine .inr ⟨ParseError.not_isFault_of_arisesIn (ParseError.expected_arisesIn _ _ _),
    ParseError.not_isFault_of_arisesIn (ParseError.expected_arisesIn _ _ _), fun exact => ?_⟩
  obtain ⟨same, sameLast⟩ := getElem?_eq maps exact
  simp only [ParseError.expected, same, sameLast]

/-- At a token of the window the first reading is excused, or both reach the same limit. -/
theorem limitAt_meets {start index : Nat} {make : Token → ParseError}
    (isLimit : ∀ token, (make token).IsLimit) (maps : likeness.Maps start index)
    (inside : index < likeness.high) :
    likeness.excused (.limitAt first start make) ∨ likeness.small = likeness.large ∧
      likeness.Same (.limitAt first start make) (.limitAt second index make) := by
  obtain ⟨token, firstPresent, secondPresent⟩ := exists_token maps inside
  simp only [ParseError.limitAt, firstPresent, secondPresent, Option.some_or]
  rcases likeness.limited with equal | excuses
  · exact .inr ⟨equal, same_self (ParseError.not_isFault_of_isLimit (isLimit token))⟩
  · exact .inl (excuses _ (isLimit token))

/-! ### Answers without state -/

section Agree

variable {α β γ δ : Type} {answer : Except ParseError α} {other : Except ParseError β}
  {related : α → β → Prop} {joined : γ → δ → Prop}

theorem agree_ok {result : α} {otherResult : β} (holds : related result otherResult) :
    likeness.Agree (.ok result) (.ok otherResult) related :=
  ⟨otherResult, rfl, holds⟩

theorem agree_error {error otherError : ParseError} (meets : likeness.Meets error otherError) :
    likeness.Agree (.error error) (.error otherError) related :=
  meets.imp_right fun same => ⟨otherError, rfl, same⟩

theorem Agree.bind {next : α → Except ParseError γ} {otherNext : β → Except ParseError δ}
    (agree : likeness.Agree answer other related)
    (later : ∀ result otherResult, related result otherResult →
      likeness.Agree (next result) (otherNext otherResult) joined) :
    likeness.Agree (answer >>= next) (other >>= otherNext) joined := by
  cases answer with
  | ok result =>
      obtain ⟨otherResult, rfl, holds⟩ := agree
      exact later result otherResult holds
  | error error =>
      rcases agree with excused | ⟨otherError, rfl, same⟩
      · exact .inl excused
      · exact .inr ⟨otherError, rfl, same⟩

theorem agree_ite {condition otherCondition : Prop} [Decidable condition]
    [Decidable otherCondition] {answer₁ answer₂ : Except ParseError α}
    {other₁ other₂ : Except ParseError β} (iff : condition ↔ otherCondition)
    (holds : condition → otherCondition → likeness.Agree answer₁ other₁ related)
    (fails : ¬condition → ¬otherCondition → likeness.Agree answer₂ other₂ related) :
    likeness.Agree (if condition then answer₁ else answer₂)
      (if otherCondition then other₁ else other₂) related := by
  by_cases held : condition
  · rw [if_pos held, if_pos (iff.mp held)]
    exact holds held (iff.mp held)
  · rw [if_neg held, if_neg (mt iff.mpr held)]
    exact fails held (mt iff.mpr held)

theorem agree_dite {condition otherCondition : Prop} [Decidable condition]
    [Decidable otherCondition] {answer₁ : condition → Except ParseError α}
    {answer₂ : ¬condition → Except ParseError α} {other₁ : otherCondition → Except ParseError β}
    {other₂ : ¬otherCondition → Except ParseError β} (iff : condition ↔ otherCondition)
    (holds : ∀ held otherHeld, likeness.Agree (answer₁ held) (other₁ otherHeld) related)
    (fails : ∀ failed otherFailed,
      likeness.Agree (answer₂ failed) (other₂ otherFailed) related) :
    likeness.Agree (if held : condition then answer₁ held else answer₂ held)
      (if held : otherCondition then other₁ held else other₂ held) related := by
  by_cases held : condition
  · rw [dif_pos held, dif_pos (iff.mp held)]
    exact holds held (iff.mp held)
  · rw [dif_neg held, dif_neg (mt iff.mpr held)]
    exact fails held (mt iff.mpr held)

/-- To read a token of the window is to go on with it in both streams. -/
theorem agree_tokenAt_bind {start index : Nat} {token : Token} {next : Token → Except ParseError γ}
    {otherNext : Token → Except ParseError δ} (firstPresent : first[start]? = some token)
    (secondPresent : second[index]? = some token)
    (later : likeness.Agree (next token) (otherNext token) joined) :
    likeness.Agree (Reading.tokenAt first start >>= next)
      (Reading.tokenAt second index >>= otherNext) joined := by
  rw [Sound.tokenAt_eq_ok firstPresent, Sound.tokenAt_eq_ok secondPresent]
  exact later

theorem agree_violationAt {start index : Nat} (cause : Violation)
    (maps : likeness.Maps start index) :
    likeness.Agree (.error (.violationAt first start cause))
      (.error (.violationAt second index cause)) related :=
  agree_error (violationAt_meets cause maps)

theorem agree_expected {start index : Nat} (expectation : Expectation)
    (maps : likeness.Maps start index) :
    likeness.Agree (.error (.expected first start expectation))
      (.error (.expected second index expectation)) related :=
  agree_error (expected_meets expectation maps)

end Agree

/-! ### Readings -/

section Alike

variable {α β γ δ : Type} {reading : Reading α} {other : Reading β} {related : α → β → Prop}
  {joined : γ → δ → Prop} {usage otherUsage : Usage}

theorem alike_pure {result : α} {otherResult : β} (holds : related result otherResult) :
    likeness.Alike (pure result) (pure otherResult) related :=
  fun _ _ _ => ⟨rfl, otherResult, rfl, holds⟩

theorem alike_throw {error otherError : ParseError} (meets : likeness.Meets error otherError) :
    likeness.Alike (throw error) (throw otherError) related :=
  fun _ _ _ => ⟨rfl, meets.imp_right fun same => ⟨otherError, rfl, same⟩⟩

theorem alike_lift {answer : Except ParseError α} {otherAnswer : Except ParseError β}
    (agree : likeness.Agree answer otherAnswer related) :
    likeness.Alike (liftM answer) (liftM otherAnswer) related := by
  intro usage otherUsage _
  cases answer with
  | ok result =>
      obtain ⟨otherResult, rfl, holds⟩ := agree
      exact ⟨rfl, otherResult, rfl, holds⟩
  | error error =>
      rcases agree with excused | ⟨otherError, rfl, same⟩
      · exact ⟨rfl, .inl excused⟩
      · exact ⟨rfl, .inr ⟨otherError, rfl, same⟩⟩

/-- What is said of the second part of a reading may use what the first part has answered. -/
theorem AlikeFrom.bind {next : α → Reading γ} {otherNext : β → Reading δ}
    (alike : likeness.AlikeFrom usage otherUsage reading other related)
    (later : ∀ result otherResult, reading usage = .ok result usage →
      other otherUsage = .ok otherResult otherUsage → related result otherResult →
      likeness.AlikeFrom usage otherUsage (next result) (otherNext otherResult) joined) :
    likeness.AlikeFrom usage otherUsage (reading >>= next) (other >>= otherNext) joined := by
  change match EStateM.bind reading next usage with
    | .ok result after =>
        after = usage ∧ ∃ otherResult,
          EStateM.bind other otherNext otherUsage = .ok otherResult otherUsage ∧
          joined result otherResult
    | .error error after =>
        after = usage ∧ (likeness.excused error ∨
          ∃ otherError, EStateM.bind other otherNext otherUsage = .error otherError otherUsage ∧
            likeness.Same error otherError)
  unfold EStateM.bind
  unfold AlikeFrom at alike
  cases ran : reading usage with
  | ok result after =>
      rw [ran] at alike
      obtain ⟨rfl, otherResult, answered, holds⟩ := alike
      rw [answered]
      exact later result otherResult ran answered holds
  | error error after =>
      rw [ran] at alike
      rcases alike with ⟨rfl, excused | ⟨otherError, failed, same⟩⟩
      · exact ⟨rfl, .inl excused⟩
      · rw [failed]
        exact ⟨rfl, .inr ⟨otherError, rfl, same⟩⟩

theorem Alike.bind {next : α → Reading γ} {otherNext : β → Reading δ}
    (alike : likeness.Alike reading other related)
    (later : ∀ result otherResult, related result otherResult →
      likeness.Alike (next result) (otherNext otherResult) joined) :
    likeness.Alike (reading >>= next) (other >>= otherNext) joined :=
  fun usage otherUsage pairs =>
    (alike usage otherUsage pairs).bind fun result otherResult _ _ holds =>
      later result otherResult holds usage otherUsage pairs

/-- What is read behind an answer without state may use that answer. -/
theorem alikeFrom_lift_bind {answer : Except ParseError α} {otherAnswer : Except ParseError β}
    {next : α → Reading γ} {otherNext : β → Reading δ}
    (agree : likeness.Agree answer otherAnswer related)
    (later : ∀ result otherResult, answer = .ok result → related result otherResult →
      likeness.AlikeFrom usage otherUsage (next result) (otherNext otherResult) joined) :
    likeness.AlikeFrom usage otherUsage (liftM answer >>= next) (liftM otherAnswer >>= otherNext)
      joined := by
  cases answer with
  | ok result =>
      obtain ⟨otherResult, rfl, holds⟩ := agree
      exact later result otherResult rfl holds
  | error error =>
      rcases agree with excused | ⟨otherError, rfl, same⟩
      · exact ⟨rfl, .inl excused⟩
      · exact ⟨rfl, .inr ⟨otherError, rfl, same⟩⟩

theorem alikeFrom_ite {condition otherCondition : Prop} [Decidable condition]
    [Decidable otherCondition] {reading₁ reading₂ : Reading α} {other₁ other₂ : Reading β}
    (iff : condition ↔ otherCondition)
    (holds : condition → otherCondition →
      likeness.AlikeFrom usage otherUsage reading₁ other₁ related)
    (fails : ¬condition → ¬otherCondition →
      likeness.AlikeFrom usage otherUsage reading₂ other₂ related) :
    likeness.AlikeFrom usage otherUsage (if condition then reading₁ else reading₂)
      (if otherCondition then other₁ else other₂) related := by
  by_cases held : condition
  · rw [if_pos held, if_pos (iff.mp held)]
    exact holds held (iff.mp held)
  · rw [if_neg held, if_neg (mt iff.mpr held)]
    exact fails held (mt iff.mpr held)

theorem alike_ite {condition otherCondition : Prop} [Decidable condition]
    [Decidable otherCondition] {reading₁ reading₂ : Reading α} {other₁ other₂ : Reading β}
    (iff : condition ↔ otherCondition)
    (holds : condition → otherCondition → likeness.Alike reading₁ other₁ related)
    (fails : ¬condition → ¬otherCondition → likeness.Alike reading₂ other₂ related) :
    likeness.Alike (if condition then reading₁ else reading₂)
      (if otherCondition then other₁ else other₂) related :=
  fun usage otherUsage pairs =>
    alikeFrom_ite iff (fun held otherHeld => holds held otherHeld usage otherUsage pairs)
      fun failed otherFailed => fails failed otherFailed usage otherUsage pairs

theorem alikeFrom_dite {condition otherCondition : Prop} [Decidable condition]
    [Decidable otherCondition] {reading₁ : condition → Reading α}
    {reading₂ : ¬condition → Reading α} {other₁ : otherCondition → Reading β}
    {other₂ : ¬otherCondition → Reading β} (iff : condition ↔ otherCondition)
    (holds : ∀ held otherHeld,
      likeness.AlikeFrom usage otherUsage (reading₁ held) (other₁ otherHeld) related)
    (fails : ∀ failed otherFailed,
      likeness.AlikeFrom usage otherUsage (reading₂ failed) (other₂ otherFailed) related) :
    likeness.AlikeFrom usage otherUsage
      (if held : condition then reading₁ held else reading₂ held)
      (if held : otherCondition then other₁ held else other₂ held) related := by
  by_cases held : condition
  · rw [dif_pos held, dif_pos (iff.mp held)]
    exact holds held (iff.mp held)
  · rw [dif_neg held, dif_neg (mt iff.mpr held)]
    exact fails held (mt iff.mpr held)

theorem alike_dite {condition otherCondition : Prop} [Decidable condition]
    [Decidable otherCondition] {reading₁ : condition → Reading α}
    {reading₂ : ¬condition → Reading α} {other₁ : otherCondition → Reading β}
    {other₂ : ¬otherCondition → Reading β} (iff : condition ↔ otherCondition)
    (holds : ∀ held otherHeld, likeness.Alike (reading₁ held) (other₁ otherHeld) related)
    (fails : ∀ failed otherFailed,
      likeness.Alike (reading₂ failed) (other₂ otherFailed) related) :
    likeness.Alike (if held : condition then reading₁ held else reading₂ held)
      (if held : otherCondition then other₁ held else other₂ held) related :=
  fun usage otherUsage pairs =>
    alikeFrom_dite iff (fun held otherHeld => holds held otherHeld usage otherUsage pairs)
      fun failed otherFailed => fails failed otherFailed usage otherUsage pairs

theorem alike_violationAt {start index : Nat} (cause : Violation)
    (maps : likeness.Maps start index) :
    likeness.Alike (throw (.violationAt first start cause))
      (throw (.violationAt second index cause)) related :=
  alike_throw (violationAt_meets cause maps)

theorem alike_expected {start index : Nat} (expectation : Expectation)
    (maps : likeness.Maps start index) :
    likeness.Alike (throw (.expected first start expectation))
      (throw (.expected second index expectation)) related :=
  alike_throw (expected_meets expectation maps)

/-- To read a token of the window is to go on with it in both streams. -/
theorem alikeFrom_tokenAt_bind {start index : Nat} {token : Token} {next : Token → Reading γ}
    {otherNext : Token → Reading δ} (firstPresent : first[start]? = some token)
    (secondPresent : second[index]? = some token)
    (later : likeness.AlikeFrom usage otherUsage (next token) (otherNext token) joined) :
    likeness.AlikeFrom usage otherUsage (liftM (Reading.tokenAt first start) >>= next)
      (liftM (Reading.tokenAt second index) >>= otherNext) joined := by
  rw [Sound.tokenAt_eq_ok firstPresent, Sound.tokenAt_eq_ok secondPresent]
  exact later

theorem alike_tokenAt_bind {start index : Nat} {token : Token} {next : Token → Reading γ}
    {otherNext : Token → Reading δ} (firstPresent : first[start]? = some token)
    (secondPresent : second[index]? = some token)
    (later : likeness.Alike (next token) (otherNext token) joined) :
    likeness.Alike (liftM (Reading.tokenAt first start) >>= next)
      (liftM (Reading.tokenAt second index) >>= otherNext) joined :=
  fun usage otherUsage pairs =>
    alikeFrom_tokenAt_bind firstPresent secondPresent (later usage otherUsage pairs)

theorem Pairs.enter (pairs : likeness.Pairs usage otherUsage)
    (room : usage.depth < usage.limits.maxDepth)
    (otherRoom : otherUsage.depth < otherUsage.limits.maxDepth) :
    likeness.Pairs (usage.enter room) (otherUsage.enter otherRoom) := by
  obtain ⟨isSmall, isLarge, depth, chain⟩ := pairs
  exact ⟨isSmall, isLarge, congrArg (· + 1) depth, chain⟩

theorem Pairs.link {count : Nat} (pairs : likeness.Pairs usage otherUsage)
    (room : usage.chain + count ≤ usage.limits.maxChain)
    (otherRoom : otherUsage.chain + count ≤ otherUsage.limits.maxChain) :
    likeness.Pairs (usage.link count room) (otherUsage.link count otherRoom) := by
  obtain ⟨isSmall, isLarge, depth, chain⟩ := pairs
  exact ⟨isSmall, isLarge, depth, congrArg (· + count) chain⟩

/-- What is given back at the end of two readings does not tell them apart. -/
theorem AlikeFrom.giveBack {taken otherTaken : Usage}
    {release? : Usage → Option Usage} (released : release? taken = some usage)
    (otherReleased : release? otherTaken = some otherUsage)
    (alike : likeness.AlikeFrom taken otherTaken reading other related) :
    likeness.AlikeFrom usage otherUsage (fun _ => Reading.giveBack release? (reading taken))
      (fun _ => Reading.giveBack release? (other otherTaken)) related := by
  unfold AlikeFrom at alike ⊢
  cases ran : reading taken with
  | ok result after =>
      rw [ran] at alike
      obtain ⟨rfl, otherResult, answered, holds⟩ := alike
      simpa [Reading.giveBack, released, otherReleased, answered] using holds
  | error error after =>
      rw [ran] at alike
      rcases alike with ⟨rfl, excused | ⟨otherError, failed, same⟩⟩
      · simp [Reading.giveBack, released, excused]
      · simp [Reading.giveBack, released, otherReleased, failed, same]

theorem alikeFrom_nested {start index : Nat} (maps : likeness.Maps start index)
    (inside : index < likeness.high) (pairs : likeness.Pairs usage otherUsage)
    (alike : ∀ (room : usage.depth < usage.limits.maxDepth)
      (otherRoom : otherUsage.depth < otherUsage.limits.maxDepth),
      likeness.AlikeFrom (usage.enter room) (otherUsage.enter otherRoom) reading other related) :
    likeness.AlikeFrom usage otherUsage (Reading.nested first start reading)
      (Reading.nested second index other) related := by
  obtain ⟨isSmall, isLarge, depth, chain⟩ := pairs
  have within := likeness.within.1
  unfold AlikeFrom Reading.nested
  by_cases room : usage.depth < usage.limits.maxDepth
  · have otherRoom : otherUsage.depth < otherUsage.limits.maxDepth := by
      rw [isSmall] at room
      rw [isLarge]
      omega
    simp only [room, otherRoom, ↓reduceDIte]
    exact (alike room otherRoom).giveBack (Usage.leave?_enter usage room)
      (Usage.leave?_enter otherUsage otherRoom)
  · simp only [room, ↓reduceDIte, true_and]
    have isLimit (token : Token) : (ParseError.tooDeep usage.limits.maxDepth token).IsLimit :=
      trivial
    rcases limitAt_meets isLimit maps inside with excused | ⟨equal, same⟩
    · exact .inl excused
    · have noRoom : ¬otherUsage.depth < otherUsage.limits.maxDepth := by
        rwa [isLarge, ← equal, ← isSmall, ← depth]
      simp only [noRoom, ↓reduceDIte]
      refine .inr ⟨_, rfl, ?_⟩
      rwa [isLarge, ← equal, ← isSmall]

theorem alike_nested {start index : Nat} (maps : likeness.Maps start index)
    (inside : index < likeness.high) (alike : likeness.Alike reading other related) :
    likeness.Alike (Reading.nested first start reading) (Reading.nested second index other)
      related :=
  fun _ _ pairs => alikeFrom_nested maps inside pairs fun room otherRoom =>
    alike _ _ (pairs.enter room otherRoom)

theorem alike_chained {start index count : Nat} (maps : likeness.Maps start index)
    (inside : index < likeness.high) (alike : likeness.Alike reading other related) :
    likeness.Alike (Reading.chained first start count reading)
      (Reading.chained second index count other) related := by
  intro usage otherUsage pairs
  obtain ⟨isSmall, isLarge, depth, chain⟩ := pairs
  have within := likeness.within.2
  unfold AlikeFrom Reading.chained
  by_cases room : usage.chain + count ≤ usage.limits.maxChain
  · have otherRoom : otherUsage.chain + count ≤ otherUsage.limits.maxChain := by
      rw [isSmall] at room
      rw [isLarge]
      omega
    have held := alike _ _ (Pairs.link ⟨isSmall, isLarge, depth, chain⟩ room otherRoom)
    simp only [room, otherRoom, ↓reduceDIte]
    exact held.giveBack (Usage.unlink?_link usage count room)
      (Usage.unlink?_link otherUsage count otherRoom)
  · simp only [room, ↓reduceDIte, true_and]
    have isLimit (token : Token) : (ParseError.tooLong usage.limits.maxChain token).IsLimit :=
      trivial
    rcases limitAt_meets isLimit maps inside with excused | ⟨equal, same⟩
    · exact .inl excused
    · have noRoom : ¬otherUsage.chain + count ≤ otherUsage.limits.maxChain := by
        rwa [isLarge, ← equal, ← isSmall, ← chain]
      simp only [noRoom, ↓reduceDIte]
      refine .inr ⟨_, rfl, ?_⟩
      rwa [isLarge, ← equal, ← isSmall]

/-- Two probes have the same success, unless the first fails with an error that is excused. -/
theorem AlikeFrom.succeeds {accepts : α → Reading Bool} {otherAccepts : β → Reading Bool}
    (alike : likeness.AlikeFrom usage otherUsage reading other related)
    (unexcused : ∀ error after, reading usage = .error error after → ¬likeness.excused error)
    (accepted : ∀ result otherResult, related result otherResult →
      likeness.AlikeFrom usage otherUsage (accepts result) (otherAccepts otherResult) Eq) :
    likeness.AlikeFrom usage otherUsage (reading.succeeds accepts) (other.succeeds otherAccepts)
      Eq := by
  unfold AlikeFrom at alike
  unfold AlikeFrom Reading.succeeds
  cases ran : reading usage with
  | ok result after =>
      rw [ran] at alike
      obtain ⟨rfl, otherResult, answered, holds⟩ := alike
      rw [answered]
      exact accepted result otherResult holds
  | error error after =>
      rw [ran] at alike
      obtain ⟨rfl, held⟩ := alike
      obtain ⟨otherError, failed, noFault, otherNoFault, -⟩ :=
        held.resolve_left (unexcused error after ran)
      rw [failed]
      cases error with
      | fault => exact absurd trivial noFault
      | _ =>
          cases otherError with
          | fault => exact absurd trivial otherNoFault
          | _ => exact ⟨rfl, false, rfl, rfl⟩

/-- Walks over lists have the same results if they have the same results item by item. Of an item
it is known that the items before it have been read. -/
theorem alikeFrom_mapM {ι κ : Type} {paired : ι → κ → Prop} {step : ι → Reading α}
    {otherStep : κ → Reading α} {items : List ι} {otherItems : List κ}
    (matched : List.Forall₂ paired items otherItems)
    (each : ∀ before item later otherItem, items = before ++ item :: later →
      (∀ earlier ∈ before, ∃ result, step earlier usage = .ok result usage) →
      paired item otherItem →
      likeness.AlikeFrom usage otherUsage (step item) (otherStep otherItem) Eq) :
    likeness.AlikeFrom usage otherUsage (items.mapM step) (otherItems.mapM otherStep) Eq := by
  induction matched with
  | nil => exact ⟨rfl, [], rfl, rfl⟩
  | @cons item otherItem rest otherRest here _ inductionHypothesis =>
      rw [List.mapM_cons, List.mapM_cons]
      refine (each [] item rest otherItem rfl (by simp) here).bind ?_
      intro result otherResult answered _ same
      refine AlikeFrom.bind (inductionHypothesis ?_) fun results otherResults _ _ sameRest => ?_
      · intro before next later otherNext split read
        refine each (item :: before) next later otherNext (by rw [split, List.cons_append]) ?_
        exact List.forall_mem_cons.mpr ⟨⟨result, answered⟩, read⟩
      · exact ⟨rfl, _, rfl, by rw [same, sameRest]⟩

theorem alike_mapM {ι κ : Type} {paired : ι → κ → Prop} {step : ι → Reading α}
    {otherStep : κ → Reading α} {items : List ι} {otherItems : List κ}
    (each : ∀ item otherItem, paired item otherItem →
      likeness.Alike (step item) (otherStep otherItem) Eq)
    (matched : List.Forall₂ paired items otherItems) :
    likeness.Alike (items.mapM step) (otherItems.mapM otherStep) Eq :=
  fun usage otherUsage pairs => alikeFrom_mapM matched fun _ item _ otherItem _ _ here =>
    each item otherItem here usage otherUsage pairs

/-- Folds over lists are alike if their steps keep what is folded related. -/
theorem alike_foldlM {ι κ : Type} {paired : ι → κ → Prop} {step : α → ι → Reading α}
    {otherStep : β → κ → Reading β} {items : List ι} {otherItems : List κ}
    (each : ∀ item otherItem result otherResult, paired item otherItem →
      related result otherResult →
      likeness.Alike (step result item) (otherStep otherResult otherItem) related)
    (matched : List.Forall₂ paired items otherItems) {start : α} {otherStart : β}
    (starts : related start otherStart) :
    likeness.Alike (items.foldlM step start) (otherItems.foldlM otherStep otherStart)
      related := by
  induction matched generalizing start otherStart with
  | nil => exact alike_pure starts
  | cons here _ inductionHypothesis =>
      rw [List.foldlM_cons, List.foldlM_cons]
      exact (each _ _ _ _ here starts).bind fun _ _ holds => inductionHypothesis holds

/-! ### Errors that are excused -/

/-- A reading that fails with an excused error is like any other. -/
theorem alikeFrom_of_excused {error : ParseError}
    (failed : reading usage = .error error usage) (excused : likeness.excused error) :
    likeness.AlikeFrom usage otherUsage reading other related := by
  unfold AlikeFrom
  rw [failed]
  exact ⟨rfl, .inl excused⟩

def excusing (likeness : Likeness first second) (more : ParseError → Prop) :
    Likeness first second :=
  { likeness with
    excused := fun error => likeness.excused error ∨ more error
    limited := likeness.limited.imp_right fun excuses error isLimit =>
      .inl (excuses error isLimit) }

theorem AlikeFrom.excusing {more : ParseError → Prop}
    (alike : likeness.AlikeFrom usage otherUsage reading other related) :
    (likeness.excusing more).AlikeFrom usage otherUsage reading other related := by
  unfold AlikeFrom at alike ⊢
  cases ran : reading usage with
  | ok result after =>
      rw [ran] at alike
      exact alike
  | error error after =>
      rw [ran] at alike
      exact ⟨alike.1, alike.2.imp_left .inl⟩

/-- Streams that agree in a range are alike there, under the same limits and with no error
excused. -/
def ofRange {low high : Nat} (size : high ≤ second.size)
    (agree : ∀ index, low ≤ index → index < high → first[index]? = second[index]?)
    (limits : Limits) : Likeness first second where
  offset := 0
  low := low
  high := high
  tokenWithin := by
    intro index low_le_index index_lt_high
    have present := Array.getElem?_eq_getElem (Nat.lt_of_lt_of_le index_lt_high size)
    rw [Nat.zero_add, agree index low_le_index index_lt_high]
    exact ⟨_, present, present⟩
  small := limits
  large := limits
  within := .refl limits
  excused := fun _ => False
  exact := False
  limited := limits.eq_or_excused
  ending := False.elim

/-- An exact likeness that excuses no error has the same result on both sides. -/
theorem AlikeFrom.eq_of_exact {reading other : Reading α} {usage : Usage}
    (exact : likeness.exact)
    (unexcused : ∀ error, ¬likeness.excused error)
    (alike : likeness.AlikeFrom usage usage reading other Eq) : reading usage = other usage := by
  unfold AlikeFrom at alike
  cases ran : reading usage with
  | ok result after =>
      rw [ran] at alike
      obtain ⟨rfl, otherResult, answered, rfl⟩ := alike
      exact answered.symm
  | error error after =>
      rw [ran] at alike
      obtain ⟨rfl, held⟩ := alike
      obtain ⟨otherError, failed, -, -, same⟩ := held.resolve_left (unexcused error)
      rw [failed, same exact]

end Alike

end Likeness

end TnslReader
