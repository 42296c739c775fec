import TnslReader.Proofs.Slice
import TnslReader.Grammar.Reading
import TnslReader.Tree.Kind

/-!
Contract: what a reading ensures.

A reading ensures a property if it answers with the property or fails with an error that arises in
the stream, and in both cases gives back all that it took of the limits. Each way to build a reading
has one rule here, so that a proof about a reading follows its text from top to bottom and never
opens the state.

Owns:
- errors that arise in a token stream, which is where they stand; a fault arises in none;
- the rules for answers without state (`Sound`) and for readings (`Reading.Ensures`);
- how a reading in two parts runs if it is known how the first part does.
-/

set_option autoImplicit false

namespace TnslReader

namespace Token

def SamePlace (token other : Token) : Prop :=
  token.line = other.line ∧ token.column = other.column ∧ token.span = other.span

def PlacedAmong (token : Token) (text : List Token) : Prop :=
  ∃ anchor ∈ text, token.SamePlace anchor

theorem placedAmong_of_mem {token : Token} {text : List Token} (member : token ∈ text) :
    token.PlacedAmong text :=
  ⟨token, member, rfl, rfl, rfl⟩

end Token

def NodeKind.valueBracket? : NodeKind → Option Bracket
  | .call => some .round
  | .composite | .index => some .curly
  | .cast => some .square
  | _ => none

/-- Whether the token is made for a value that takes brackets, in the place of an opening bracket of
the text. -/
def Token.TagsBracket (token : Token) (text : List Token) : Prop :=
  ∃ (kind : NodeKind) (bracket : Bracket) (opener : Token),
    kind.valueBracket? = some bracket ∧ opener ∈ text ∧ opener.opens? = some bracket ∧
      token = .tag kind.tag opener

theorem Token.TagsBracket.mono {token : Token} {text other : List Token}
    (tags : token.TagsBracket text) (subset : text ⊆ other) : token.TagsBracket other := by
  obtain ⟨kind, bracket, opener, takes, member, opens, made⟩ := tags
  exact ⟨kind, bracket, opener, takes, subset member, opens, made⟩

theorem Token.TagsBracket.placedAmong {token : Token} {text : List Token}
    (tags : token.TagsBracket text) : token.PlacedAmong text := by
  obtain ⟨kind, bracket, opener, -, member, -, rfl⟩ := tags
  exact ⟨opener, member, rfl, rfl, rfl⟩

namespace ParseError

def StandsIn (tokens : Array Token) : ParseError → Prop
  | .violation _ token => token.PlacedAmong tokens.toList
  | .endOfInput _ last => last = tokens.back?
  | .tooDeep _ token => token ∈ tokens
  | .tooLong _ token => token ∈ tokens
  | .fault _ => False

/-- Whether the error is about a token of the stream, or about its end. One violation may be about a
token that is made for a value: an item of a definition that is no name is told by its node. -/
def ArisesIn (tokens : Array Token) : ParseError → Prop
  | .violation cause token =>
      token ∈ tokens ∨ cause = .expected .definedName ∧ token.TagsBracket tokens.toList
  | .endOfInput _ last => last = tokens.back?
  | .tooDeep _ token => token ∈ tokens
  | .tooLong _ token => token ∈ tokens
  | .fault _ => False

theorem ArisesIn.standsIn {tokens : Array Token} {error : ParseError}
    (arises : error.ArisesIn tokens) : error.StandsIn tokens := by
  cases error with
  | violation cause token =>
      rcases arises with member | ⟨-, tags⟩
      · exact Token.placedAmong_of_mem (Array.mem_toList_iff.mpr member)
      · exact tags.placedAmong
  | endOfInput | tooDeep | tooLong | fault => exact arises

theorem violationAt_arisesIn (tokens : Array Token) (index : Nat) (cause : Violation) :
    (violationAt tokens index cause).ArisesIn tokens := by
  unfold violationAt
  split
  next token present => exact .inl (Array.mem_of_getElem? present)
  next => rfl

theorem expected_arisesIn (tokens : Array Token) (index : Nat) (expectation : Expectation) :
    (expected tokens index expectation).ArisesIn tokens := by
  unfold expected
  split
  next token present => exact .inl (Array.mem_of_getElem? present)
  next => rfl

theorem limitAt_arisesIn (tokens : Array Token) (index : Nat) (make : Token → ParseError)
    (arises : ∀ token ∈ tokens, (make token).ArisesIn tokens) :
    (limitAt tokens index make).ArisesIn tokens := by
  unfold limitAt
  split
  next token found =>
    apply arises
    rcases Option.or_eq_some_iff.mp found with present | ⟨-, last⟩
    · exact Array.mem_of_getElem? present
    · exact Array.mem_of_back? last
  next found => exact (Option.or_eq_none_iff.mp found).2.symm

end ParseError

def Sound {α : Type} (tokens : Array Token) (answer : Except ParseError α)
    (property : α → Prop) : Prop :=
  match answer with
  | .ok result => property result
  | .error error => error.ArisesIn tokens

namespace Sound

variable {α β : Type} {tokens : Array Token} {property : α → Prop} {other : β → Prop}
  {answer : Except ParseError α}

theorem ok {result : α} (holds : property result) : Sound tokens (.ok result) property :=
  holds

theorem violationAt (tokens : Array Token) (index : Nat) (cause : Violation) :
    Sound tokens (.error (.violationAt tokens index cause)) property :=
  ParseError.violationAt_arisesIn tokens index cause

theorem expected (tokens : Array Token) (index : Nat) (expectation : Expectation) :
    Sound tokens (.error (.expected tokens index expectation)) property :=
  ParseError.expected_arisesIn tokens index expectation

theorem bind {next : α → Except ParseError β} (first : Sound tokens answer property)
    (second : ∀ result, property result → Sound tokens (next result) other) :
    Sound tokens (answer >>= next) other := by
  cases answer with
  | ok result => exact second result first
  | error error => exact first

theorem mono {weaker : α → Prop} (strong : Sound tokens answer property)
    (implies : ∀ result, property result → weaker result) : Sound tokens answer weaker := by
  cases answer with
  | ok result => exact implies result strong
  | error error => exact strong

@[simp] theorem ok_bind (result : α) (next : α → Except ParseError β) :
    (Except.ok result >>= next) = next result :=
  rfl

@[simp] theorem tokenAt_eq_ok {index : Nat} {token : Token}
    (present : tokens[index]? = some token) : Reading.tokenAt tokens index = .ok token := by
  simp [Reading.tokenAt, present]

theorem tokenAt {index : Nat} (bound : index < tokens.size) :
    Sound tokens (Reading.tokenAt tokens index) fun token => tokens[index]? = some token := by
  simp [Reading.tokenAt, Sound, bound]

end Sound

namespace Reading

/-- From `usage`, the reading gives back all that it takes of the limits, and answers with the
property or fails in the stream. -/
def Ensures {α : Type} (reading : Reading α) (tokens : Array Token) (usage : Usage)
    (property : α → Prop) : Prop :=
  reading.usageAfter usage = usage ∧ Sound tokens (reading.answer usage) property

variable {α β : Type} {tokens : Array Token} {usage : Usage} {property : α → Prop}
  {other : β → Prop}

theorem Ensures.mono {reading : Reading α} {weaker : α → Prop}
    (strong : reading.Ensures tokens usage property)
    (implies : ∀ result, property result → weaker result) :
    reading.Ensures tokens usage weaker :=
  ⟨strong.1, strong.2.mono implies⟩

theorem ensures_pure {result : α} (holds : property result) :
    Ensures (pure result) tokens usage property :=
  ⟨rfl, holds⟩

theorem ensures_throw {error : ParseError} (arises : error.ArisesIn tokens) :
    Ensures (throw error) tokens usage property :=
  ⟨rfl, arises⟩

theorem ensures_violationAt (index : Nat) (cause : Violation) :
    Ensures (throw (.violationAt tokens index cause)) tokens usage property :=
  ensures_throw (ParseError.violationAt_arisesIn tokens index cause)

theorem ensures_expected (index : Nat) (expectation : Expectation) :
    Ensures (throw (.expected tokens index expectation)) tokens usage property :=
  ensures_throw (ParseError.expected_arisesIn tokens index expectation)

theorem ensures_lift {answer : Except ParseError α} (sound : Sound tokens answer property) :
    Ensures (liftM answer) tokens usage property := by
  cases answer with
  | ok result => exact ⟨rfl, sound⟩
  | error error => exact ⟨rfl, sound⟩

theorem ensures_tokenAt {index : Nat} (bound : index < tokens.size) :
    Ensures (liftM (tokenAt tokens index)) tokens usage
      fun token => tokens[index]? = some token :=
  ensures_lift (Sound.tokenAt bound)

/-- A reading ensures a property exactly if its result, taken apart, says so. -/
theorem ensures_iff {reading : Reading α} :
    reading.Ensures tokens usage property ↔
      match reading usage with
      | .ok result after => after = usage ∧ property result
      | .error error after => after = usage ∧ error.ArisesIn tokens := by
  unfold Ensures answer usageAfter Sound
  cases reading usage <;> rfl

theorem Ensures.bind {reading : Reading α} {next : α → Reading β}
    (first : reading.Ensures tokens usage property)
    (second : ∀ result, property result → (next result).Ensures tokens usage other) :
    (reading >>= next).Ensures tokens usage other := by
  rw [ensures_iff] at first ⊢
  change match EStateM.bind reading next usage with
    | .ok result after => after = usage ∧ other result
    | .error error after => after = usage ∧ error.ArisesIn tokens
  unfold EStateM.bind
  cases ran : reading usage with
  | ok result after =>
      rw [ran] at first
      obtain ⟨rfl, holds⟩ := first
      exact ensures_iff.mp (second result holds)
  | error error after =>
      rw [ran] at first
      exact first

/-- To read a token that is there is to go on with it. -/
theorem ensures_tokenAt_bind {index : Nat} {token : Token} {next : Token → Reading β}
    (present : tokens[index]? = some token) (later : (next token).Ensures tokens usage other) :
    (liftM (tokenAt tokens index) >>= next).Ensures tokens usage other := by
  rw [Sound.tokenAt_eq_ok present]
  exact later

theorem ensures_nested {index : Nat} {body : Reading α}
    (inner : ∀ room : usage.depth < usage.limits.maxDepth,
      body.Ensures tokens (usage.enter room) property) :
    (nested tokens index body).Ensures tokens usage property := by
  rw [ensures_iff]
  unfold nested
  by_cases room : usage.depth < usage.limits.maxDepth
  · have held := ensures_iff.mp (inner room)
    simp only [room, ↓reduceDIte]
    cases ran : body (usage.enter room) with
    | ok result after =>
        rw [ran] at held
        obtain ⟨rfl, holds⟩ := held
        simpa [giveBack] using holds
    | error error after =>
        rw [ran] at held
        obtain ⟨rfl, arises⟩ := held
        simpa [giveBack] using arises
  · simp only [room, ↓reduceDIte, true_and]
    exact ParseError.limitAt_arisesIn tokens index _ fun token member => member

theorem ensures_chained {index count : Nat} {body : Reading α}
    (inner : ∀ room : usage.chain + count ≤ usage.limits.maxChain,
      body.Ensures tokens (usage.link count room) property) :
    (chained tokens index count body).Ensures tokens usage property := by
  rw [ensures_iff]
  unfold chained
  by_cases room : usage.chain + count ≤ usage.limits.maxChain
  · have held := ensures_iff.mp (inner room)
    simp only [room, ↓reduceDIte]
    cases ran : body (usage.link count room) with
    | ok result after =>
        rw [ran] at held
        obtain ⟨rfl, holds⟩ := held
        simpa [giveBack] using holds
    | error error after =>
        rw [ran] at held
        obtain ⟨rfl, arises⟩ := held
        simpa [giveBack] using arises
  · simp only [room, ↓reduceDIte, true_and]
    exact ParseError.limitAt_arisesIn tokens index _ fun token member => member

theorem ensures_succeeds {probe : Reading α} {accepts : α → Reading Bool}
    {answered : Bool → Prop} (probed : probe.Ensures tokens usage property)
    (accepted : ∀ result, property result → (accepts result).Ensures tokens usage answered)
    (refused : answered false) :
    (probe.succeeds accepts).Ensures tokens usage answered := by
  rw [ensures_iff] at probed ⊢
  unfold succeeds
  cases ran : probe usage with
  | ok result after =>
      rw [ran] at probed
      obtain ⟨rfl, holds⟩ := probed
      exact ensures_iff.mp (accepted result holds)
  | error error after =>
      rw [ran] at probed
      obtain ⟨rfl, arises⟩ := probed
      cases error with
      | fault fault => exact arises.elim
      | violation | endOfInput | tooDeep | tooLong => exact ⟨rfl, refused⟩

/-- What a walk over a list ensures of each of its results, it ensures of them together. -/
theorem ensures_mapM {step : α → Reading β} {related : α → β → Prop} (items : List α)
    (each : ∀ item ∈ items, (step item).Ensures tokens usage (related item)) :
    (items.mapM step).Ensures tokens usage (List.Forall₂ related items) := by
  induction items with
  | nil => exact ensures_pure List.Forall₂.nil
  | cons item items inductionHypothesis =>
      rw [List.mapM_cons]
      refine (each item (by simp)).bind fun result holds => ?_
      refine (inductionHypothesis fun later member => each later (by simp [member])).bind
        fun results hold => ?_
      exact ensures_pure (List.Forall₂.cons holds hold)

/-! ### The run of a reading in two parts -/

variable {reading : Reading α} {next : α → Reading β} {after : Usage}

theorem lift_ok_bind (result : α) (next : α → Reading β) :
    (liftM (Except.ok result : Except ParseError α) >>= next : Reading β) = next result :=
  rfl

theorem bind_eq_of_ok {result : α} (answered : reading usage = .ok result after) :
    (reading >>= next) usage = next result after := by
  change EStateM.bind reading next usage = _
  rw [EStateM.bind, answered]

theorem bind_eq_of_error {error : ParseError} (failed : reading usage = .error error after) :
    (reading >>= next) usage = .error error after := by
  change EStateM.bind reading next usage = _
  rw [EStateM.bind, failed]

theorem bind_congr_left {other : Reading α} (same : reading usage = other usage) :
    (reading >>= next) usage = (other >>= next) usage := by
  change EStateM.bind reading next usage = EStateM.bind other next usage
  rw [EStateM.bind, EStateM.bind, same]

/-- A reading in two parts has an answer only if the first part has one. -/
theorem exists_ok_of_bind {result : β} (answered : (reading >>= next) usage = .ok result after) :
    ∃ first middle, reading usage = .ok first middle ∧ next first middle = .ok result after := by
  change EStateM.bind reading next usage = _ at answered
  unfold EStateM.bind at answered
  cases ran : reading usage with
  | ok first middle =>
      rw [ran] at answered
      exact ⟨first, middle, rfl, answered⟩
  | error error middle =>
      rw [ran] at answered
      cases answered

theorem answer_bind_pure {change : α → β} :
    (reading >>= fun result => pure (change result)).answer usage =
      (reading.answer usage).map change := by
  change (match EStateM.bind reading (fun result => pure (change result)) usage with
    | .ok result _ => Except.ok result
    | .error error _ => .error error) = _
  unfold EStateM.bind answer
  cases reading usage <;> rfl

end Reading

end TnslReader
