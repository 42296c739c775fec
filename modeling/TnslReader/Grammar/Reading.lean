import TnslReader.Grammar.Violation

/-!
Contract: computations that read a token stream under limits.

A reading either answers or fails, and all along it keeps account of how much of two limits is in
use: the levels of nesting, and the operators chained along the path from the root. What is in use
never exceeds the limits; that is part of the type `Usage`.

`nested` and `chained` are the only operations here that take from a limit. Each gives back what it
took once its body ends, in an answer or in an error.

Does not own: where a grammar nests or chains.
-/

set_option autoImplicit false

namespace TnslReader

structure Limits where
  /-- The most levels of blocks, values, types and unary operators within each other. -/
  maxDepth : Nat
  /-- The most operators chained along one path from the root. -/
  maxChain : Nat
deriving DecidableEq, Repr

def Limits.standard : Limits := ⟨256, 4096⟩

/-- The limits of a reading and how much of them is in use. -/
structure Usage where
  limits : Limits
  depth : Nat
  chain : Nat
  depth_le : depth ≤ limits.maxDepth
  chain_le : chain ≤ limits.maxChain

namespace Usage

def none (limits : Limits) : Usage :=
  ⟨limits, 0, 0, Nat.zero_le _, Nat.zero_le _⟩

@[ext] theorem ext {first second : Usage} (limits : first.limits = second.limits)
    (depth : first.depth = second.depth) (chain : first.chain = second.chain) :
    first = second := by
  cases first
  cases second
  cases limits
  cases depth
  cases chain
  rfl

def enter (usage : Usage) (room : usage.depth < usage.limits.maxDepth) : Usage :=
  { usage with depth := usage.depth + 1, depth_le := room }

def leave? (usage : Usage) : Option Usage :=
  if 0 < usage.depth then
    some { usage with
      depth := usage.depth - 1
      depth_le := Nat.le_trans (Nat.sub_le ..) usage.depth_le }
  else
    Option.none

def link (usage : Usage) (count : Nat) (room : usage.chain + count ≤ usage.limits.maxChain) :
    Usage :=
  { usage with chain := usage.chain + count, chain_le := room }

def unlink? (count : Nat) (usage : Usage) : Option Usage :=
  if count ≤ usage.chain then
    some { usage with
      chain := usage.chain - count
      chain_le := Nat.le_trans (Nat.sub_le ..) usage.chain_le }
  else
    Option.none

@[simp] theorem leave?_enter (usage : Usage) (room : usage.depth < usage.limits.maxDepth) :
    (usage.enter room).leave? = some usage := by
  simp [leave?, enter]

@[simp] theorem unlink?_link (usage : Usage) (count : Nat)
    (room : usage.chain + count ≤ usage.limits.maxChain) :
    (usage.link count room).unlink? count = some usage := by
  simp [unlink?, link]

end Usage

/-- A computation that reads tokens: it answers or fails, and in both cases accounts for what is in
use of the limits. -/
abbrev Reading (α : Type) : Type :=
  EStateM ParseError Usage α

namespace Reading

def ofExcept {α : Type} (answer : Except ParseError α) : Reading α :=
  match answer with
  | .ok value => pure value
  | .error error => throw error

instance : MonadLift (Except ParseError) Reading where
  monadLift := ofExcept

def answer {α : Type} (reading : Reading α) (usage : Usage) : Except ParseError α :=
  match reading usage with
  | .ok value _ => .ok value
  | .error error _ => .error error

def usageAfter {α : Type} (reading : Reading α) (usage : Usage) : Usage :=
  match reading usage with
  | .ok _ after => after
  | .error _ after => after

/-- Gives something back at the end of a computation, whichever way it ended. -/
def giveBack {α : Type} (release? : Usage → Option Usage) :
    EStateM.Result ParseError Usage α → EStateM.Result ParseError Usage α
  | .ok value usage =>
      match release? usage with
      | some after => .ok value after
      | none => .error (.fault .nothingInUse) usage
  | .error error usage =>
      match release? usage with
      | some after => .error error after
      | none => .error (.fault .nothingInUse) usage

/-- The token at an index where one has to stand. -/
def tokenAt (tokens : Array Token) (index : Nat) : Except ParseError Token :=
  match tokens[index]? with
  | some token => .ok token
  | none => .error (.fault (.missingToken index))

/-- Runs `body` one level deeper. Fails at the token at `index` if there is no such level. -/
def nested {α : Type} (tokens : Array Token) (index : Nat) (body : Reading α) : Reading α :=
  fun usage =>
    if room : usage.depth < usage.limits.maxDepth then
      giveBack Usage.leave? (body (usage.enter room))
    else
      .error (.limitAt tokens index (.tooDeep usage.limits.maxDepth)) usage

/-- Runs `body` with `count` chained operators more. Fails at the token at `index` if these are too
many. -/
def chained {α : Type} (tokens : Array Token) (index count : Nat) (body : Reading α) :
    Reading α :=
  fun usage =>
    if room : usage.chain + count ≤ usage.limits.maxChain then
      giveBack (Usage.unlink? count) (body (usage.link count room))
    else
      .error (.limitAt tokens index (.tooLong usage.limits.maxChain)) usage

/-- Whether `probe` answers. Its own errors count as a no, but a fault stays a fault. -/
def succeeds {α : Type} (probe : Reading α) (accepts : α → Reading Bool) : Reading Bool :=
  fun usage =>
    match probe usage with
    | .ok value after => accepts value after
    | .error (.fault fault) after => .error (.fault fault) after
    | .error _ after => .ok false after

end Reading

end TnslReader
