import TnslReader.Grammar.Reading

/-!
Contract: what a list of command-line arguments asks for.

Arguments are read from left to right. An option takes the argument behind it, or text attached to
it, as its value. A value is checked only when the next option comes or the list ends, so that of
two mistakes the first is not always the one reported.

Owns:
- the options, their values, and what applies where an option is not given;
- the reasons to refuse a list of arguments, asking for help or for the version among them.

Does not own: the texts shown for help and on a refusal.
-/

set_option autoImplicit false

namespace TnslReader

def programVersion : String := "0.1.0"

inductive Level where
  | tokens
  | tree
deriving DecidableEq, Repr

inductive Format where
  | text
  | json
deriving DecidableEq, Repr

/-- A run of the program: the file it reads, the file it writes, and what it writes there. -/
structure Invocation where
  input : String
  output : String
  level : Level
  format : Format
  maxDepth : Nat
deriving DecidableEq, Repr

inductive Setting where
  | input
  | output
  | level
  | format
  | maxDepth
deriving DecidableEq, Repr

/-- Why a list of arguments leads to no run. -/
inductive Refusal where
  /-- Help is asked for. -/
  | help
  /-- The version is asked for. -/
  | version
  /-- There is no input file. -/
  | missingInput
  /-- An option lacks its value. -/
  | missingValue (setting : Setting)
  /-- A path is empty. -/
  | emptyPath (setting : Setting)
  /-- A value is none of the choices. -/
  | unknownChoice (setting : Setting) (value : String)
  /-- A value is not a number, or too large. -/
  | notANumber (value : String)
  /-- An option is given twice. -/
  | repeated (setting : Setting)
  /-- An argument means nothing. -/
  | unknownArgument (argument : String)
  /-- A flag that takes no value has one attached. -/
  | unwantedValue (argument : String)
deriving DecidableEq, Repr

def Refusal.exitCode : Refusal → Nat
  | .help | .version => 0
  | _ => 2

/-- What an option does: it sets something, or it is a flag. -/
inductive OptionMeaning where
  | sets (setting : Setting)
  | asks (refusal : Refusal)
deriving DecidableEq, Repr

def OptionMeaning.ofLong? (name : String) : Option OptionMeaning :=
  match name with
  | "out" => some (.sets .output)
  | "write-level" => some (.sets .level)
  | "format" => some (.sets .format)
  | "max-depth" => some (.sets .maxDepth)
  | "help" => some (.asks .help)
  | "version" => some (.asks .version)
  | _ => none

def OptionMeaning.ofShort? (letter : Char) : Option OptionMeaning :=
  match letter with
  | 'o' => some (.sets .output)
  | 'w' => some (.sets .level)
  | 'h' => some (.asks .help)
  | 'V' => some (.asks .version)
  | _ => none

structure Draft where
  input? : Option String
  output? : Option String
  level? : Option Level
  format? : Option Format
  maxDepth? : Option Nat
deriving DecidableEq, Repr

namespace Draft

def empty : Draft := ⟨none, none, none, none, none⟩

def isSet (draft : Draft) : Setting → Bool
  | .input => draft.input?.isSome
  | .output => draft.output?.isSome
  | .level => draft.level?.isSome
  | .format => draft.format?.isSome
  | .maxDepth => draft.maxDepth?.isSome

end Draft

def Level.ofValue? : String → Option Level
  | "tokens" | "0" => some .tokens
  | "tree" | "1" => some .tree
  | _ => none

def Format.ofValue? : String → Option Format
  | "text" => some .text
  | "json" => some .json
  | _ => none

def largestNumber : Nat := 18446744073709551615

/-- The number that a value gives: decimal digits, with or without a plus sign before them. -/
def numberOfValue? (value : String) : Option Nat :=
  let digits :=
    match value.toList with
    | '+' :: rest => rest
    | whole => whole
  if digits.isEmpty || !digits.all (fun digit => '0' ≤ digit && digit ≤ '9') then
    none
  else
    let number := digits.foldl (fun number digit => 10 * number + (digit.toNat - 48)) 0
    if number ≤ largestNumber then some number else none

namespace Draft

def checkPath (setting : Setting) (value : String) : Except Refusal String :=
  if value.isEmpty then .error (.emptyPath setting) else .ok value

/-- The draft with one setting more, from its value, which may be missing. -/
def settle (draft : Draft) (setting : Setting) (value? : Option String) :
    Except Refusal Draft :=
  match value? with
  | none => .error (.missingValue setting)
  | some value =>
      if draft.isSet setting then
        .error (.repeated setting)
      else
        match setting with
        | .input =>
            (checkPath .input value).map fun path => { draft with input? := some path }
        | .output =>
            (checkPath .output value).map fun path => { draft with output? := some path }
        | .level =>
            match Level.ofValue? value with
            | some level => .ok { draft with level? := some level }
            | none => .error (.unknownChoice .level value)
        | .format =>
            match Format.ofValue? value with
            | some format => .ok { draft with format? := some format }
            | none => .error (.unknownChoice .format value)
        | .maxDepth =>
            match numberOfValue? value with
            | some number => .ok { draft with maxDepth? := some number }
            | none => .error (.notANumber value)

def finish (draft : Draft) : Except Refusal Invocation :=
  match draft.input? with
  | none => .error .missingInput
  | some input =>
      .ok
        { input := input
          output := draft.output?.getD "out.tnt"
          level := draft.level?.getD .tree
          format := draft.format?.getD .text
          maxDepth := draft.maxDepth?.getD Limits.standard.maxDepth }

end Draft

structure ArgumentState where
  draft : Draft
  /-- The last setting met, with its value if that was met too. It is not yet checked. -/
  pending : Option (Setting × Option String)
  /-- Whether an input file was met. -/
  hasInput : Bool
deriving DecidableEq, Repr

namespace ArgumentState

def start : ArgumentState := ⟨.empty, none, false⟩

def resolve (state : ArgumentState) : Except Refusal ArgumentState :=
  match state.pending with
  | none => .ok state
  | some (setting, value?) =>
      (state.draft.settle setting value?).map fun draft =>
        { state with draft := draft, pending := none }

def attach (state : ArgumentState) (setting : Setting) (value : String) :
    Except Refusal ArgumentState := do
  let resolved ← state.resolve
  let draft ← resolved.draft.settle setting (some value)
  return { resolved with draft := draft }

def await (state : ArgumentState) (setting : Setting) : Except Refusal ArgumentState := do
  let resolved ← state.resolve
  return { resolved with pending := some (setting, none) }

/-- A flag, which ends the reading. What is pending is checked first. -/
def ask (state : ArgumentState) (refusal : Refusal) : Except Refusal ArgumentState := do
  let _ ← state.resolve
  throw refusal

def takeInput (state : ArgumentState) (argument : String) : Except Refusal ArgumentState := do
  if state.hasInput then
    throw (.unknownArgument argument)
  else
    let resolved ← state.resolve
    return { resolved with pending := some (.input, some argument), hasInput := true }

/-- An argument that is no option: the value that is awaited, if one is, or else the input file. -/
def takePlain (state : ArgumentState) (argument : String) : Except Refusal ArgumentState :=
  match state.pending with
  | some (setting, none) => .ok { state with pending := some (setting, some argument) }
  | _ => state.takeInput argument

def takeLong (state : ArgumentState) (argument : List Char) : Except Refusal ArgumentState :=
  let name := String.ofList (argument.takeWhile (· != '='))
  match OptionMeaning.ofLong? name, argument.dropWhile (· != '=') with
  | none, _ => .error (.unknownArgument (String.ofList argument))
  | some (.sets setting), [] => state.await setting
  | some (.sets setting), _ :: value => state.attach setting (String.ofList value)
  | some (.asks refusal), [] => state.ask refusal
  | some (.asks _), _ :: _ => .error (.unwantedValue name)

/-- Options with letters, given without the dash before them. The first that takes a value takes all
that follows, an equals sign between the two left out. -/
def takeShort (state : ArgumentState) (letters : List Char) : Except Refusal ArgumentState :=
  match letters with
  | [] => .ok state
  | letter :: rest =>
      match OptionMeaning.ofShort? letter with
      | none => .error (.unknownArgument (String.ofList [letter]))
      | some (.asks refusal) => state.ask refusal
      | some (.sets setting) =>
          match rest with
          | [] => state.await setting
          | '=' :: value => state.attach setting (String.ofList value)
          | value => state.attach setting (String.ofList value)

def take (state : ArgumentState) (argument : String) : Except Refusal ArgumentState :=
  match argument.toList with
  | '-' :: '-' :: name => state.takeLong name
  | ['-'] => state.takePlain argument
  | '-' :: letters => state.takeShort letters
  | _ => state.takePlain argument

end ArgumentState

/-- The state behind some arguments. From a lone `--` on, no argument is an option or the value of
one. -/
def takeArguments (state : ArgumentState) : List String → Except Refusal ArgumentState
  | [] => .ok state
  | argument :: rest =>
      if argument = "--" then
        rest.foldlM ArgumentState.takeInput state
      else do
        takeArguments (← state.take argument) rest

def Invocation.ofArguments (arguments : List String) : Except Refusal Invocation := do
  let state ← takeArguments .start arguments
  let resolved ← state.resolve
  resolved.draft.finish

end TnslReader
