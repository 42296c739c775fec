import TnslReader.Text.Blank
import TnslReader.Token
import TnslReader.Token.Literal
import TnslReader.Token.Position
import TnslReader.Token.Run

/-!
Contract: cutting source text into tokens.

Scanning never fails: text that means nothing gives tokens that no grammar accepts. The first
character decides what comes next, and each step takes at least that character:

- a blank is skipped;
- an ASCII digit begins a number, and a quote begins quoted text;
- a reserved rune begins a run, which is cut into groups; a group that is a lone `#` drops the rest
  of the line;
- any other character begins a word, which ends before a blank, a quote or a reserved rune.

Does not own: block comments, whose markers are tokens like any other here.
-/

set_option autoImplicit false

namespace TnslReader.Scan

/-- Where scanning stands, and whether the next word is read in preprocessor context. -/
structure State where
  position : Position
  inPreprocessor : Bool
deriving DecidableEq, Repr

def State.start : State := ⟨.start, false⟩

/-- What one step of scanning gives: its tokens, the state behind it, and the text left. -/
structure Step where
  tokens : List Token
  state : State
  rest : List Char
deriving DecidableEq, Repr

def isQuote (character : Char) : Bool :=
  character == '"' || character == '\''

def continuesWord (character : Char) : Bool :=
  !isBlank character && !isQuote character && !isReserved character

def tokenAt (position : Position) (tokenClass : TokenClass) (text : List Char) : Token :=
  ⟨tokenClass, String.ofList text, position.line, position.column,
    ⟨position.offset, (position.afterAll text).offset⟩⟩

def takeToken (state : State) (tokenClass : TokenClass) (text rest : List Char) : Step :=
  ⟨[tokenAt state.position tokenClass text],
    { state with position := state.position.afterAll text }, rest⟩

def groupTokens (position : Position) : List (List Char) → List Token
  | [] => []
  | group :: groups =>
      tokenAt position ((classifyGroup (String.ofList group)).getD .operator) group ::
        groupTokens (position.afterAll group) groups

/-- Whether the next word is read in preprocessor context behind the given groups. -/
def contextAfterGroups (inPreprocessor : Bool) (groups : List (List Char)) : Bool :=
  groups.foldl (fun context group => (contextAfter? (String.ofList group)).getD context)
    inPreprocessor

/-- The step that takes a run of reserved runes. A lone `#` drops all groups from there on, and the
text before the next newline. -/
def takeRun (state : State) (run rest : List Char) : Step :=
  let groups := Run.groups maxGroupLength run
  let kept := groups.takeWhile (· != ['#'])
  let dropped :=
    if groups.contains ['#'] then rest.takeWhile (· != '\n') else []
  ⟨groupTokens state.position kept,
    ⟨(state.position.afterAll run).afterAll dropped,
      contextAfterGroups state.inPreprocessor kept⟩,
    rest.drop dropped.length⟩

def step (state : State) (first : Char) (rest : List Char) : Step :=
  if isBlank first then
    ⟨[], { state with position := state.position.after first }, rest⟩
  else if Literal.isDigit first then
    let split := Literal.splitNumber (first :: rest)
    takeToken state .literal split.1 split.2
  else if isQuote first then
    let split := Literal.splitQuoted first false rest
    takeToken state .literal (first :: split.1) split.2
  else if isReserved first then
    takeRun state (first :: rest.takeWhile isReserved) (rest.dropWhile isReserved)
  else
    let word := first :: rest.takeWhile continuesWord
    takeToken state (classifyWord (String.ofList word) state.inPreprocessor) word
      (rest.dropWhile continuesWord)

private theorem dropWhile_length_le (test : Char → Bool) (characters : List Char) :
    (characters.dropWhile test).length ≤ characters.length :=
  (List.dropWhile_sublist test).length_le

private theorem splitNumber_length_le (first : Char) (rest : List Char)
    (digit : Literal.isDigit first) :
    (Literal.splitNumber (first :: rest)).2.length ≤ rest.length := by
  have outer := dropWhile_length_le Literal.isDigit rest
  unfold Literal.splitNumber
  rw [List.dropWhile_cons_of_pos digit]
  split
  · rename_i behind equation
    have inner := dropWhile_length_le Literal.isDigit behind
    rw [equation, List.length_cons] at outer
    exact Nat.le_trans inner (by omega)
  · exact outer

theorem step_rest_length_le (state : State) (first : Char) (rest : List Char) :
    (step state first rest).rest.length ≤ rest.length := by
  unfold step
  split
  · exact Nat.le_refl _
  · split
    · rename_i digit
      exact splitNumber_length_le first rest digit
    · split
      · have whole := congrArg List.length (Literal.splitQuoted_append first false rest)
        rw [List.length_append] at whole
        simp only [takeToken]
        omega
      · split
        · have := dropWhile_length_le isReserved rest
          simp only [takeRun, List.length_drop]
          omega
        · exact dropWhile_length_le continuesWord rest

def scanOnto (tokens : Array Token) (state : State) (text : List Char) : Array Token × State :=
  match text with
  | [] => (tokens, state)
  | first :: rest =>
      scanOnto (tokens ++ (step state first rest).tokens) (step state first rest).state
        (step state first rest).rest
termination_by text.length
decreasing_by
  have := step_rest_length_le state first rest
  simp only [List.length_cons]
  omega

/-- The tokens of a source text, comment markers and all that stands between them included. -/
def scan (source : String) : Array Token :=
  (scanOnto #[] .start source.toList).1

end TnslReader.Scan
