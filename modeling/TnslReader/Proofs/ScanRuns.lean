import TnslReader.Proofs.ScanSteps

/-!
Contract: what a whole scan gives, as the tokens of its first step and then those of the rest.

Owns:
- the tokens and the last state of a scan, and induction on the steps of a scan;
- that a text none of whose steps looks behind it is scanned apart from what comes there.
-/

set_option autoImplicit false

namespace TnslReader.Scan

def tokensFrom (state : State) (text : List Char) : List Token :=
  (scanOnto #[] state text).1.toList

def stateAfter (state : State) (text : List Char) : State :=
  (scanOnto #[] state text).2

theorem scan_induction {motive : State → List Char → Prop}
    (nil : ∀ state, motive state [])
    (cons : ∀ state first rest,
      motive (step state first rest).state (step state first rest).rest →
        motive state (first :: rest)) :
    ∀ state text, motive state text
  | state, [] => nil state
  | state, first :: rest => cons state first rest (scan_induction nil cons _ _)
termination_by _ text => text.length
decreasing_by
  have := step_rest_length_le state first rest
  simp only [List.length_cons]
  omega

theorem scanOnto_eq (tokens : Array Token) (state : State) (text : List Char) :
    scanOnto tokens state text =
      (tokens ++ (tokensFrom state text).toArray, stateAfter state text) := by
  induction state, text using scan_induction generalizing tokens with
  | nil state => simp [tokensFrom, stateAfter, scanOnto]
  | cons state first rest inductionHypothesis =>
      unfold tokensFrom stateAfter
      rw [scanOnto, scanOnto, inductionHypothesis, inductionHypothesis]
      refine Prod.ext (Array.ext' ?_) rfl
      simp

@[simp] theorem tokensFrom_nil (state : State) : tokensFrom state [] = [] := by
  simp [tokensFrom, scanOnto]

@[simp] theorem stateAfter_nil (state : State) : stateAfter state [] = state := by
  simp [stateAfter, scanOnto]

theorem tokensFrom_cons (state : State) (first : Char) (rest : List Char) :
    tokensFrom state (first :: rest) = (step state first rest).tokens ++
      tokensFrom (step state first rest).state (step state first rest).rest := by
  rw [tokensFrom, scanOnto, scanOnto_eq]
  simp

theorem stateAfter_cons (state : State) (first : Char) (rest : List Char) :
    stateAfter state (first :: rest) =
      stateAfter (step state first rest).state (step state first rest).rest := by
  rw [stateAfter, scanOnto, scanOnto_eq]

/-- The tokens of a text whose first step is described. -/
theorem Takes.tokensFrom_eq {state : State} {text : List Char} {taken : Step}
    (takes : Takes state text taken) :
    tokensFrom state text = taken.tokens ++ tokensFrom taken.state taken.rest := by
  obtain ⟨first, rest, rfl, rfl⟩ := takes.exists_step
  exact tokensFrom_cons state first rest

theorem toList_scan (source : String) : (scan source).toList = tokensFrom .start source.toList :=
  rfl

/-! ### Texts that are scanned apart -/

/-- Whether no step within a text is changed by what comes behind the text. -/
inductive Apart (more : List Char) : State → List Char → Prop where
  | nil {state : State} : Apart more state []
  | cons {state : State} {first : Char} {rest : List Char}
      (same : step state first (rest ++ more) = (step state first rest).onto more)
      (later : Apart more (step state first rest).state (step state first rest).rest) :
      Apart more state (first :: rest)

theorem Apart.append {more : List Char} {state : State} {text : List Char}
    (apart : Apart more state text) :
    tokensFrom state (text ++ more) =
        tokensFrom state text ++ tokensFrom (stateAfter state text) more ∧
      stateAfter state (text ++ more) = stateAfter (stateAfter state text) more := by
  induction apart with
  | nil => simp
  | @cons state first rest same later inductionHypothesis =>
      obtain ⟨tokens, state⟩ := inductionHypothesis
      rw [List.cons_append, tokensFrom_cons, tokensFrom_cons, stateAfter_cons, stateAfter_cons,
        same]
      simp only [Step.onto, tokens, state, List.append_assoc, and_self]

end TnslReader.Scan
