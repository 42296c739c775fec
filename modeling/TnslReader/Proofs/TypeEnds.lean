import TnslReader.Proofs.ValueNesting

/-!
Contract: what makes a type, or a piece of one, go on behind the place where it ends.

Whether a piece goes on is decided by the one or two tokens behind it. So the relations of the
grammar that say so are read off the front of a text, and nothing at the end of a range goes on. The
pieces behind a name exclude one another: a name that goes on has no arguments and no mark behind
it. This is why a type goes on exactly if one of its pieces does where that piece ends.

Owns: how the questions about the end of a type are answered. What the readings do at such an end
is for those who speak of the readings.
-/

set_option autoImplicit false

namespace TnslReader

variable {tokens : Array Token} {inParameter : Bool} {name token : Token} {rest : List Token}

/-! ### The word `static` in a parameter -/

theorem not_meetsStatic_nil : ¬MeetsStatic [] :=
  nofun

theorem meetsStatic_cons :
    MeetsStatic (token :: rest) ↔
      token.keyword? = some .staticWord ∨ token.qualifies true = true ∧ MeetsStatic rest := by
  constructor
  · intro meets
    cases meets with
    | here isStatic => exact .inl isStatic
    | behind qualifies later => exact .inr ⟨qualifies, later⟩
  · rintro (isStatic | ⟨qualifies, later⟩)
    · exact .here isStatic
    · exact .behind qualifies later

/-- Behind words that qualify a parameter's type, `static` is what these end before. -/
theorem MeetsStatic.append {qualifiers : List Token}
    (qualified : ∀ token ∈ qualifiers, token.qualifies true = true) (later : MeetsStatic rest) :
    MeetsStatic (qualifiers ++ rest) := by
  induction qualifiers with
  | nil => exact later
  | cons token qualifiers inductionHypothesis =>
      exact .behind (qualified token (by simp))
        (inductionHypothesis fun other member => qualified other (by simp [member]))

/-- The words before `static` are the same in a longer text. -/
theorem MeetsStatic.append_right {text : List Token} (meets : MeetsStatic text) :
    MeetsStatic (text ++ rest) := by
  induction meets with
  | here isStatic => exact .here isStatic
  | behind qualifies _ inductionHypothesis => exact .behind qualifies inductionHypothesis

/-! ### Names -/

theorem NameGoesOn.isDot (goesOn : NameGoesOn name (token :: rest)) :
    token.isOperator .dot = true := by
  cases goesOn
  assumption

/-- A name that goes on in its range has the dot and the word there. -/
theorem NameGoesOn.present {next high : Nat} (goesOn : NameGoesOn name (slice tokens next high)) :
    next + 1 < high ∧ ∃ dot word, tokens[next]? = some dot ∧ tokens[next + 1]? = some word ∧
      dot.isOperator .dot = true ∧ word.tokenClass = .userWord := by
  generalize behind : slice tokens next high = rest at goesOn
  cases goesOn with
  | word _ isDot isWord =>
      obtain ⟨-, dotPresent, behind⟩ := eq_cons_of_slice behind
      obtain ⟨inside, wordPresent, -⟩ := eq_cons_of_slice behind
      exact ⟨inside, _, _, dotPresent, wordPresent, isDot, isWord⟩

/-- A built-in type is not the beginning of a path. -/
theorem not_nameGoesOn_of_builtinType (isBuiltin : name.tokenClass = .builtinType) :
    ¬NameGoesOn name rest := by
  intro goesOn
  cases goesOn with
  | word isPath _ _ => simp [isBuiltin] at isPath

/-- The base of a name is a built-in type or the first word of a path, and is `void` just if the
name is. -/
theorem NameText.begins {text : List Token} {path : List Node} (named : NameText text path name) :
    ∃ base rest, text = base :: rest ∧
      (base.tokenClass = .builtinType ∨ base.tokenClass = .userWord) ∧
      base.isVoid = name.isVoid := by
  have wordsBegin {text : List Token} {path : List Node} {name : Token}
      (words : DottedText text path name) :
      name.tokenClass = .userWord ∧ ∃ base rest, text = base :: rest ∧
        base.tokenClass = .userWord := by
    induction words with
    | word isWord => exact ⟨isWord, _, [], rfl, isWord⟩
    | dot isWord _ _ inductionHypothesis => exact ⟨inductionHypothesis.1, _, _, rfl, isWord⟩
  cases named with
  | builtin isBuiltin => exact ⟨name, [], rfl, .inl isBuiltin, rfl⟩
  | dotted words =>
      obtain ⟨nameIsWord, base, rest, same, isWord⟩ := wordsBegin words
      refine ⟨base, rest, same, .inr isWord, ?_⟩
      rw [Token.isVoid, Token.isVoid, nameIsWord, isWord]
      rfl

/-! ### Arguments and the mark of a reference -/

theorem not_argumentsGoOn_nil {nodes : List Node} : ¬ArgumentsGoOn name nodes [] :=
  nofun

theorem argumentsGoOn_cons :
    ArgumentsGoOn name [] (token :: rest) ↔ token.opens? = some .round := by
  constructor
  · rintro ⟨opens⟩
    exact opens
  · exact .arguments

/-- Behind its arguments only the results of `void` can still come. -/
theorem argumentsGoOn_singleton_cons {arguments : Node} :
    ArgumentsGoOn name [arguments] (token :: rest) ↔
      name.isVoid = true ∧ token.opens? = some .square := by
  constructor
  · rintro (_ | ⟨isVoid, opens⟩)
    exact ⟨isVoid, opens⟩
  · rintro ⟨isVoid, opens⟩
    exact .results isVoid opens

theorem referenceGoesOn_cons :
    ReferenceGoesOn inParameter [] (token :: rest) ↔
      inParameter = true ∧ token.isOperator .backtick = true := by
  constructor
  · rintro ⟨parameter, isMark⟩
    exact ⟨parameter, isMark⟩
  · rintro ⟨parameter, isMark⟩
    exact .mark parameter isMark

/-! ### Whole types -/

/-- A name that goes on is not followed by another piece of its type. -/
theorem NameGoesOn.behind {depth chain : Nat} {arguments reference : List Token}
    {argumentNodes referenceNodes : List Node}
    (applied : ArgumentsText depth chain name arguments argumentNodes)
    (referred : ReferenceText inParameter reference referenceNodes)
    (goesOn : NameGoesOn name (arguments ++ (reference ++ rest))) :
    argumentNodes = [] ∧ referenceNodes = [] ∧ NameGoesOn name rest := by
  have notOpener {opener : Token} (isDot : opener.isOperator .dot = true) :
      opener.opens? ≠ some .round :=
    fun opens => by simp [Token.isOperator_eq_false, Token.tokenClass_of_opens? opens] at isDot
  cases applied with
  | none =>
      cases referred with
      | none => exact ⟨rfl, rfl, goesOn⟩
      | mark _ isMark =>
          have isDot := Token.operator?_of_isOperator goesOn.isDot
          simp [Token.operator?_of_isOperator isMark] at isDot
  | arguments opens _ _ => exact absurd opens (notOpener goesOn.isDot)
  | results _ opens _ _ _ _ _ => exact absurd opens (notOpener goesOn.isDot)

theorem ArgumentsGoOn.behind {nodes : List Node} {reference : List Token}
    {referenceNodes : List Node} (referred : ReferenceText inParameter reference referenceNodes)
    (goesOn : ArgumentsGoOn name nodes (reference ++ rest)) :
    referenceNodes = [] ∧ ArgumentsGoOn name nodes rest := by
  cases referred with
  | none => exact ⟨rfl, goesOn⟩
  | mark _ isMark =>
      have opensNothing := (Token.isPlain_of_isOperator isMark).opens?
      cases goesOn with
      | arguments opens => simp [opensNothing] at opens
      | results _ opens => simp [opensNothing] at opens

/-- A type goes on if one of its pieces does where the piece ends. -/
theorem Node.goesOn_iff {depth chain : Nat} {first : Token} {arguments reference : List Token}
    {before argumentNodes referenceNodes : List Node}
    (applied : ArgumentsText depth chain name arguments argumentNodes)
    (referred : ReferenceText inParameter reference referenceNodes) :
    (Node.tagged .type first
        (before ++ ⟨.typeName, name, argumentNodes⟩ :: referenceNodes)).GoesOn inParameter rest ↔
      NameGoesOn name (arguments ++ (reference ++ rest)) ∨
        ArgumentsGoOn name argumentNodes (reference ++ rest) ∨
        ReferenceGoesOn inParameter referenceNodes rest := by
  constructor
  · rintro ⟨otherName, otherArguments, last, goesOn⟩
    cases referred with
    | none =>
        simp only [Node.tagged, List.getLast?_append, List.getLast?_singleton, Option.some_or,
          Option.some.injEq, Node.mk.injEq, true_and] at last
        obtain ⟨rfl, rfl⟩ := last
        rcases goesOn with ⟨noArguments, nameGoesOn⟩ | taken
        · cases applied <;> cases noArguments
          exact .inl nameGoesOn
        · exact .inr taken
    | mark => simp [Node.tagged, Node.leaf] at last
  · intro goesOn
    have pieces : referenceNodes = [] ∧ (argumentNodes = [] ∧ NameGoesOn name rest ∨
        ArgumentsGoOn name argumentNodes rest ∨ ReferenceGoesOn inParameter [] rest) := by
      rcases goesOn with nameGoesOn | argumentsGoOn | referenceGoesOn
      · obtain ⟨noArguments, noReference, nameGoesOn⟩ := nameGoesOn.behind applied referred
        exact ⟨noReference, .inl ⟨noArguments, nameGoesOn⟩⟩
      · obtain ⟨noReference, argumentsGoOn⟩ := argumentsGoOn.behind referred
        exact ⟨noReference, .inr (.inl argumentsGoOn)⟩
      · cases referenceGoesOn with
        | mark parameter isMark => exact ⟨rfl, .inr (.inr (.mark parameter isMark))⟩
    obtain ⟨rfl, taken⟩ := pieces
    exact ⟨name, argumentNodes, by simp [Node.tagged], taken⟩

/-- At the end of its range no type goes on. -/
theorem Node.not_goesOn_end {high : Nat} {node : Node} :
    ¬node.GoesOn inParameter (slice tokens high high) := by
  rw [slice_eq_nil tokens (Nat.le_refl high)]
  rintro ⟨name, arguments, -, ⟨-, goesOn⟩ | goesOn | goesOn⟩ <;> cases goesOn

end TnslReader
