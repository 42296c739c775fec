import TnslReader.Proofs.GroupCuts
import TnslReader.Proofs.LiteralExtents

/-!
Contract: what one step of scanning takes.

`Takes` describes a step by the text that it takes and what may stand behind that text, without
saying how the text is found. A text allows one step only, so the description is as good as the
step itself, and it says of a longer text at once what its step takes.

Owns:
- the description of steps, and that it is exact;
- that a step which leaves something behind is not changed by more text.
-/

set_option autoImplicit false

namespace TnslReader.Scan

def Step.onto (step : Step) (more : List Char) : Step :=
  { step with rest := step.rest ++ more }

/-- What a step takes of a text, what it makes of that, and what may stand behind it. -/
inductive Takes (state : State) : List Char → Step → Prop where
  | blank {character : Char} {rest : List Char} (blank : isBlank character = true) :
      Takes state (character :: rest)
        ⟨[], { state with position := state.position.after character }, rest⟩
  | number {text rest : List Char} (number : Literal.IsNumber text)
      (split : Literal.splitNumber (text ++ rest) = (text, rest)) :
      Takes state (text ++ rest) (takeToken state .literal text rest)
  | quoted {quote : Char} {body rest : List Char} (quoted : isQuote quote = true)
      (split : Literal.splitQuoted quote false (body ++ rest) = (body, rest)) :
      Takes state (quote :: body ++ rest) (takeToken state .literal (quote :: body) rest)
  | groups {groups : List (List Char)} {rest : List Char} (nonempty : groups ≠ [])
      (reserved : ∀ rune ∈ groups.flatten, isReserved rune = true)
      (cut : Run.groups maxGroupLength groups.flatten = groups) (bare : ['#'] ∉ groups)
      (stops : Stops isReserved rest) :
      Takes state (groups.flatten ++ rest)
        ⟨groupTokens state.position groups,
          ⟨state.position.afterAll groups.flatten,
            contextAfterGroups state.inPreprocessor groups⟩, rest⟩
  | lineComment {groups later : List (List Char)} {line rest : List Char}
      (reserved : ∀ rune ∈ groups.flatten ++ '#' :: later.flatten, isReserved rune = true)
      (cut : Run.groups maxGroupLength (groups.flatten ++ '#' :: later.flatten) =
        groups ++ ['#'] :: later)
      (bare : ['#'] ∉ groups) (stops : Stops isReserved (line ++ rest))
      (within : '\n' ∉ line) (ends : Stops (· != '\n') rest) :
      Takes state (groups.flatten ++ '#' :: later.flatten ++ line ++ rest)
        ⟨groupTokens state.position groups,
          ⟨state.position.afterAll (groups.flatten ++ '#' :: later.flatten ++ line),
            contextAfterGroups state.inPreprocessor groups⟩, rest⟩
  | word {word rest : List Char} (nonempty : word ≠ [])
      (continues : ∀ character ∈ word, continuesWord character = true)
      (noDigit : Stops Literal.isDigit word) (stops : Stops continuesWord rest) :
      Takes state (word ++ rest)
        (takeToken state (classifyWord (String.ofList word) state.inPreprocessor) word rest)

/-! ### Runs -/

theorem takeWhile_ne_of_notMem {groups : List (List Char)} (bare : ['#'] ∉ groups) :
    groups.takeWhile (· != ['#']) = groups := by
  apply List.takeWhile_eq_self_iff.mpr
  intro group member
  simpa using fun isComment : group = ['#'] => bare (isComment ▸ member)

/-- A run without a lone `#` takes its runes and nothing else. -/
theorem takeRun_groups (state : State) {groups : List (List Char)} {rest : List Char}
    (cut : Run.groups maxGroupLength groups.flatten = groups) (bare : ['#'] ∉ groups) :
    takeRun state groups.flatten rest =
      ⟨groupTokens state.position groups,
        ⟨state.position.afterAll groups.flatten,
          contextAfterGroups state.inPreprocessor groups⟩, rest⟩ := by
  simp [takeRun, cut, bare, takeWhile_ne_of_notMem bare]

/-- A lone `#` drops the groups behind it and the rest of the line. -/
theorem takeRun_lineComment (state : State) {groups later : List (List Char)}
    {line rest : List Char}
    (cut : Run.groups maxGroupLength (groups.flatten ++ '#' :: later.flatten) =
      groups ++ ['#'] :: later)
    (bare : ['#'] ∉ groups) (within : '\n' ∉ line) (ends : Stops (· != '\n') rest) :
    takeRun state (groups.flatten ++ '#' :: later.flatten) (line ++ rest) =
      ⟨groupTokens state.position groups,
        ⟨state.position.afterAll (groups.flatten ++ '#' :: later.flatten ++ line),
          contextAfterGroups state.inPreprocessor groups⟩, rest⟩ := by
  have kept : (groups ++ ['#'] :: later).takeWhile (· != ['#']) = groups := by
    rw [List.takeWhile_append_of_pos, List.takeWhile_cons_of_neg (by simp), List.append_nil]
    intro group member
    simpa using fun isComment : group = ['#'] => bare (isComment ▸ member)
  have dropped : (line ++ rest).takeWhile (· != '\n') = line := by
    apply takeWhile_append_of_stops _ ends
    intro character member
    simpa using fun isNewline : character = '\n' => within (isNewline ▸ member)
  have hasComment : (groups ++ ['#'] :: later).contains ['#'] = true := by simp
  unfold takeRun
  simp only [cut, kept, hasComment, if_true, dropped, ← Position.afterAll_append,
    List.drop_left]

/-- The two forms of runs. -/
theorem takes_run (state : State) {run rest : List Char} (nonempty : run ≠ [])
    (reserved : ∀ rune ∈ run, isReserved rune = true) (stops : Stops isReserved rest) :
    Takes state (run ++ rest) (takeRun state run rest) := by
  have whole := Run.flatten_groups maxGroupLength run
  by_cases comment : ['#'] ∈ Run.groups maxGroupLength run
  · obtain ⟨groups, later, cut, bare⟩ := List.eq_append_cons_of_mem comment
    rw [cut, List.flatten_append, List.flatten_cons, List.singleton_append] at whole
    rw [← whole] at cut reserved ⊢
    have line := List.takeWhile_append_dropWhile (p := (· != '\n')) (l := rest)
    have within : '\n' ∉ rest.takeWhile (· != '\n') := by
      intro member
      simpa using List.mem_takeWhile_imp member
    have ends := stops_dropWhile (· != '\n') rest
    rw [← line] at stops ⊢
    rw [takeRun_lineComment state cut bare within ends, ← List.append_assoc]
    exact .lineComment reserved cut bare stops within ends
  · generalize cut : Run.groups maxGroupLength run = groups at whole comment
    subst whole
    rw [takeRun_groups state cut comment]
    refine .groups ?_ reserved cut comment stops
    rintro rfl
    exact nonempty rfl

/-! ### The description is exact -/

theorem takes_step (state : State) (first : Char) (rest : List Char) :
    Takes state (first :: rest) (step state first rest) := by
  unfold step
  split_ifs with blank digit quoted reserved
  · exact .blank blank
  · have whole := Literal.splitNumber_append (first :: rest)
    have number := @Takes.number state _ _ (Literal.isNumber_splitNumber digit rest)
      (by rw [whole])
    rwa [whole] at number
  · have whole := Literal.splitQuoted_append first false rest
    have text := @Takes.quoted state first (Literal.splitQuoted first false rest).1 _ quoted
      (by rw [whole])
    rwa [List.cons_append, whole] at text
  · have run := takes_run state (List.cons_ne_nil first (rest.takeWhile isReserved))
      (fun rune member => by
        rcases List.mem_cons.mp member with rfl | later
        · exact reserved
        · exact List.mem_takeWhile_imp later)
      (stops_dropWhile isReserved rest)
    rwa [List.cons_append, List.takeWhile_append_dropWhile] at run
  · have continues : continuesWord first = true := by
      simp [continuesWord, blank, quoted, reserved]
    have word := @Takes.word state _ _ (List.cons_ne_nil first (rest.takeWhile continuesWord))
      (fun character member => by
        rcases List.mem_cons.mp member with rfl | later
        · exact continues
        · exact List.mem_takeWhile_imp later)
      (stops_cons.mpr (by simpa using digit)) (stops_dropWhile continuesWord rest)
    rwa [List.cons_append, List.takeWhile_append_dropWhile] at word

theorem step_run (state : State) {run rest : List Char} {first : Char} {more : List Char}
    (begins : run = first :: more) (reserved : ∀ rune ∈ run, isReserved rune = true)
    (stops : Stops isReserved rest) :
    step state first (more ++ rest) = takeRun state run rest := by
  subst begins
  have isReserved := reserved first List.mem_cons_self
  obtain ⟨blank, digit, quoted⟩ := isReserved_excludes isReserved
  have passes : ∀ rune ∈ more, TnslReader.isReserved rune = true :=
    fun rune member => reserved rune (List.mem_cons_of_mem first member)
  simp only [step, blank, digit, quoted, isReserved, Bool.false_eq_true, if_false, if_true,
    takeWhile_append_of_stops passes stops, dropWhile_append_of_stops passes stops]

/-- A text allows one step. -/
theorem Takes.exists_step {state : State} {text : List Char} {taken : Step}
    (takes : Takes state text taken) :
    ∃ first rest, text = first :: rest ∧ step state first rest = taken := by
  cases takes with
  | blank blank => exact ⟨_, _, rfl, by simp [step, blank]⟩
  | number number split =>
      obtain ⟨first, rest, rfl, digit⟩ := number.exists_cons
      refine ⟨first, _, rfl, ?_⟩
      rw [List.cons_append] at split
      simp [step, isDigit_excludes digit, digit, split]
  | quoted quoted split =>
      refine ⟨_, _, rfl, ?_⟩
      simp [step, isQuote_excludes quoted, quoted, split]
  | @groups groups rest nonempty reserved cut bare stops =>
      have flattened : groups.flatten ≠ [] := by
        intro empty
        rw [empty, Run.groups] at cut
        exact nonempty cut.symm
      obtain ⟨first, more, begins⟩ := List.exists_cons_of_ne_nil flattened
      refine ⟨first, more ++ rest, by rw [begins, List.cons_append], ?_⟩
      rw [step_run state begins reserved stops, takeRun_groups state cut bare]
  | @lineComment groups later line rest reserved cut bare stops within ends =>
      have flattened : groups.flatten ++ '#' :: later.flatten ≠ [] := by simp
      obtain ⟨first, more, begins⟩ := List.exists_cons_of_ne_nil flattened
      refine ⟨first, more ++ (line ++ rest), ?_, ?_⟩
      · rw [begins, List.append_assoc, List.cons_append]
      · rw [step_run state begins reserved stops,
          takeRun_lineComment state cut bare within ends]
  | @word word rest nonempty continues noDigit stops =>
      obtain ⟨first, more, rfl⟩ := List.exists_cons_of_ne_nil nonempty
      obtain ⟨blank, quoted, reserved⟩ :=
        continuesWord_iff.mp (continues first List.mem_cons_self)
      have digit := stops_cons.mp noDigit
      have passes : ∀ character ∈ more, continuesWord character = true :=
        fun character member => continues character (List.mem_cons_of_mem first member)
      refine ⟨first, more ++ rest, rfl, ?_⟩
      simp only [step, blank, digit, quoted, reserved, Bool.false_eq_true, if_false,
        takeWhile_append_of_stops passes stops, dropWhile_append_of_stops passes stops]

theorem Takes.step_eq {state : State} {first : Char} {rest : List Char} {taken : Step}
    (takes : Takes state (first :: rest) taken) : step state first rest = taken := by
  obtain ⟨_, _, begins, same⟩ := takes.exists_step
  rw [List.cons.injEq] at begins
  rw [← same, begins.1, begins.2]

/-! ### More text -/

/-- A step that leaves something behind is not changed by what comes behind that. -/
theorem Takes.append {state : State} {text : List Char} {taken : Step}
    (takes : Takes state text taken) (left : taken.rest ≠ []) (more : List Char) :
    Takes state (text ++ more) (taken.onto more) := by
  cases takes with
  | blank blank => exact .blank blank
  | @number text rest number split =>
      rw [List.append_assoc]
      apply Takes.number number
      have longer := Literal.splitNumber_append_of_ne_nil (by rw [split]; exact left) more
      rwa [split, List.append_assoc] at longer
  | @quoted quote body rest quoted split =>
      rw [List.append_assoc]
      apply Takes.quoted quoted
      have longer := Literal.splitQuoted_append_of_ne_nil (by rw [split]; exact left) more
      rwa [split, List.append_assoc] at longer
  | groups nonempty reserved cut bare stops =>
      rw [List.append_assoc]
      exact .groups nonempty reserved cut bare (stops.append left more)
  | @lineComment groups later line rest reserved cut bare stops within ends =>
      have stillStops : Stops isReserved (line ++ (rest ++ more)) := by
        rw [← List.append_assoc]
        exact stops.append (List.append_ne_nil_of_right_ne_nil line left) more
      rw [List.append_assoc]
      exact .lineComment reserved cut bare stillStops within (ends.append left more)
  | word nonempty continues noDigit stops =>
      rw [List.append_assoc]
      exact .word nonempty continues noDigit (stops.append left more)

/-- A step that takes all of a text stops before a blank, if quoted text that it takes does. Only a
line comment goes on: its step takes what comes before the next newline as well. -/
theorem Takes.before_blank {state : State} {text : List Char} {taken : Step}
    (takes : Takes state text taken) (all : taken.rest = []) {blank : Char}
    (isBlank : isBlank blank = true) (more : List Char)
    (closed : ∀ quote body, text = quote :: body → isQuote quote = true →
      Literal.splitQuoted quote false (body ++ blank :: more) = (body, blank :: more)) :
    Takes state (text ++ blank :: more) (taken.onto (blank :: more)) ∨
      '#' ∈ text ∧ ∀ line rest, blank :: more = line ++ rest → '\n' ∉ line →
        Stops (· != '\n') rest → Takes state (text ++ blank :: more)
          ⟨taken.tokens, ⟨state.position.afterAll (text ++ line), taken.state.inPreprocessor⟩,
            rest⟩ := by
  have noRune := isReserved_eq_false_of_isBlank isBlank
  cases takes with
  | blank first => exact .inl (.blank first)
  | number number split =>
      subst all
      rw [List.append_nil]
      have noDigit := isDigit_eq_false_of_isBlank isBlank
      refine .inl (.number number ?_)
      apply Literal.splitNumber_isNumber number (stops_cons.mpr noDigit)
      rw [List.head?_cons, ne_eq, Option.some.injEq]
      rintro rfl
      exact absurd isBlank (by decide)
  | quoted quoted split =>
      subst all
      rw [List.append_nil]
      exact .inl (.quoted quoted (closed _ _ (List.append_nil _) quoted))
  | groups nonempty reserved cut bare stops =>
      subst all
      rw [List.append_nil]
      exact .inl (.groups nonempty reserved cut bare (stops_cons.mpr noRune))
  | @lineComment groups later before _ reserved cut bare stops within ends =>
      subst all
      refine .inr ⟨by simp, fun line rest whole unbroken ends => ?_⟩
      have stillStops : Stops isReserved (before ++ line ++ rest) := by
        rw [List.append_assoc, ← whole]
        cases before with
        | nil => exact stops_cons.mpr noRune
        | cons first before => exact stops_cons.mpr (stops_cons.mp stops)
      have noNewline : '\n' ∉ before ++ line := by simp [within, unbroken]
      have longer := @Takes.lineComment state groups later (before ++ line) rest reserved cut bare
        stillStops noNewline ends
      rw [whole]
      simpa only [List.append_assoc, List.append_nil] using longer
  | word nonempty continues noDigit stops =>
      subst all
      rw [List.append_nil]
      exact .inl (.word nonempty continues noDigit
        (stops_cons.mpr (continuesWord_eq_false_of_isBlank isBlank)))

/-- A step that takes all of a text without quotes and line comments stops before a blank. -/
theorem Takes.append_blank {state : State} {text : List Char} {taken : Step}
    (takes : Takes state text taken) (all : taken.rest = [])
    (noQuote : ∀ character ∈ text, isQuote character = false) (noComment : '#' ∉ text)
    {blank : Char} (isBlank : isBlank blank = true) (more : List Char) :
    Takes state (text ++ blank :: more) (taken.onto (blank :: more)) := by
  refine (takes.before_blank all isBlank more ?_).resolve_right fun comments =>
    noComment comments.1
  rintro quote body rfl quoted
  rw [noQuote quote List.mem_cons_self] at quoted
  cases quoted

/-- The step moves over what it takes. -/
theorem Takes.exists_consumed {state : State} {text : List Char} {taken : Step}
    (takes : Takes state text taken) : ∃ consumed, text = consumed ++ taken.rest ∧
      taken.state.position = state.position.afterAll consumed := by
  cases takes with
  | @blank character rest blank => exact ⟨[character], rfl, rfl⟩
  | number number split => exact ⟨_, rfl, rfl⟩
  | quoted quoted split => exact ⟨_, rfl, rfl⟩
  | groups nonempty reserved cut bare stops => exact ⟨_, rfl, rfl⟩
  | lineComment reserved cut bare stops within ends => exact ⟨_, rfl, rfl⟩
  | word nonempty continues noDigit stops => exact ⟨_, rfl, rfl⟩

theorem Takes.rest_subset {state : State} {text : List Char} {taken : Step}
    (takes : Takes state text taken) : taken.rest ⊆ text := by
  obtain ⟨consumed, rfl, -⟩ := takes.exists_consumed
  exact List.subset_append_right consumed taken.rest

end TnslReader.Scan
