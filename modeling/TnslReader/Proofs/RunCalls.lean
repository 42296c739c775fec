import Mathlib.Logic.Relation
import TnslReader.Grammar.Section
import TnslReader.Proofs.Ensures
import TnslReader.Proofs.TokenFacts

/-!
Contract: which parts of a file a run comes to, and with what in use of the limits.

A reading of sections, headers or items calls the readings of smaller parts, one behind the other.
`Calls` has one rule for each such call on the way from a file to its simple statements. A rule says
which part is read next and what is then in use, if the parts before it have answered. A run comes
to a part if calls lead there.

None of these readings catches an error. So a run that comes to a part fails where the part does,
with the error that it has there: `Reaches.fails`.

Owns: the calls between a file and its simple statements.
Does not own: what is read inside a simple statement, where a look ahead takes errors for a no.
-/

set_option autoImplicit false

namespace TnslReader

/-- A part of a file, by the reading that is called for it and where that begins. -/
inductive FilePart where
  | rootItems (index : Nat)
  | item (stray : Violation) (index : Nat)
  | statement (low high : Nat)
  | simpleStatement (low high : Nat)
  | chain (kind : Section) (opener : Nat)
  | laterSections (kind : Section) (index : Nat)
  | sectionAt (kind : Section) (anchor index : Nat)
  | body (index : Nat)
  | header (state : HeaderState) (index : Nat)
  | statementList (opener low high : Nat)

/-- Whether the reading of the part fails with the error, having given back what it took. -/
def FailsAt (tokens : Array Token) (error : ParseError) : FilePart × Usage → Prop
  | (.rootItems index, usage) => rootItemsFrom tokens index usage = .error error usage
  | (.item stray index, usage) => item tokens stray index usage = .error error usage
  | (.statement low high, usage) => statement tokens low high usage = .error error usage
  | (.simpleStatement low high, usage) =>
      simpleStatement tokens low high usage = .error error usage
  | (.chain kind opener, usage) => sectionChain tokens kind opener usage = .error error usage
  | (.laterSections kind index, usage) =>
      laterSections tokens kind index usage = .error error usage
  | (.sectionAt kind anchor index, usage) =>
      sectionAt tokens kind anchor index usage = .error error usage
  | (.body index, usage) => bodyFrom tokens index usage = .error error usage
  | (.header state index, usage) => headerFrom tokens state index usage = .error error usage
  | (.statementList opener low high, usage) =>
      statementList tokens opener low high usage = .error error usage

/-- `Calls tokens (part, usage) (inner, innerUsage)`: read with `usage` in use, the part comes to
read the inner one with `innerUsage` in use. -/
inductive Calls (tokens : Array Token) : FilePart × Usage → FilePart × Usage → Prop where
  -- Items of a file
  | rootItem {index : Nat} {usage : Usage} (inside : index < tokens.size) :
      Calls tokens (.rootItems index, usage) (.item .tokenInRoot index, usage)
  | laterRootItems {index : Nat} {usage : Usage} {found : Advance (Option Node) (index + 1)}
      (inside : index < tokens.size)
      (read : item tokens .tokenInRoot index usage = .ok found usage) :
      Calls tokens (.rootItems index, usage) (.rootItems found.next, usage)
  | codeChain {stray : Violation} {index : Nat} {usage : Usage} {token : Token}
      (present : tokens[index]? = some token) (opens : token.marker? = some .openCode) :
      Calls tokens (.item stray index, usage) (.chain .code index, usage)
  | preprocessorChain {stray : Violation} {index : Nat} {usage : Usage} {token : Token}
      (present : tokens[index]? = some token) (opens : token.marker? = some .openPreprocessor) :
      Calls tokens (.item stray index, usage) (.chain .preprocessor index, usage)
  | itemStatement {stray : Violation} {index : Nat} {usage : Usage} {token : Token}
      (present : tokens[index]? = some token) (separates : token.isLineSeparator ';' = true)
      (nonempty : statementEnd tokens (index + 1) ≠ index + 1) :
      Calls tokens (.item stray index, usage)
        (.statement (index + 1) (statementEnd tokens (index + 1)), usage)
  -- Sections
  | firstSection {kind : Section} {opener : Nat} {usage : Usage} (inside : opener < tokens.size)
      (room : usage.depth < usage.limits.maxDepth) :
      Calls tokens (.chain kind opener, usage)
        (.sectionAt kind opener (opener + 1), usage.enter room)
  | restOfChain {kind : Section} {opener : Nat} {usage : Usage} {found : Advance Node (opener + 1)}
      (inside : opener < tokens.size) (room : usage.depth < usage.limits.maxDepth)
      (read : sectionAt tokens kind opener (opener + 1) (usage.enter room) =
        .ok found (usage.enter room)) :
      Calls tokens (.chain kind opener, usage) (.laterSections kind found.next, usage.enter room)
  | nextSection {kind opened : Section} {index : Nat} {usage : Usage} {token : Token}
      {marker : Marker} (present : tokens[index]? = some token)
      (marked : token.marker? = some marker) (closes : marker.closes? = some kind)
      (opens : marker.opens? = some opened) (noComment : opened ≠ .comment) :
      Calls tokens (.laterSections kind index, usage) (.sectionAt opened index (index + 1), usage)
  | sectionsBehind {kind opened : Section} {index : Nat} {usage : Usage} {token : Token}
      {marker : Marker} {found : Advance Node (index + 1)} (present : tokens[index]? = some token)
      (marked : token.marker? = some marker) (closes : marker.closes? = some kind)
      (opens : marker.opens? = some opened) (noComment : opened ≠ .comment)
      (read : sectionAt tokens opened index (index + 1) usage = .ok found usage) :
      Calls tokens (.laterSections kind index, usage) (.laterSections opened found.next, usage)
  | heading {kind : Section} {anchor index : Nat} {usage : Usage} {marker : Token}
      (noPreprocessor : kind ≠ .preprocessor) (present : tokens[anchor]? = some marker) :
      Calls tokens (.sectionAt kind anchor index, usage) (.header .empty index, usage)
  | body {kind : Section} {anchor index : Nat} {usage : Usage} {marker : Token}
      {found : Advance Node index} (noPreprocessor : kind ≠ .preprocessor)
      (present : tokens[anchor]? = some marker)
      (read : header tokens anchor index usage = .ok found usage) :
      Calls tokens (.sectionAt kind anchor index, usage) (.body found.next, usage)
  | bodyItem {index : Nat} {usage : Usage} {token : Token} (present : tokens[index]? = some token)
      (unended : ¬token.endsSection = true) :
      Calls tokens (.body index, usage) (.item .tokenInBody index, usage)
  | restOfBody {index : Nat} {usage : Usage} {token : Token}
      {found : Advance (Option Node) (index + 1)} (present : tokens[index]? = some token)
      (unended : ¬token.endsSection = true)
      (read : item tokens .tokenInBody index usage = .ok found usage) :
      Calls tokens (.body index, usage) (.body found.next, usage)
  -- Headers
  | behindName {state : HeaderState} {index : Nat} {usage : Usage} {token : Token}
      (present : tokens[index]? = some token) (isWord : token.tokenClass = .userWord)
      (uncontrolled : state.control = false) (unnamed : state.named = false) :
      Calls tokens (.header state index, usage) (.header state.withName (index + 1), usage)
  | behindKeyword {state : HeaderState} {index : Nat} {usage : Usage} {token : Token}
      {child : HeaderChild index} (present : tokens[index]? = some token)
      (isKeyword : token.tokenClass = .keyword)
      (read : headerKeyword tokens state token index = .ok child) :
      Calls tokens (.header state index, usage) (.header child.state child.next, usage)
  | listBehind {state : HeaderState} {bracket : Bracket} {index : Nat} {usage : Usage}
      {token : Token} {close : { close : Nat // index < close ∧ close < tokens.size }}
      (present : tokens[index]? = some token) (opens : token.opens? = some bracket)
      (listable : bracket ≠ .curly) (fresh : ¬state.hasList bracket = true)
      (closes : closing tokens index tokens.size = .ok close) (control : state.control = true) :
      Calls tokens (.header state index, usage) (.statementList index (index + 1) close.val, usage)
  | behindList {state : HeaderState} {bracket : Bracket} {index : Nat} {usage : Usage}
      {token : Token} {close : { close : Nat // index < close ∧ close < tokens.size }} {list : Node}
      (present : tokens[index]? = some token) (opens : token.opens? = some bracket)
      (listable : bracket ≠ .curly) (fresh : ¬state.hasList bracket = true)
      (closes : closing tokens index tokens.size = .ok close)
      (read : headerList tokens state.control bracket index close.val usage =
        .ok list usage) :
      Calls tokens (.header state index, usage)
        (.header (state.withList bracket) (close.val + 1), usage)
  | behindCondition {state : HeaderState} {index stop : Nat} {usage : Usage} {token : Token}
      {condition : Node} (present : tokens[index]? = some token)
      (unended : ¬token.endsStatement = true) (noRound : token.opens? ≠ some .round)
      (noSquare : token.opens? ≠ some .square) (noKeyword : token.tokenClass ≠ .keyword)
      (control : state.control = true)
      (extent : valueExtent tokens index tokens.size = .ok stop) (advances : index < stop)
      (read : valueStatement tokens index stop usage = .ok condition usage) :
      Calls tokens (.header state index, usage) (.header state stop, usage)
  -- Definitions and bare values
  | bareStatement {low high : Nat} {usage : Usage} {first : Token}
      (present : tokens[low]? = some first)
      (noKeyword : ¬(first.tokenClass == .keyword && !first.isQualifierWord) = true) :
      Calls tokens (.statement low high, usage) (.simpleStatement low high, usage)
  | listedStatement {opener low high : Nat} {usage : Usage} {anchor : Token}
      {items before later : List (Part low high)} {part : Part low high}
      (present : tokens[opener]? = some anchor)
      (cut : parts tokens Token.separatesStatements low high = .ok items)
      (split : items.filter (fun part => part.start != part.stop) = before ++ part :: later)
      (read : ∀ earlier ∈ before, ∃ node,
        simpleStatement tokens earlier.start earlier.stop usage = .ok node usage) :
      Calls tokens (.statementList opener low high, usage)
        (.simpleStatement part.start part.stop, usage)

def Reaches (tokens : Array Token) : FilePart × Usage → FilePart × Usage → Prop :=
  Relation.ReflTransGen (Calls tokens)

variable {tokens : Array Token} {usage : Usage} {error : ParseError}

theorem Reaches.refl {place : FilePart × Usage} : Reaches tokens place place :=
  Relation.ReflTransGen.refl

theorem Reaches.call {origin place inner : FilePart × Usage} (reaches : Reaches tokens origin place)
    (calls : Calls tokens place inner) : Reaches tokens origin inner :=
  Relation.ReflTransGen.tail reaches calls

/-! ### Errors pass through calls -/

theorem Reading.nested_eq_of_error {α : Type} {index : Nat} {body : Reading α}
    (room : usage.depth < usage.limits.maxDepth)
    (failed : body (usage.enter room) = .error error (usage.enter room)) :
    Reading.nested tokens index body usage = .error error usage := by
  simp [Reading.nested, room, failed, Reading.giveBack]

theorem Reading.mapM_eq_of_error {α β : Type} {step : α → Reading β} {before later : List α}
    {item : α} (answered : ∀ earlier ∈ before, ∃ result, step earlier usage = .ok result usage)
    (failed : step item usage = .error error usage) :
    (before ++ item :: later).mapM step usage = .error error usage := by
  induction before with
  | nil =>
      rw [List.nil_append, List.mapM_cons]
      exact Reading.bind_eq_of_error failed
  | cons earlier before inductionHypothesis =>
      obtain ⟨⟨result, here⟩, others⟩ := List.forall_mem_cons.mp answered
      rw [List.cons_append, List.mapM_cons, Reading.bind_eq_of_ok here]
      exact Reading.bind_eq_of_error (inductionHypothesis others)

/-! ### What sections and headers do at a token -/

theorem laterSections_eq_of_opens? {kind opened : Section} {index : Nat} {token : Token}
    {marker : Marker} (present : tokens[index]? = some token)
    (marked : token.marker? = some marker) (closes : marker.closes? = some kind)
    (opens : marker.opens? = some opened) (noComment : opened ≠ .comment) :
    laterSections tokens kind index = (do
      let ⟨node, behind, le_behind⟩ ← sectionAt tokens opened index (index + 1)
      let ⟨later, next, le_next⟩ ← laterSections tokens opened behind
      return ⟨node :: later, next, Nat.le_trans (Nat.le_of_succ_le le_behind) le_next⟩ :
        Reading (Advance (List Node) index)) := by
  obtain ⟨inside, rfl⟩ := Array.getElem?_eq_some_iff.mp present
  rw [laterSections, dif_pos inside]
  simp only [marked, closes, opens, ↓reduceIte]

theorem sectionAt_eq_of_present {kind : Section} {anchor index : Nat} {marker : Token}
    (noPreprocessor : kind ≠ .preprocessor) (present : tokens[anchor]? = some marker) :
    sectionAt tokens kind anchor index = (do
      let ⟨heading, behind, le_behind⟩ ← header tokens anchor index
      let ⟨items, next, le_next⟩ ← bodyFrom tokens behind
      return ⟨.tagged .block marker (heading :: items), next, Nat.le_trans le_behind le_next⟩ :
        Reading (Advance Node index)) := by
  cases kind with
  | preprocessor => exact absurd rfl noPreprocessor
  | code | comment =>
      rw [sectionAt.eq_def, Sound.tokenAt_eq_ok present]
      rfl

section Header

variable {state : HeaderState} {index : Nat} {token : Token}

theorem headerFrom_eq_of_name (present : tokens[index]? = some token)
    (isWord : token.tokenClass = .userWord) (uncontrolled : state.control = false)
    (unnamed : state.named = false) :
    headerFrom tokens state index = (do
      let ⟨later, next, le_next⟩ ← headerFrom tokens state.withName (index + 1)
      return ⟨.leaf .identifier token :: later, next, Nat.le_of_succ_le le_next⟩ :
        Reading (Advance (List Node) index)) := by
  have plain : token.IsPlain :=
    Token.isPlain_of_class (by simp [isWord]) (by simp [isWord]) (by simp [isWord])
  have text := headerFrom.eq_def tokens state index
  split at text
  next absent => simp [present] at absent
  next found foundPresent =>
    obtain rfl : token = found := by simpa [present] using foundPresent
    rw [text]
    simp [plain.endsStatement, plain.opens?, isWord, uncontrolled, unnamed]

theorem headerFrom_eq_of_keyword (present : tokens[index]? = some token)
    (isKeyword : token.tokenClass = .keyword) :
    headerFrom tokens state index = (do
      let ⟨child, found, behind, index_lt_behind⟩ ← headerKeyword tokens state token index
      let ⟨later, next, le_next⟩ ← headerFrom tokens found behind
      return ⟨child :: later, next, Nat.le_trans (Nat.le_of_lt index_lt_behind) le_next⟩ :
        Reading (Advance (List Node) index)) := by
  have plain : token.IsPlain :=
    Token.isPlain_of_class (by simp [isKeyword]) (by simp [isKeyword]) (by simp [isKeyword])
  have text := headerFrom.eq_def tokens state index
  split at text
  next absent => simp [present] at absent
  next found foundPresent =>
    obtain rfl : token = found := by simpa [present] using foundPresent
    rw [text]
    simp [plain.endsStatement, plain.opens?, isKeyword]

theorem headerFrom_eq_of_opens? {bracket : Bracket} (present : tokens[index]? = some token)
    (opens : token.opens? = some bracket) (listable : bracket ≠ .curly)
    (fresh : ¬state.hasList bracket = true) :
    headerFrom tokens state index = (do
      let ⟨close, index_lt_close, _⟩ ← closing tokens index tokens.size
      let list ← headerList tokens state.control bracket index close
      let ⟨later, next, le_next⟩ ← headerFrom tokens (state.withList bracket) (close + 1)
      return ⟨list :: later, next,
        Nat.le_trans (Nat.le_succ_of_le (Nat.le_of_lt index_lt_close)) le_next⟩ :
        Reading (Advance (List Node) index)) := by
  have unended : token.endsStatement = false :=
    Token.endsStatement_eq_false_of_unmarked (Token.marker?_eq_none_of_opens? opens)
      (by simp [Token.tokenClass_of_opens? opens])
  have text := headerFrom.eq_def tokens state index
  split at text
  next absent => simp [present] at absent
  next found foundPresent =>
    obtain rfl : token = found := by simpa [present] using foundPresent
    rw [text]
    cases bracket with
    | curly => exact absurd rfl listable
    | _ =>
        simp only [unended, opens, Bool.false_eq_true, ↓reduceIte]
        exact (headerFrom.listThen.eq_def ..).trans (if_neg fresh)

theorem headerFrom_eq_of_condition (present : tokens[index]? = some token)
    (unended : ¬token.endsStatement = true) (noRound : token.opens? ≠ some .round)
    (noSquare : token.opens? ≠ some .square) (noKeyword : token.tokenClass ≠ .keyword)
    (control : state.control = true) :
    headerFrom tokens state index = (do
      let stop ← valueExtent tokens index tokens.size
      if advances : index < stop then
        let condition ← valueStatement tokens index stop
        let ⟨later, next, le_next⟩ ← headerFrom tokens state stop
        return ⟨condition :: later, next, Nat.le_trans (Nat.le_of_lt advances) le_next⟩
      else
        throw (.expected tokens stop .value) : Reading (Advance (List Node) index)) := by
  have text := headerFrom.eq_def tokens state index
  split at text
  next absent => simp [present] at absent
  next found foundPresent =>
    obtain rfl : token = found := by simpa [present] using foundPresent
    rw [text, if_neg unended]
    split
    next opens => exact absurd opens noRound
    next opens => exact absurd opens noSquare
    next => simp [control, noKeyword]

end Header

/-- A header fails with the error of what is read from its first child on. -/
theorem header_eq_of_error {anchor index : Nat} {marker : Token}
    (present : tokens[anchor]? = some marker)
    (failed : headerFrom tokens .empty index usage = .error error usage) :
    header tokens anchor index usage = .error error usage := by
  rw [header, Sound.tokenAt_eq_ok present, Reading.lift_ok_bind]
  exact Reading.bind_eq_of_error failed

/-! ### What fails inside -/

/-- What fails inside a part fails the part. -/
theorem Calls.fails {place inner : FilePart × Usage} (calls : Calls tokens place inner)
    (failed : FailsAt tokens error inner) : FailsAt tokens error place := by
  cases calls with
  | rootItem inside =>
      dsimp only [FailsAt] at failed ⊢
      rw [rootItemsFrom, dif_pos inside]
      exact Reading.bind_eq_of_error failed
  | @laterRootItems _ _ found inside read =>
      obtain ⟨node, behind, _⟩ := found
      dsimp only [FailsAt] at failed ⊢
      rw [rootItemsFrom, dif_pos inside, Reading.bind_eq_of_ok read]
      exact Reading.bind_eq_of_error failed
  | codeChain present opens =>
      obtain ⟨inside, rfl⟩ := Array.getElem?_eq_some_iff.mp present
      dsimp only [FailsAt] at failed ⊢
      rw [item, dif_pos inside]
      simp only [opens]
      exact Reading.bind_eq_of_error failed
  | preprocessorChain present opens =>
      obtain ⟨inside, rfl⟩ := Array.getElem?_eq_some_iff.mp present
      dsimp only [FailsAt] at failed ⊢
      rw [item, dif_pos inside]
      simp only [opens]
      exact Reading.bind_eq_of_error failed
  | itemStatement present separates nonempty =>
      obtain ⟨inside, rfl⟩ := Array.getElem?_eq_some_iff.mp present
      dsimp only [FailsAt] at failed ⊢
      rw [item, dif_pos inside]
      simp only [Token.marker?_eq_none_of_isLineSeparator separates, separates, ↓reduceIte]
      rw [statementItem, if_neg nonempty]
      exact Reading.bind_eq_of_error failed
  | bareStatement present noKeyword =>
      dsimp only [FailsAt] at failed ⊢
      rw [statement, Sound.tokenAt_eq_ok present, Reading.lift_ok_bind, if_neg noKeyword]
      exact failed
  | firstSection inside room =>
      dsimp only [FailsAt] at failed ⊢
      rw [sectionChain, dif_pos inside]
      exact Reading.nested_eq_of_error room (Reading.bind_eq_of_error failed)
  | @restOfChain _ _ _ found inside room read =>
      obtain ⟨head, behind, _⟩ := found
      dsimp only [FailsAt] at failed ⊢
      rw [sectionChain, dif_pos inside]
      apply Reading.nested_eq_of_error room
      rw [Reading.bind_eq_of_ok read]
      exact Reading.bind_eq_of_error failed
  | nextSection present marked closes opens noComment =>
      dsimp only [FailsAt] at failed ⊢
      rw [laterSections_eq_of_opens? present marked closes opens noComment]
      exact Reading.bind_eq_of_error failed
  | @sectionsBehind _ _ _ _ _ _ found present marked closes opens noComment read =>
      obtain ⟨node, behind, _⟩ := found
      dsimp only [FailsAt] at failed ⊢
      rw [laterSections_eq_of_opens? present marked closes opens noComment,
        Reading.bind_eq_of_ok read]
      exact Reading.bind_eq_of_error failed
  | heading noPreprocessor present =>
      dsimp only [FailsAt] at failed ⊢
      rw [sectionAt_eq_of_present noPreprocessor present]
      exact Reading.bind_eq_of_error (header_eq_of_error present failed)
  | @body _ _ _ _ _ found noPreprocessor present read =>
      obtain ⟨heading, behind, _⟩ := found
      dsimp only [FailsAt] at failed ⊢
      rw [sectionAt_eq_of_present noPreprocessor present, Reading.bind_eq_of_ok read]
      exact Reading.bind_eq_of_error failed
  | bodyItem present unended =>
      obtain ⟨inside, rfl⟩ := Array.getElem?_eq_some_iff.mp present
      dsimp only [FailsAt] at failed ⊢
      rw [bodyFrom, dif_pos inside, if_neg unended]
      exact Reading.bind_eq_of_error failed
  | @restOfBody _ _ _ found present unended read =>
      obtain ⟨inside, rfl⟩ := Array.getElem?_eq_some_iff.mp present
      obtain ⟨node, behind, _⟩ := found
      dsimp only [FailsAt] at failed ⊢
      rw [bodyFrom, dif_pos inside, if_neg unended, Reading.bind_eq_of_ok read]
      exact Reading.bind_eq_of_error failed
  | behindName present isWord uncontrolled unnamed =>
      dsimp only [FailsAt] at failed ⊢
      rw [headerFrom_eq_of_name present isWord uncontrolled unnamed]
      exact Reading.bind_eq_of_error failed
  | @behindKeyword _ _ _ _ child present isKeyword read =>
      obtain ⟨node, found, behind, _⟩ := child
      dsimp only [FailsAt] at failed ⊢
      rw [headerFrom_eq_of_keyword present isKeyword, read, Reading.lift_ok_bind]
      exact Reading.bind_eq_of_error failed
  | @listBehind state bracket index usage _ close present opens listable fresh closes control =>
      obtain ⟨close, _, _⟩ := close
      dsimp only [FailsAt] at failed ⊢
      rw [headerFrom_eq_of_opens? present opens listable fresh, closes, Reading.lift_ok_bind]
      change (headerList tokens state.control bracket index close >>= fun list => _) usage = _
      rw [headerList, if_pos control]
      exact Reading.bind_eq_of_error failed
  | @behindList state bracket index usage _ close _ present opens listable fresh closes read =>
      obtain ⟨close, _, _⟩ := close
      dsimp only [FailsAt] at failed ⊢
      rw [headerFrom_eq_of_opens? present opens listable fresh, closes, Reading.lift_ok_bind]
      change (headerList tokens state.control bracket index close >>= fun list => _) usage = _
      rw [Reading.bind_eq_of_ok read]
      exact Reading.bind_eq_of_error failed
  | behindCondition present unended noRound noSquare noKeyword control extent advances read =>
      dsimp only [FailsAt] at failed ⊢
      rw [headerFrom_eq_of_condition present unended noRound noSquare noKeyword control, extent,
        Reading.lift_ok_bind, dif_pos advances, Reading.bind_eq_of_ok read]
      exact Reading.bind_eq_of_error failed
  | listedStatement present cut split read =>
      dsimp only [FailsAt] at failed ⊢
      rw [statementList, Sound.tokenAt_eq_ok present, Reading.lift_ok_bind, cut,
        Reading.lift_ok_bind, split]
      exact Reading.bind_eq_of_error (Reading.mapM_eq_of_error read failed)

/-- A run fails with the error of any part to which it comes. -/
theorem Reaches.fails {origin place : FilePart × Usage} (reaches : Reaches tokens origin place)
    (failed : FailsAt tokens error place) : FailsAt tokens error origin := by
  induction reaches with
  | refl => exact failed
  | tail _ calls inductionHypothesis => exact inductionHypothesis (calls.fails failed)

/-! ### Places -/

/-- A run comes to a whole statement behind its semicolon. -/
theorem Reaches.exists_semicolon {index low high : Nat} {after : Usage}
    (reaches : Reaches tokens (.rootItems index, usage) (.statement low high, after)) :
    ∃ semicolon token, low = semicolon + 1 ∧ high = statementEnd tokens low ∧
      tokens[semicolon]? = some token ∧ token.isLineSeparator ';' = true := by
  obtain ⟨⟨_, _⟩, -, calls⟩ := (Relation.ReflTransGen.cases_tail reaches).resolve_left (by simp)
  cases calls with
  | itemStatement present separates _ => exact ⟨_, _, rfl, rfl, present, separates⟩

/-- A run comes to a list of statements at a round or square bracket of a header. -/
theorem Reaches.exists_bracket {index opener low high : Nat} {after : Usage}
    (reaches : Reaches tokens (.rootItems index, usage) (.statementList opener low high, after)) :
    ∃ token bracket, tokens[opener]? = some token ∧ token.opens? = some bracket ∧
      bracket ≠ .curly := by
  obtain ⟨⟨_, _⟩, -, calls⟩ := (Relation.ReflTransGen.cases_tail reaches).resolve_left (by simp)
  cases calls with
  | listBehind present opens listable _ _ _ => exact ⟨_, _, present, opens, listable⟩

/-- A run comes to a definition or a bare value as to a whole statement that begins with no keyword,
or in a list of statements. -/
theorem Reaches.statement_or_listed {index low high : Nat} {after : Usage}
    (reaches : Reaches tokens (.rootItems index, usage) (.simpleStatement low high, after)) :
    (Reaches tokens (.rootItems index, usage) (.statement low high, after) ∧
      ∃ first, tokens[low]? = some first ∧
        ¬(first.tokenClass == .keyword && !first.isQualifierWord) = true) ∨
    ∃ opener start stop,
      Reaches tokens (.rootItems index, usage) (.statementList opener start stop, after) ∧
        ∃ items : List (Part start stop),
          parts tokens Token.separatesStatements start stop = .ok items ∧
          ∃ part ∈ items, part.start = low ∧ part.stop = high := by
  obtain ⟨⟨_, _⟩, earlier, calls⟩ :=
    (Relation.ReflTransGen.cases_tail reaches).resolve_left (by simp)
  cases calls with
  | bareStatement present noKeyword => exact .inl ⟨earlier, _, present, noKeyword⟩
  | @listedStatement _ _ _ _ _ items _ _ part _ cut split _ =>
      have member : part ∈ items := List.mem_of_mem_filter (by rw [split]; simp)
      exact .inr ⟨_, _, _, earlier, items, cut, part, member, rfl, rfl⟩

end TnslReader
