import TnslReader.Proofs.ListingLines

/-!
Contract: what can be read off the listing of a tree.

A line of the listing may go on over a newline, and its text may look like a place or like further
lines. Nothing is lost by that. Where a line ends can be told, because a newline within one stands
right behind a backslash and no line ends with one. A line is read from both ends: the spaces before
it give the depth, the last `:` and the last `@` bound the place, and the tag ends before the first
space of what is left. Depths in preorder give the shape of the tree.

Owns: what two trees of one listing have in common, and that this is all that their listing says.
-/

set_option autoImplicit false

namespace TnslReader

namespace Node

/-! ### What listings show -/

structure ShowsSame (node other : Node) : Prop where
  kind_eq : node.kind = other.kind
  line_eq : node.token.line = other.token.line
  column_eq : node.token.column = other.token.column
  text_eq : node.kind.showsText = true → node.token.text = other.token.text

mutual

/-- The trees have the same shape, and a listing says the same of nodes that correspond. -/
def Resembles : Node → Node → Prop
  | ⟨kind, token, children⟩, ⟨otherKind, otherToken, others⟩ =>
      ShowsSame ⟨kind, token, children⟩ ⟨otherKind, otherToken, others⟩ ∧
        ResemblesAll children others

def ResemblesAll : List Node → List Node → Prop
  | [], [] => True
  | node :: nodes, other :: others => Resembles node other ∧ ResemblesAll nodes others
  | _, _ => False

end

/-- The entries of two preorders are at the same depth, and a listing says the same of them. -/
def ListedSame (entry other : Nat × Node) : Prop :=
  entry.1 = other.1 ∧ entry.2.ShowsSame other.2

/-! ### Shapes -/

/-- The first of the entries, if there is any, is less deep than that. -/
def RisesAbove (depth : Nat) (entries : List (Nat × Node)) : Prop :=
  ∀ entry ∈ entries.head?, entry.1 < depth

theorem risesAbove_inOrderAllFrom {depth : Nat} {rest : List (Nat × Node)}
    (rises : RisesAbove depth rest) : (nodes : List Node) →
      RisesAbove (depth + 1) (inOrderAllFrom depth nodes ++ rest)
  | [] => fun entry member => Nat.lt_succ_of_lt (rises entry member)
  | ⟨kind, token, children⟩ :: nodes => by
      rintro entry member
      simp only [inOrderAllFrom, inOrderFrom, List.cons_append, List.head?_cons,
        Option.mem_some_iff] at member
      subst member
      exact Nat.lt_succ_self depth

mutual

/-- A tree is at the front of a preorder up to where the depths rise above its children. -/
theorem resembles_of_listedSame {depth : Nat} {rest otherRest : List (Nat × Node)}
    (rises : RisesAbove (depth + 1) rest) (otherRises : RisesAbove (depth + 1) otherRest) :
    (node other : Node) →
    List.Forall₂ ListedSame (node.inOrderFrom depth ++ rest)
      (other.inOrderFrom depth ++ otherRest) →
    node.Resembles other ∧ List.Forall₂ ListedSame rest otherRest
  | ⟨kind, token, children⟩, ⟨otherKind, otherToken, others⟩, same => by
      rw [inOrderFrom, inOrderFrom, List.cons_append, List.cons_append, List.forall₂_cons] at same
      obtain ⟨below, behind⟩ := resemblesAll_of_listedSame rises otherRises children others same.2
      exact ⟨⟨same.1.2, below⟩, behind⟩

theorem resemblesAll_of_listedSame {depth : Nat} {rest otherRest : List (Nat × Node)}
    (rises : RisesAbove depth rest) (otherRises : RisesAbove depth otherRest) :
    (nodes others : List Node) →
    List.Forall₂ ListedSame (inOrderAllFrom depth nodes ++ rest)
      (inOrderAllFrom depth others ++ otherRest) →
    ResemblesAll nodes others ∧ List.Forall₂ ListedSame rest otherRest
  | [], [], same => ⟨trivial, same⟩
  | [], ⟨kind, token, children⟩ :: others, same => by
      -- The entry of the other tree is too deep to stand at the front of the rest.
      obtain ⟨entry, entries, listed, -, rfl⟩ := List.forall₂_cons_right_iff.mp same
      exact absurd (rises entry rfl) (by simp [listed.1])
  | ⟨kind, token, children⟩ :: nodes, [], same => by
      obtain ⟨entry, entries, listed, -, rfl⟩ := List.forall₂_cons_left_iff.mp same
      exact absurd (otherRises entry rfl) (by simp [← listed.1])
  | node :: nodes, other :: others, same => by
      rw [inOrderAllFrom, inOrderAllFrom, List.append_assoc, List.append_assoc] at same
      obtain ⟨first, behind⟩ := resembles_of_listedSame (risesAbove_inOrderAllFrom rises nodes)
        (risesAbove_inOrderAllFrom otherRises others) node other same
      obtain ⟨later, behind⟩ := resemblesAll_of_listedSame rises otherRises nodes others behind
      exact ⟨⟨first, later⟩, behind⟩

end

mutual

theorem listedSame_of_resembles (depth : Nat) : (node other : Node) → node.Resembles other →
    List.Forall₂ ListedSame (node.inOrderFrom depth) (other.inOrderFrom depth)
  | ⟨kind, token, children⟩, ⟨otherKind, otherToken, others⟩, same => by
      rw [inOrderFrom, inOrderFrom]
      exact .cons ⟨rfl, same.1⟩ (listedSame_of_resemblesAll (depth + 1) children others same.2)

theorem listedSame_of_resemblesAll (depth : Nat) : (nodes others : List Node) →
    ResemblesAll nodes others →
    List.Forall₂ ListedSame (inOrderAllFrom depth nodes) (inOrderAllFrom depth others)
  | [], [], _ => .nil
  | node :: nodes, other :: others, same => by
      rw [inOrderAllFrom, inOrderAllFrom]
      exact List.rel_append (listedSame_of_resembles depth node other same.1)
        (listedSame_of_resemblesAll depth nodes others same.2)
  | [], _ :: _, same => absurd same not_false
  | _ :: _, [], same => absurd same not_false

end

end Node

/-! ### Cutting a line -/

section Cuts

variable {first second rest others : List Char}

/-- A text is cut in one way only where a test stops to hold. -/
theorem append_inj_of_stops (test : Char → Bool) (passes : ∀ one ∈ first, test one = true)
    (alsoPasses : ∀ one ∈ second, test one = true) (stops : Scan.Stops test rest)
    (alsoStops : Scan.Stops test others) (same : first ++ rest = second ++ others) :
    first = second ∧ rest = others := by
  constructor
  · rw [← Scan.takeWhile_append_of_stops passes stops, same,
      Scan.takeWhile_append_of_stops alsoPasses alsoStops]
  · rw [← Scan.dropWhile_append_of_stops passes stops, same,
      Scan.dropWhile_append_of_stops alsoPasses alsoStops]

/-- A text is cut in one way only at the last of its separators. -/
theorem append_cons_inj_of_notMem {separator : Char} (without : separator ∉ rest)
    (alsoWithout : separator ∉ others)
    (same : first ++ separator :: rest = second ++ separator :: others) :
    first = second ∧ rest = others := by
  rcases List.append_eq_append_iff.mp same with ⟨more, longer, behind⟩ | ⟨more, longer, behind⟩ <;>
    cases more <;> simp_all

theorem toDigits_injective : Function.Injective (Nat.toDigits 10) := by
  intro number other same
  have read := congrArg (Nat.ofDigitChars 10 · 0) same
  simpa only [Nat.ofDigitChars_ten_toDigits] using read

end Cuts

namespace NodeKind

theorem tag_injective : Function.Injective tag := by
  have apart : (all.map tag).Nodup := by decide +kernel
  exact fun kind other => List.inj_on_of_nodup_map apart (mem_all kind) (mem_all other)

theorem tag_noSpace (kind : NodeKind) : ∀ one ∈ kind.tag.toList, (one != ' ') = true := by
  have noSpace : kind.tag.toList.all (· != ' ') = true := by cases kind <;> decide
  simpa using noSpace

theorem stops_tag (kind : NodeKind) (rest : List Char) :
    Scan.Stops (· == ' ') (kind.tag.toList ++ rest) := by
  apply Scan.Stops.append
  · intro first member
    simpa using kind.tag_noSpace first (List.mem_of_mem_head? member)
  · cases kind <;> decide

end NodeKind

/-! ### Lines -/

namespace Node

def shownText (node : Node) : List Char :=
  if node.kind.showsText then ' ' :: node.text.toList else []

theorem stops_shownText (node : Node) : Scan.Stops (· != ' ') node.shownText := by
  unfold shownText
  split
  · exact Scan.stops_cons.mpr rfl
  · exact Scan.stops_nil

/-- What a node has to fulfil so that its line can be read: it has a place, and newlines in a text
that it shows are escaped. -/
structure Legible (node : Node) : Prop where
  placed : 0 < node.token.line
  escapes : node.kind.showsText = true → EscapesNewlines node.token.text.toList

theorem Legible.toList_line {node : Node} (legible : node.Legible) (depth : Nat) :
    (node.line depth).toList =
      (List.replicate (2 * depth) ' ' ++ (node.kind.tag.toList ++ node.shownText) ++ [' ']) ++
        '@' :: (Nat.toDigits 10 node.token.line ++ ':' :: Nat.toDigits 10 node.token.column) := by
  have placed : node.token.hasPosition = true := by simpa [Token.hasPosition] using legible.placed
  simp only [line, entry, indentation, shownText, placed, if_true]
  split <;> simp

/-- The line of a legible node, read from both ends. -/
theorem Legible.showsSame_of_line {node other : Node} {depth otherDepth : Nat}
    (legible : node.Legible) (alsoLegible : other.Legible)
    (same : node.line depth = other.line otherDepth) :
    depth = otherDepth ∧ node.ShowsSame other := by
  have same := congrArg String.toList same
  rw [legible.toList_line, alsoLegible.toList_line] at same
  -- The place, from the end.
  have noMark (number : Nat) : '@' ∉ Nat.toDigits 10 number := notMem_toDigits rfl number
  have noColon (number : Nat) : ':' ∉ Nat.toDigits 10 number := notMem_toDigits rfl number
  obtain ⟨same, places⟩ := append_cons_inj_of_notMem (by simp [noMark]) (by simp [noMark]) same
  obtain ⟨lines, columns⟩ := append_cons_inj_of_notMem (noColon _) (noColon _) places
  -- The depth and the tag, from the front.
  obtain ⟨spaces, same⟩ := append_inj_of_stops (· == ' ') (by simp) (by simp)
    (node.kind.stops_tag _) (other.kind.stops_tag _) (List.append_cancel_right same)
  obtain ⟨tags, texts⟩ := append_inj_of_stops (· != ' ') node.kind.tag_noSpace
    other.kind.tag_noSpace node.stops_shownText other.stops_shownText same
  have kind_eq : node.kind = other.kind := NodeKind.tag_injective (String.toList_inj.mp tags)
  refine ⟨?_, kind_eq, toDigits_injective lines, toDigits_injective columns, fun shows => ?_⟩
  · have lengths := congrArg List.length spaces
    simp only [List.length_replicate] at lengths
    omega
  · rw [shownText, shownText, ← kind_eq, if_pos shows, if_pos shows, List.cons.injEq,
      String.toList_inj] at texts
    exact texts.2

theorem ShowsSame.line_eq_line {node other : Node} (same : node.ShowsSame other) (depth : Nat) :
    node.line depth = other.line depth := by
  have texts : (if node.kind.showsText then " " ++ node.text else "") =
      if other.kind.showsText then " " ++ other.text else "" := by
    rw [← same.kind_eq]
    split
    · rw [text, text, same.text_eq ‹_›]
    · rfl
  rw [line, line, entry, entry, texts, same.kind_eq, same.line_eq, same.column_eq,
    Token.hasPosition, Token.hasPosition, same.line_eq]

/-! ### Where a line ends -/

/-- Whether newlines in the line are escaped and it does not end as if one came next. -/
structure IsListingLine (line : String) : Prop where
  escapes : EscapesNewlines line.toList
  ends : ¬['\\'] <:+ line.toList

theorem IsListingLine.apart (line other : String) (behind : List Char)
    (isLine : IsListingLine line) (isOther : IsListingLine other) :
    other.toList ≠ line.toList ++ '\n' :: behind :=
  fun longer => isLine.ends (isOther.escapes line.toList behind longer)

theorem Legible.isListingLine {node : Node} (legible : node.Legible) (depth : Nat) :
    IsListingLine (node.line depth) := by
  have unbroken (number : Nat) : '\n' ∉ Nat.toDigits 10 number := notMem_toDigits rfl number
  constructor
  · have tag : EscapesNewlines node.kind.tag.toList := by
      apply EscapesNewlines.of_notMem
      cases node.kind <;> decide
    have shown : EscapesNewlines node.shownText := by
      unfold shownText
      split
      · exact (legible.escapes ‹_›).cons (by decide)
      · exact .of_notMem (by simp)
    have spaces : EscapesNewlines (List.replicate (2 * depth) ' ') := .of_notMem (by simp)
    rw [legible.toList_line]
    refine ((spaces.append (tag.append shown)).append ?_).append ?_ <;>
      exact .of_notMem (by simp [unbroken])
  · intro ends
    have digits : Nat.toDigits 10 node.token.column <:+ (node.line depth).toList := by
      rw [legible.toList_line]
      exact (List.suffix_cons _ _).trans ((List.suffix_append _ _).trans
        ((List.suffix_cons _ _).trans (List.suffix_append _ _)))
    have within := List.suffix_of_suffix_length_le ends digits Nat.length_toDigits_pos
    exact notMem_toDigits rfl _ (within.subset (List.mem_singleton_self _))

/-! ### Listings -/

/-- Legible entries of a preorder are known from their lines. -/
theorem listedSame_of_lines : {entries others : List (Nat × Node)} →
    (∀ entry ∈ entries, entry.2.Legible) → (∀ entry ∈ others, entry.2.Legible) →
    entries.map (fun (depth, node) => node.line depth) =
      others.map (fun (depth, node) => node.line depth) →
    List.Forall₂ ListedSame entries others
  | [], [], _, _, _ => .nil
  | (depth, node) :: entries, (otherDepth, other) :: others, legible, alsoLegible, same => by
      obtain ⟨here, later⟩ := List.cons.inj same
      obtain ⟨isLegible, areLegible⟩ := List.forall_mem_cons.mp legible
      obtain ⟨isAlsoLegible, areAlsoLegible⟩ := List.forall_mem_cons.mp alsoLegible
      exact .cons (isLegible.showsSame_of_line isAlsoLegible here)
        (listedSame_of_lines areLegible areAlsoLegible later)

theorem lines_of_listedSame {entries others : List (Nat × Node)}
    (same : List.Forall₂ ListedSame entries others) :
    entries.map (fun (depth, node) => node.line depth) =
      others.map (fun (depth, node) => node.line depth) := by
  induction same with
  | nil => rfl
  | @cons entry other entries others listed _ inductionHypothesis =>
      have here : entry.2.line entry.1 = other.2.line other.1 := by
        rw [listed.1, listed.2.line_eq_line]
      exact congrArg₂ List.cons here inductionHypothesis

end Node

/-- Every node below the root of a tree that is read from a source text is legible. -/
theorem exists_legible_of_readTree {source label : String} {limits : Limits} {root : Node}
    (read : readTree (lex source) label limits = .ok root) :
    ∃ items, root = ⟨.root, .root label, items⟩ ∧
      ∀ entry ∈ Node.inOrderAllFrom 1 items, entry.2.Legible := by
  obtain ⟨items, rfl, origins⟩ := exists_origins_of_readTree read
  refine ⟨items, rfl, fun entry member => ?_⟩
  have within : entry.2 ∈ Node.inOrderAll items := by
    rw [← Node.map_inOrderAllFrom 1]
    exact List.mem_map_of_mem member
  have origin := origins entry.2 within
  constructor
  · obtain ⟨anchor, placed, line_eq, -⟩ := origin.placed
    rw [line_eq]
    exact line_pos_of_mem_lex (by simpa using placed)
  · generalize entry.2.kind = kind, entry.2.token = token at origin
    intro shows
    cases origin with
    | kept member _ => exact (escapesNewlines_of_mem_lex (by simpa using member)).1
    | made _ hidden => exact absurd (shows.symm.trans hidden) Bool.false_ne_true.symm
    | joined =>
        change EscapesNewlines Keyword.elifWord.spelling.toList
        exact .of_notMem (by decide)

/-- Two trees with the same label have the same listing exactly if they have the same shape, and
nodes that correspond are of the same kind, in the same line and column, and have the same text if
they show it. -/
theorem listing_eq_iff_resembles {source otherSource label : String} {limits otherLimits : Limits}
    {root otherRoot : Node} (read : readTree (lex source) label limits = .ok root)
    (otherRead : readTree (lex otherSource) label otherLimits = .ok otherRoot) :
    root.listing = otherRoot.listing ↔ root.Resembles otherRoot := by
  obtain ⟨items, rfl, legible⟩ := exists_legible_of_readTree read
  obtain ⟨others, rfl, alsoLegible⟩ := exists_legible_of_readTree otherRead
  constructor
  · intro same
    have texts := congrArg String.toList same
    rw [Node.listing_eq, Node.listing_eq, Node.inOrderFrom, Node.inOrderFrom, List.map_cons,
      List.map_cons, toList_unlines_cons, toList_unlines_cons] at texts
    -- The roots have the same line, whatever it is, so it is the lines below that tell.
    obtain ⟨-, below⟩ := List.cons.inj (List.append_cancel_left texts)
    have lines := unlines_injective _ Node.IsListingLine.apart
      (List.forall_mem_map.mpr fun entry member => (legible entry member).isListingLine entry.1)
      (List.forall_mem_map.mpr fun entry member => (alsoLegible entry member).isListingLine entry.1)
      (String.toList_inj.mp below)
    have listed := Node.listedSame_of_lines legible alsoLegible lines
    have nothing : Node.RisesAbove 1 [] := fun entry member => nomatch member
    exact ⟨⟨rfl, rfl, rfl, fun _ => rfl⟩, (Node.resemblesAll_of_listedSame nothing nothing items
      others (by simpa using listed)).1⟩
  · intro same
    rw [Node.listing_eq, Node.listing_eq,
      Node.lines_of_listedSame (Node.listedSame_of_resembles 0 _ _ same)]

/-- The tree of a value `a` that stands in the first line and column 7, so many bytes behind the
start of the text. -/
def namedValueTree (start : Nat) : Node :=
  let name : Token := ⟨.userWord, "a", 1, 7, ⟨start, start + 1⟩⟩
  ⟨.root, .root "file", [.tagged .valueStatement name [.leaf .identifier name]]⟩

/-- Behind comments of one character each the same value is listed alike, though its bytes differ.
-/
theorem namedValueTree_resembles :
    readTree (lex "/#e#/;a") "file" .standard = .ok (namedValueTree 6) ∧
      readTree (lex "/#é#/;a") "file" .standard = .ok (namedValueTree 7) ∧
      (namedValueTree 6).Resembles (namedValueTree 7) := by
  have read : readTree (lex "/#e#/;a") "file" .standard = .ok (namedValueTree 6) := by
    decide +kernel
  have otherRead : readTree (lex "/#é#/;a") "file" .standard = .ok (namedValueTree 7) := by
    decide +kernel
  exact ⟨read, otherRead, (listing_eq_iff_resembles read otherRead).mp (by decide +kernel)⟩

end TnslReader
