import TnslReader.Listing.Text
import TnslReader.Proofs.EscapedNewlines
import TnslReader.Proofs.FileOrder

/-!
Contract: how far listings keep to one line for each token or node.

Every line ends with a newline, so a listing has the lines that it should have as long as no line
holds a newline of its own. Tags, places and words hold none, but quoted text may hold a newline
that is escaped, and a listing writes it as it is. Every literal of a file is shown by some node of
its tree, so one such literal is enough to break a line of both listings.

Owns: texts that consist of lines, and the lines of listings.
Does not own: what can be read off a listing.
-/

set_option autoImplicit false

namespace TnslReader

/-! ### Texts of lines -/

def unlines (lines : List String) : String :=
  String.join (lines.map (· ++ "\n"))

/-- The text consists of the lines: each is ended by a newline and holds no other. -/
structure IsLines (text : String) (lines : List String) : Prop where
  text_eq : text = unlines lines
  unbroken : ∀ line ∈ lines, '\n' ∉ line.toList

theorem isLines_unlines {lines : List String} :
    IsLines (unlines lines) lines ↔ ∀ line ∈ lines, '\n' ∉ line.toList :=
  ⟨(·.unbroken), fun unbroken => ⟨rfl, unbroken⟩⟩

theorem toList_unlines_cons (line : String) (lines : List String) :
    (unlines (line :: lines)).toList = line.toList ++ '\n' :: (unlines lines).toList := by
  simp [unlines]

/-- Lines can be told from their text if none of them goes on as another one with a newline. -/
theorem unlines_injective (IsLine : String → Prop)
    (apart : ∀ line other behind, IsLine line → IsLine other →
      other.toList ≠ line.toList ++ '\n' :: behind) :
    ∀ {lines others : List String}, (∀ line ∈ lines, IsLine line) →
      (∀ line ∈ others, IsLine line) → unlines lines = unlines others → lines = others
  | [], [], _, _, _ => rfl
  | [], other :: others, _, _, same => by
      have same := congrArg String.toList same
      rw [toList_unlines_cons] at same
      simp [unlines] at same
  | line :: lines, [], _, _, same => by
      have same := congrArg String.toList same
      rw [toList_unlines_cons] at same
      simp [unlines] at same
  | line :: lines, other :: others, areLines, areOthers, same => by
      obtain ⟨isLine, areLaterLines⟩ := List.forall_mem_cons.mp areLines
      obtain ⟨isOther, areLaterOthers⟩ := List.forall_mem_cons.mp areOthers
      have cut := congrArg String.toList same
      rw [toList_unlines_cons, toList_unlines_cons] at cut
      have first : line = other := by
        rcases List.append_eq_append_iff.mp cut with ⟨more, longer, rest⟩ | ⟨more, longer, rest⟩
        · cases more with
          | nil => exact String.toList_inj.mp (by simpa using longer.symm)
          | cons newline more =>
              obtain ⟨rfl, -⟩ := List.cons.inj rest
              exact absurd longer (apart line other more isLine isOther)
        · cases more with
          | nil => exact String.toList_inj.mp (by simpa using longer)
          | cons newline more =>
              obtain ⟨rfl, -⟩ := List.cons.inj rest
              exact absurd longer (apart other line more isOther isLine)
      rw [first, List.append_cancel_left_eq, List.cons.injEq, String.toList_inj] at cut
      rw [first, unlines_injective IsLine apart areLaterLines areLaterOthers cut.2]

/-- The lines of a text are determined by it. -/
theorem IsLines.unique {text : String} {lines others : List String} (isLines : IsLines text lines)
    (isOthers : IsLines text others) : lines = others := by
  apply unlines_injective (fun line => '\n' ∉ line.toList) _ isLines.unbroken isOthers.unbroken
    (isLines.text_eq.symm.trans isOthers.text_eq)
  intro line other behind _ unbroken longer
  exact unbroken (by simp [longer])

/-! ### Lines of listings -/

def Node.line (depth : Nat) (node : Node) : String :=
  indentation depth ++ node.entry

theorem tokenListing_eq (tokens : Array Token) :
    tokenListing tokens = unlines (tokens.toList.map Token.entry) := by
  rw [tokenListing, unlines, List.map_map]
  rfl

theorem Node.listing_eq (root : Node) :
    root.listing = unlines ((root.inOrderFrom 0).map fun (depth, node) => node.line depth) := by
  rw [listing, unlines, List.map_map, preorder_eq]
  rfl

theorem notMem_toDigits {character : Char} (other : character.isDigit = false) (number : Nat) :
    character ∉ Nat.toDigits 10 number := by
  intro member
  rw [Nat.isDigit_of_mem_toDigits (by decide) (by decide) member] at other
  cases other

/-- A line of a listing of tokens is broken only by the text of its token. -/
theorem Token.newline_mem_entry {token : Token} :
    '\n' ∈ token.entry.toList ↔ '\n' ∈ token.text.toList := by
  have className : '\n' ∉ token.tokenClass.shortName.toList := by
    cases token.tokenClass <;> decide
  simp [entry, notMem_toDigits, className]

/-- A line of a listing of nodes is broken only by a text that the node shows. -/
theorem Node.newline_mem_line {depth : Nat} {node : Node} :
    '\n' ∈ (node.line depth).toList ↔
      node.kind.showsText = true ∧ '\n' ∈ node.token.text.toList := by
  have tag : '\n' ∉ node.kind.tag.toList := by cases node.kind <;> decide
  have place : '\n' ∉ (if node.token.hasPosition then
      " @" ++ toString node.token.line ++ ":" ++ toString node.token.column else "").toList := by
    split <;> simp [notMem_toDigits]
  simp only [line, entry, indentation, String.toList_append, List.mem_append, tag, place]
  by_cases shows : node.kind.showsText = true <;> simp [shows, text]

/-! ### Literals are shown -/

theorem mem_joinedFrom {token : Token} (isLiteral : token.tokenClass = .literal)
    (inArguments : Bool) (text : List Token) (member : token ∈ text) :
    token ∈ joinedFrom inArguments text := by
  have notWord : ∀ word, token.isKeyword word = false := by
    intro word
    simp [Token.isKeyword, isLiteral]
  fun_induction joinedFrom inArguments text with
  | case1 => cases member
  | case2 => exact member
  | case3 inArguments first next rest joins inductionHypothesis =>
      simp only [Bool.and_eq_true] at joins
      rcases List.mem_cons.mp member with rfl | behind
      · rw [notWord] at joins
        exact absurd joins.1.2 Bool.false_ne_true
      · rcases List.mem_cons.mp behind with rfl | behind
        · rw [notWord] at joins
          exact absurd joins.2 Bool.false_ne_true
        · exact List.mem_cons_of_mem _ (inductionHypothesis behind)
  | case4 inArguments first next rest apart inductionHypothesis =>
      rcases List.mem_cons.mp member with rfl | behind
      · exact List.mem_cons_self
      · exact List.mem_cons_of_mem _ (inductionHypothesis behind)

/-- A literal that fits an entry of a wording is that entry. -/
theorem some_mem_of_fits {token : Token} (isLiteral : token.tokenClass = .literal)
    {entries : List (Option Token)} {text : List Token} (fits : List.Forall₂ Fits entries text)
    (member : token ∈ text) : some token ∈ entries := by
  induction fits with
  | nil => cases member
  | @cons entry other entries text fit _ inductionHypothesis =>
      rcases List.mem_cons.mp member with rfl | behind
      · cases entry with
        | none =>
            have isOperator := Token.tokenClass_of_operator? (Token.operator?_of_isOperator fit)
            rw [isLiteral] at isOperator
            cases isOperator
        | some found =>
            have same : found = token := fit
            rw [same]
            exact List.mem_cons_self
      · exact List.mem_cons_of_mem _ (inductionHypothesis behind)

namespace Node

theorem eq_of_mem_ownWording {kind : NodeKind} {own token : Token}
    (member : some token ∈ ownWording kind own) : own = token := by
  simp only [ownWording, wording, List.mem_append, List.mem_map, List.mem_filter] at member
  rcases member with ⟨found, ⟨isOwn, -⟩, same⟩ | gap
  · cases same
    exact (List.mem_singleton.mp isOwn).symm
  · split at gap <;> simp at gap

mutual

/-- Every word of a tree is the token of one of its nodes. -/
theorem exists_of_mem_sourceWording {token : Token} : (node : Node) →
    some token ∈ node.sourceWording → ∃ inner ∈ node.inOrder, inner.token = token
  | ⟨kind, own, []⟩, member => by
      rw [sourceWording] at member
      exact ⟨_, by rw [inOrder]; exact List.mem_cons_self, eq_of_mem_ownWording member⟩
  | ⟨kind, own, first :: later⟩, member => by
      have somewhere : some token ∈ ownWording kind own ∨
          some token ∈ sourceWordingAll (first :: later) := by
        rw [sourceWording] at member
        rw [sourceWordingAll_cons]
        split at member <;> simp only [List.mem_append] at member ⊢ <;> tauto
      rw [inOrder]
      rcases somewhere with here | below
      · exact ⟨_, List.mem_cons_self, eq_of_mem_ownWording here⟩
      · obtain ⟨inner, within, same⟩ := exists_of_mem_sourceWordingAll (first :: later) below
        exact ⟨inner, List.mem_cons_of_mem _ within, same⟩

theorem exists_of_mem_sourceWordingAll {token : Token} : (nodes : List Node) →
    some token ∈ sourceWordingAll nodes → ∃ inner ∈ inOrderAll nodes, inner.token = token
  | [], member => by simp at member
  | node :: nodes, member => by
      rw [sourceWordingAll_cons, List.mem_append] at member
      rw [inOrderAll]
      rcases member with here | later
      · obtain ⟨inner, within, same⟩ := exists_of_mem_sourceWording node here
        exact ⟨inner, List.mem_append_left _ within, same⟩
      · obtain ⟨inner, within, same⟩ := exists_of_mem_sourceWordingAll nodes later
        exact ⟨inner, List.mem_append_right _ within, same⟩

end

end Node

variable {tokens : Array Token} {label : String} {limits : Limits} {root : Node}

/-- The root of a tree that is read has the label for its text, and every node below it has its
token from the file. -/
theorem exists_origins_of_readTree (read : readTree tokens label limits = .ok root) :
    ∃ items, root = ⟨.root, .root label, items⟩ ∧
      ∀ node ∈ Node.inOrderAll items, Node.Origin tokens.toList node.kind node.token := by
  obtain ⟨items, rfl, file⟩ := itemsText_of_readTree read
  refine ⟨items, rfl, (Node.everywhereAll_iff_inOrderAll _ items).mp ?_⟩
  exact Node.everywhereAll_iff.mpr file.drawn

/-- Every literal of a file that is read is shown by a node of its tree. -/
theorem exists_node_of_literal (read : readTree tokens label limits = .ok root) {token : Token}
    (member : token ∈ tokens) (isLiteral : token.tokenClass = .literal) :
    ∃ node ∈ root.inOrder, node.token = token ∧ node.kind.showsText = true := by
  obtain ⟨items, rfl, origins⟩ := exists_origins_of_readTree read
  obtain ⟨_, same, file⟩ := itemsText_of_readTree read
  cases same
  have worded : token ∈ wording (joined tokens.toList) := by
    refine List.mem_filter.mpr ⟨mem_joinedFrom isLiteral false _ (by simpa using member), ?_⟩
    exact Token.isWording_of_class isLiteral
  have told := some_mem_of_fits isLiteral file.recounted.joined_fits worded
  obtain ⟨node, within, rfl⟩ := Node.exists_of_mem_sourceWordingAll items told
  exact ⟨node, List.mem_cons_of_mem _ within, rfl, (origins node within).showsText isLiteral⟩

/-! ### Listings of source texts -/

/-- A line of the listing of a tree is broken only by a token of the file, if the label breaks none.
-/
theorem Node.broken_of_mem_inOrder {source : String} (plain : '\n' ∉ label.toList)
    (read : readTree (lex source) label limits = .ok root) {node : Node}
    (member : node ∈ root.inOrder) (shows : node.kind.showsText = true)
    (broken : '\n' ∈ node.token.text.toList) :
    ∃ token ∈ lex source, '\n' ∈ token.text.toList := by
  obtain ⟨items, rfl, origins⟩ := exists_origins_of_readTree read
  rcases List.mem_cons.mp member with rfl | below
  · exact absurd broken plain
  · have origin := origins node below
    generalize node.kind = kind, node.token = token at origin shows broken
    cases origin with
    | kept member _ => exact ⟨token, by simpa using member, broken⟩
    | made _ hidden => exact absurd (shows.symm.trans hidden) Bool.false_ne_true.symm
    | joined =>
        change '\n' ∈ Keyword.elifWord.spelling.toList at broken
        exact absurd broken (by decide)

/-- Listings have one line for each token and one for each node, in preorder and indented by depth,
exactly if no token holds a newline. The tokens that hold one are quoted text, where every newline
stands right behind a backslash. -/
theorem listing_isLines_iff (source : String) :
    (IsLines (tokenListing (lex source)) ((lex source).toList.map Token.entry) ↔
      ∀ token ∈ lex source, '\n' ∉ token.text.toList) ∧
    (∀ label limits root, '\n' ∉ label.toList → readTree (lex source) label limits = .ok root →
      (root.inOrderFrom 0).length = root.size ∧
      (IsLines root.listing
          ((root.inOrderFrom 0).map fun (depth, node) => indentation depth ++ node.entry) ↔
        ∀ token ∈ lex source, '\n' ∉ token.text.toList)) ∧
    ∀ token ∈ lex source, '\n' ∈ token.text.toList →
      token.tokenClass = .literal ∧ IsQuoted token.text ∧ EscapesNewlines token.text.toList := by
  refine ⟨?_, fun label limits root plain read => ⟨?_, ?_⟩, fun token member broken => ?_⟩
  · rw [tokenListing_eq, isLines_unlines, List.forall_mem_map]
    simp only [Token.newline_mem_entry, Array.mem_toList_iff]
  · rw [← root.preorder_eq, root.length_preorder]
  · rw [root.listing_eq]
    refine isLines_unlines.trans ⟨fun unbroken token member broken => ?_, fun unbroken => ?_⟩
    · have isLiteral := ((escapesNewlines_of_mem_lex member).2 broken).1
      obtain ⟨node, within, rfl, shows⟩ := exists_node_of_literal read member isLiteral
      rw [← root.map_inOrderFrom 0] at within
      obtain ⟨⟨depth, node⟩, placed, rfl⟩ := List.mem_map.mp within
      exact unbroken _ (List.mem_map_of_mem placed) (Node.newline_mem_line.mpr ⟨shows, broken⟩)
    · rw [List.forall_mem_map]
      rintro ⟨depth, node⟩ placed broken
      obtain ⟨shows, broken⟩ := Node.newline_mem_line.mp broken
      have within : node ∈ root.inOrder := by
        rw [← root.map_inOrderFrom 0]
        exact List.mem_map_of_mem placed
      obtain ⟨token, member, broken⟩ := Node.broken_of_mem_inOrder plain read within shows broken
      exact unbroken token member broken
  · obtain ⟨escapes, quoted⟩ := escapesNewlines_of_mem_lex member
    exact ⟨(quoted broken).1, (quoted broken).2, escapes⟩

/-- A value that is quoted text with a newline in it. -/
def brokenValue : String :=
  ";\"a\\\nb\""

def brokenValueTree : Node :=
  let literal : Token := ⟨.literal, "\"a\\\nb\"", 1, 2, ⟨1, 7⟩⟩
  ⟨.root, .root "file", [.tagged .valueStatement literal [.leaf .literal literal]]⟩

theorem readTree_brokenValue :
    readTree (lex brokenValue) "file" .standard = .ok brokenValueTree := by
  decide +kernel

/-- Neither listing of the value has one line for each entry. -/
theorem listing_not_isLines_brokenValue :
    '\n' ∉ "file".toList ∧
      ¬IsLines (tokenListing (lex brokenValue)) ((lex brokenValue).toList.map Token.entry) ∧
      ¬IsLines brokenValueTree.listing ((brokenValueTree.inOrderFrom 0).map fun (depth, node) =>
        indentation depth ++ node.entry) := by
  have plain : '\n' ∉ "file".toList := by decide
  have broken : ¬∀ token ∈ lex brokenValue, '\n' ∉ token.text.toList := by decide +kernel
  obtain ⟨tokens, nodes, -⟩ := listing_isLines_iff brokenValue
  exact ⟨plain, mt tokens.mp broken,
    mt (nodes "file" .standard brokenValueTree plain readTree_brokenValue).2.mp broken⟩

/-- The listing of the two tokens has three newlines, and that of the three nodes has four. -/
theorem brokenValue_breaks_lines :
    readTree (lex brokenValue) "file" .standard = .ok brokenValueTree ∧
      (lex brokenValue).size = 2 ∧
      (tokenListing (lex brokenValue)).toList.count '\n' = 3 ∧
      brokenValueTree.size = 3 ∧ brokenValueTree.listing.toList.count '\n' = 4 := by
  decide +kernel

end TnslReader
