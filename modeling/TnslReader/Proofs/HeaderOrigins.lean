import TnslReader.Proofs.FileShape

/-!
Contract: where the headers of a tree come from.

A header stands at the front of a block and nowhere else, and it was read from the tokens behind the
marker of the block. So a property that blocks and headers have by that text, and that all other
nodes have anyway, is one of every node of a tree that is read.

Owns: what such a property has to fulfil, and that then every node of a file has it.
Does not own: any such property.
-/

set_option autoImplicit false

namespace TnslReader

/-- A property that blocks and headers have by the text of the header, which stands together behind
the marker, and that all other nodes have anyway. -/
structure HeldByHeaders (tokens : List Token) (holds : Node → Prop) : Prop where
  block : ∀ {depth chain : Nat} {marker : Token} {text : List Token} {children items : List Node},
    HeaderText depth chain .empty text children → marker :: text <:+: tokens →
      holds (.tagged .block marker (.tagged .header marker children :: items))
  header : ∀ {depth chain : Nat} {marker : Token} {text : List Token} {children : List Node},
    HeaderText depth chain .empty text children → marker :: text <:+: tokens →
      holds (.tagged .header marker children)
  other : ∀ {node : Node}, node.kind ≠ .block → node.kind ≠ .header → holds node

variable {tokens : List Token} {holds : Node → Prop}

/-- What stands within a header or an item has neither a block nor a header anywhere. -/
theorem HeldByHeaders.of_shaped {test : NodeKind → Bool} {node : Node}
    (held : HeldByHeaders tokens holds) (shaped : node.Shaped test)
    (implies : ∀ {kind : NodeKind}, test kind = true → kind.isPart = true) :
    node.Everywhere holds := by
  apply Node.Everywhere.mono _ node (shaped.everywhere_isPart implies)
  intro inner part
  apply held.other
  · intro isBlock
    rw [isBlock] at part
    cases part
  · intro isHeader
    rw [isHeader] at part
    cases part

/-- Both parts of a text that stands together stand together. -/
theorem infix_of_append {text rest : List Token} (within : text ++ rest <:+: tokens) :
    text <:+: tokens ∧ rest <:+: tokens :=
  ⟨(List.prefix_append text rest).isInfix.trans within,
    (List.suffix_append text rest).isInfix.trans within⟩

mutual

theorem ItemText.everywhere {depth chain : Nat} {text : List Token} {node? : Option Node}
    (held : HeldByHeaders tokens holds) (within : text <:+: tokens) :
    ItemText depth chain text node? → ∀ node ∈ node?.toList, node.Everywhere holds
  | .empty _ => by simp
  | .statement _ stated =>
      List.forall_mem_singleton.mpr (held.of_shaped stated.shaped NodeKind.isPart_of_isStatement)
  | .directive _ directive =>
      List.forall_mem_singleton.mpr (held.of_shaped directive.shaped NodeKind.isPart_of_directive)
  | .sections sections => List.forall_mem_singleton.mpr (sections.everywhere held within)

theorem ItemsText.everywhere {depth chain : Nat} {text : List Token} {nodes : List Node}
    (held : HeldByHeaders tokens holds) (within : text <:+: tokens) :
    ItemsText depth chain text nodes → ∀ node ∈ nodes, node.Everywhere holds
  | .done => List.forall_mem_nil _
  | .more item later => by
      obtain ⟨first, second⟩ := infix_of_append within
      exact List.forall_mem_append.mpr ⟨item.everywhere held first, later.everywhere held second⟩

theorem ChainedText.everywhere {depth chain : Nat} {text : List Token} {node : Node}
    (held : HeldByHeaders tokens holds) (within : text <:+: tokens) :
    ChainedText depth chain text node → node.Everywhere holds
  | @ChainedText.sections _ _ _ _ opener text _ _ _ _ _ first later => by
      obtain ⟨here, behind⟩ := @infix_of_append tokens (opener :: text) _ within
      exact first.everywhere held here (later.everywhere held behind)

theorem LaterText.everywhere {depth chain : Nat} {kind : Section} {text : List Token}
    {nodes : List Node} (held : HeldByHeaders tokens holds) (within : text <:+: tokens) :
    LaterText depth chain kind text nodes → ∀ node ∈ nodes, node.Everywhere holds
  | .done _ => List.forall_mem_nil _
  | @LaterText.more _ _ _ _ marker text _ _ _ _ here later => by
      obtain ⟨first, behind⟩ := @infix_of_append tokens (marker :: text) _ within
      have everywhere := here.everywhere held first (List.forall_mem_nil _)
      rw [Node.append_nil] at everywhere
      exact List.forall_mem_cons.mpr ⟨everywhere, later.everywhere held behind⟩

/-- A section has the property, and so do the sections behind it in its chain. -/
theorem SectionText.everywhere {depth chain : Nat} {kind : Section} {marker : Token}
    {text : List Token} {node : Node} {others : List Node} (held : HeldByHeaders tokens holds)
    (within : marker :: text <:+: tokens)
    (othersHold : ∀ other ∈ others, other.Everywhere holds) :
    SectionText depth chain kind marker text node →
      ({ node with children := node.children ++ others } : Node).Everywhere holds
  | @SectionText.code _ _ marker headerText _ children items heading body => by
      obtain ⟨headerWithin, bodyWithin⟩ := @infix_of_append tokens (marker :: headerText) _ within
      have headerHolds : (Node.tagged .header marker children).Everywhere holds :=
        Node.everywhere_tagged.mpr ⟨held.header heading headerWithin, fun child member =>
          held.of_shaped (heading.shaped child member) NodeKind.isPart_of_isHeaderChild⟩
      refine Node.everywhere_mk.mpr ⟨held.block heading headerWithin, ?_⟩
      exact List.forall_mem_cons.mpr ⟨headerHolds,
        List.forall_mem_append.mpr ⟨body.everywhere held bodyWithin, othersHold⟩⟩
  | .preprocessor directives => by
      refine Node.everywhere_mk.mpr ⟨held.other NodeKind.noConfusion NodeKind.noConfusion,
        List.forall_mem_append.mpr ⟨fun node member => ?_, othersHold⟩⟩
      exact held.of_shaped (directives.shaped node member) NodeKind.isPart_of_directive

end

/-- Every node of a tree that is read has the property. -/
theorem HeldByHeaders.of_readTree {stream : Array Token} {label : String} {limits : Limits}
    {root : Node} (held : HeldByHeaders stream.toList holds)
    (read : readTree stream label limits = .ok root) : root.Everywhere holds := by
  obtain ⟨items, rfl, file⟩ := itemsText_of_readTree read
  exact Node.everywhere_mk.mpr
    ⟨held.other NodeKind.noConfusion NodeKind.noConfusion, file.everywhere held List.infix_rfl⟩

end TnslReader
