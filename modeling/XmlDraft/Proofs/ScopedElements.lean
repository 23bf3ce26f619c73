import XmlDraft.Proofs.Elements
import XmlDraft.Proofs.Resolving
import XmlDraft.Proofs.Scoping

/-!
# Reading elements where namespaces are told apart

A reader that takes names apart comes through the markup of an element as one that does not, but
the namespaces in scope go with it.  Main statement: the events that an element gives are those of
an item, whose tags are those of the elements of the tree in document order, each in the namespace
that is in scope inside it.
-/

namespace XmlDraft

open Reading (IsDeclarable Item Tag scopedTag)

/-! ### Tags of trees -/

/-- A node whose namespace a tag may declare, if it has one. -/
def Node.IsScopable (separator : Char) (n : Node) : Prop :=
  ∀ uri ∈ n.name?.bind QName.space, IsDeclarable separator uri

mutual

/-- The resolved tags of the elements of a node in document order, given the default namespace in
scope. -/
def Node.tags (scope : Option String) : Node → List Tag
  | .element name attributes children =>
    scopedTag scope name attributes :: tagsList (Writing.innerScope scope name) children
  | _ => []

/-- The resolved tags of the elements of several nodes in document order. -/
def Node.tagsList (scope : Option String) : List Node → List Tag
  | [] => []
  | n :: ns => tags scope n ++ tagsList scope ns

end

namespace Reading

namespace Item

mutual

/-- The tags of an item, in order. -/
def tags : Item → List Tag
  | element tag _ inner => tag :: tagsList inner
  | _ => []

/-- The tags of several items, in order. -/
def tagsList : List Item → List Tag
  | [] => []
  | i :: is => tags i ++ tagsList is

end

theorem tagsList_append (before after : List Item) :
  tagsList (before ++ after) = tagsList before ++ tagsList after
  := by
  induction before with
  | nil => rfl
  | cons i is ih => simp [tagsList, ih]

theorem eventsList_append (before after : List Item) :
  eventsList (before ++ after) = eventsList before ++ eventsList after
  := by
  induction before with
  | nil => rfl
  | cons i is ih => simp [eventsList, ih]

/-- Pieces of character data are items of their own, without tags. -/
theorem eventsList_characters (pieces : List (List Char)) :
  eventsList (pieces.map .characters) = pieces.map .characters
    ∧ tagsList (pieces.map .characters) = []
  := by
  induction pieces with
  | nil => exact ⟨rfl, rfl⟩
  | cons p ps ih => simp [eventsList, events, tagsList, tags, ih]

end Item

namespace Surroundings

/-- Surroundings in which nothing is being replaced, names are taken apart, and no attributes are
declared. -/
structure IsScoped (x : Surroundings) (separator : Char) : Prop where
  medium : x.medium.IsSettled
  divides : x.medium.alphabet.divides
  separator : x.manner.separator = some separator
  base : x.base = 0
  attributes : x.declarations.attributes = []

variable {x : Surroundings} {expand : Expanding} {separator : Char}

/-! ### Tags -/

/-- The state after a start tag that is resolved. -/
def afterScopedTag (f : Flow) (outer : Option String) (name : QName) (attributes : Attributes)
    (isEmpty : Bool) : Flow :=
  let g := f.emit (.start (scopedTag outer name attributes))
  if isEmpty then g.emit .finish
  else { g with
    opened := ⟨name.localPart.toList, f.scope⟩ :: f.opened, scope := f.scope.inside outer name }

/-- A start tag that was written is read and resolved. -/
theorem step_scopedTag (expand : Expanding) (hx : x.IsScoped separator) {scope : Option String}
    {name : QName} {attributes : Attributes}
    (htag : Writing.IsTag x.medium.alphabet x.declarations scope name attributes)
    (hspace : ∀ uri ∈ name.space, IsDeclarable separator uri) (isEmpty : Bool) (rest : List Char)
    {f : Flow} (hscope : f.scope.HasDefault scope) :
  x.step expand '<' (name.localPart.toList
      ++ (Writing.attributesText (Writing.tagAttributes scope name attributes)
        ++ (Medium.tagEnd isEmpty ++ rest))) f
    = .ok (afterScopedTag f scope name attributes isEmpty, rest)
  := by
  obtain ⟨raws, hstart, hraws⟩ :=
    Medium.startTag_append htag.plain (tagAttributes_written htag).1 isEmpty rest
  have hresolve := resolveTag_written hx.divides hx.attributes x.replacing (x.account rest) f.spent
    ('<' :: (name.localPart.toList
      ++ (Writing.attributesText (Writing.tagAttributes scope name attributes)
        ++ (Medium.tagEnd isEmpty ++ rest)))) hscope htag hspace hraws isEmpty
  simp only [step, markup_name htag.plain, startTag, hstart, hx.separator, scanned,
    Except.mapError, bind, Except.bind, hresolve]
  cases isEmpty <;> rfl

/-- An element with children is read from its start tag to its end tag if its children are read in
between. -/
theorem passes_scopedTags (hx : x.IsScoped separator) {scope : Option String} {name : QName}
    {attributes : Attributes}
    (htag : Writing.IsTag x.medium.alphabet x.declarations scope name attributes)
    (hspace : ∀ uri ∈ name.space, IsDeclarable separator uri) {content rest : List Char}
    {es : List Event}
    (hchildren : x.Emits expand (Writing.innerScope scope name)
      (content ++ '<' :: '/' :: (name.localPart.toList ++ '>' :: rest))
      ('<' :: '/' :: (name.localPart.toList ++ '>' :: rest)) es)
    {f : Flow} (hscope : f.scope.HasDefault scope) :
  x.Passes expand ('<' :: (name.localPart.toList
        ++ (Writing.attributesText (Writing.tagAttributes scope name attributes)
          ++ (Medium.tagEnd false
            ++ (content ++ '<' :: '/' :: (name.localPart.toList ++ '>' :: rest)))))) f rest
    { f with
      events := (.start (scopedTag scope name attributes) :: (es ++ [.finish])).reverse ++ f.events }
  := by
  have hstep := step_scopedTag expand hx htag hspace false
    (content ++ '<' :: '/' :: (name.localPart.toList ++ '>' :: rest)) hscope
  let opened := afterScopedTag f scope name attributes false
  have hopened : opened.opened = ⟨name.localPart.toList, f.scope⟩ :: f.opened := rfl
  have hne : opened.opened ≠ [] := hopened ▸ List.cons_ne_nil _ _
  have hinside : x.Passes expand _ opened _ { opened with events := es.reverse ++ opened.events } :=
    hchildren opened hne (hscope.inside name)
  have hend := step_endTag expand hx.base htag.plain rest
    { opened with events := es.reverse ++ opened.events } f.scope f.opened hopened
  have hlength : rest.length ≤ ('/' :: (name.localPart.toList ++ '>' :: rest)).length := by
    simp only [List.length_cons, List.length_append]
    omega
  have hthrough := Passes.trans (.of_step (length_le_tag _ _ _ _) hstep) hne
    (hinside.trans hne (.of_step hlength hend))
  simpa [opened, afterScopedTag, Flow.emit] using hthrough

/-! ### Children -/

/-- The sections of a text are read as items one after another. -/
theorem emits_sections (hm : x.medium.IsSettled) (space : Option String) (ps : List (List Char))
    (h : ∀ p ∈ ps, (∀ c ∈ p, isXmlChar c) ∧ Writing.HoldsNoEnd p) (rest : List Char) :
  ∃ items, Item.tagsList items = []
    ∧ x.Emits expand space (ps.flatMap Writing.cdataSection ++ rest) rest (Item.eventsList items)
  := by
  induction ps with
  | nil => exact ⟨[], rfl, .nil _⟩
  | cons p ps ih =>
      obtain ⟨⟨hchars, hend⟩, hps⟩ := List.forall_mem_cons.mp h
      obtain ⟨items, htags, hothers⟩ := ih hps
      rw [List.flatMap_cons, List.append_assoc]
      obtain ⟨pieces, hfirst, _⟩ := emits_cdataSection expand hm space hchars hend
        (ps.flatMap Writing.cdataSection ++ rest)
      exact ⟨.cdata pieces :: items, htags, hfirst.append hothers⟩

/-- A CDATA section is read as the sections that it is written as. -/
theorem emits_cdata (hm : x.medium.IsSettled) (scope space : Option String) {value : String}
    (hchars : isCharText value) (rest : List Char) :
  ∃ items, Item.tagsList items = []
    ∧ x.Emits expand space (Writing.compact scope (.cdata value) ++ rest) rest
        (Item.eventsList items)
  := by
  obtain ⟨first, others, hcut, _, hfirst, hothers⟩ := Node.cutSections_spec value.toList
  have hends : ∀ p ∈ Node.cutSections value.toList, Writing.HoldsNoEnd p :=
    hcut ▸ List.forall_mem_cons.mpr ⟨hfirst, hothers⟩
  have hpieces : ∀ p ∈ Node.cutSections value.toList, ∀ c ∈ p, isXmlChar c := by
    intro p hp c hc
    apply Medium.isXmlChar_of_isCharText hchars
    rw [← Node.flatten_cutSections value.toList]
    exact List.mem_flatten_of_mem hp hc
  rw [Writing.compact, Writing.cdataSections_eq]
  exact emits_sections hm space _ (fun p hp => ⟨hpieces p hp, hends p hp⟩) rest

mutual

/-- The markup of an element is read to the end of it, and its events are those of an item with the
tags of the element. -/
theorem passes_item (hx : x.IsScoped separator) {scope : Option String} (n : Node) (hn : n.isElement)
    (h : n.IsWritable x.medium.alphabet x.declarations scope)
    (hspaces : ∀ m ∈ n.nodes, m.IsScopable separator) (rest : List Char) :
  ∃ item : Item, item.tags = n.tags scope ∧ ∀ f : Flow, f.scope.HasDefault scope →
    x.Passes expand (Writing.compact scope n ++ rest) f rest
      { f with events := item.events.reverse ++ f.events }
  := by
  cases n with
  | element name attributes children =>
      obtain ⟨htag, hchildren⟩ := h
      obtain ⟨hspace, hinner⟩ := Node.forall_nodes_element.mp hspaces
      have hnamed : (scopedTag scope name attributes).name.raw ≠ "" := name.localPart_ne
      cases children with
      | nil =>
          refine ⟨.element (scopedTag scope name attributes) hnamed [], rfl, fun f hscope => ?_⟩
          rw [compact_append_empty]
          exact .of_step (length_le_tag _ _ _ _)
            (step_scopedTag expand hx htag hspace true rest hscope)
      | cons c cs =>
          obtain ⟨items, htags, hemits⟩ := emits_items hx (c :: cs) hchildren hinner [] (by simp)
            ('/' :: (name.localPart.toList ++ '>' :: rest))
          refine ⟨.element (scopedTag scope name attributes) hnamed items, ?_, fun f hscope => ?_⟩
          · rw [Item.tags, Node.tags, htags]
          · rw [compact_append_children _ htag.own _ (List.cons_ne_nil c cs)]
            exact passes_scopedTags hx htag hspace hemits hscope
  | _ => cases hn

/-- The children of an element are read up to the end of it as items with the tags of the children,
behind a text that was not read yet. -/
theorem emits_items (hx : x.IsScoped separator) {space : Option String} (ns : List Node)
    (h : Node.AreWritable x.medium.alphabet x.declarations space ns)
    (hspaces : ∀ m ∈ Node.nodesList ns, m.IsScopable separator) (cs : List Char)
    (hcs : ∀ c ∈ cs, isXmlChar c) (more : List Char) :
  ∃ items, Item.tagsList items = Node.tagsList space ns
    ∧ x.Emits expand space
        (Writing.escapeText cs ++ (Writing.compactList space ns ++ '<' :: more)) ('<' :: more)
        (Item.eventsList items)
  := by
  cases ns with
  | nil =>
      obtain ⟨pieces, hemits, _⟩ := emits_escapeText expand hx.medium space cs more hcs
      obtain ⟨hevents, htags⟩ := Item.eventsList_characters pieces
      exact ⟨pieces.map .characters, htags, hevents.symm ▸ hemits⟩
  | cons n ns =>
      obtain ⟨hn, hns⟩ := h
      obtain ⟨hspace, hothers⟩ := Node.forall_nodesList_cons.mp hspaces
      -- what was not read yet goes before the node, and nothing is left for what follows it
      have hgo (hhead : ∃ rest, Writing.compact space n = '<' :: rest)
          (hnode : ∀ rest, ∃ items, Item.tagsList items = n.tags space
            ∧ x.Emits expand space (Writing.compact space n ++ rest) rest
                (Item.eventsList items)) :
          ∃ items, Item.tagsList items = Node.tagsList space (n :: ns)
            ∧ x.Emits expand space
              (Writing.escapeText cs ++ (Writing.compactList space (n :: ns) ++ '<' :: more))
              ('<' :: more) (Item.eventsList items) := by
        obtain ⟨rest, hhead⟩ := hhead
        obtain ⟨pieces, htext, _⟩ := emits_escapeText expand hx.medium space cs
          (rest ++ (Writing.compactList space ns ++ '<' :: more)) hcs
        obtain ⟨hevents, hnone⟩ := Item.eventsList_characters pieces
        obtain ⟨first, hfirst, hread⟩ := hnode (Writing.compactList space ns ++ '<' :: more)
        obtain ⟨last, hlast, hafter⟩ := emits_items hx ns hns hothers [] (by simp)
          more
        refine ⟨pieces.map .characters ++ (first ++ last), ?_, ?_⟩
        · rw [Item.tagsList_append, Item.tagsList_append, hnone, hfirst, hlast, Node.tagsList]
          rfl
        · rw [← List.cons_append, ← hhead] at htext
          rw [Writing.compactList, List.append_assoc, Item.eventsList_append,
            Item.eventsList_append, hevents]
          exact htext.append (hread.append hafter)
      cases n with
      | element name attributes children =>
          apply hgo (compact_head space (fun _ => Node.noConfusion) (fun _ => Node.noConfusion))
          intro rest
          obtain ⟨item, htags, hread⟩ := passes_item hx
            (.element name attributes children) rfl hn hspace rest
          refine ⟨[item], ?_, fun f _ hscope => ?_⟩
          · simp [Item.tagsList, htags]
          · simpa [Item.eventsList] using hread f hscope
      | text value =>
          have hvalue := Medium.isXmlChar_of_isCharText hn.1
          obtain ⟨items, htags, hread⟩ := emits_items hx ns hns hothers
            (cs ++ value.toList) (List.forall_mem_append.mpr ⟨hcs, hvalue⟩) more
          refine ⟨items, htags, ?_⟩
          rw [Writing.escapeText_append, List.append_assoc] at hread
          rw [Writing.compactList, Writing.compact, List.append_assoc]
          exact hread
      | cdata value =>
          apply hgo (compact_head space (fun _ => Node.noConfusion) (fun _ => Node.noConfusion))
          exact fun rest => emits_cdata hx.medium space space hn.1 rest
      | comment value =>
          obtain ⟨value, member⟩ := value
          obtain ⟨⟨hchars, hbreaks⟩, rfl : member = none⟩ := hn
          apply hgo (compact_head space (fun _ => Node.noConfusion) (fun _ => Node.noConfusion))
          intro rest
          have hwhole : breaksComment (Node.unifiedText value).toList = false := by
            rw [Node.unifiedText, String.toList_ofList]
            exact breaksComment_unifyLines hbreaks
          exact ⟨[.comment (Node.unifiedText value) hwhole], rfl,
            emits_comment space space hchars hbreaks rest⟩
      | doctype d => exact hn.elim

end

end Surroundings

end Reading

end XmlDraft
