import XmlDraft.Proofs.Accepting

/-!
# Default namespaces in scope

Events that are well nested are those of items: elements with items inside them, character data,
CDATA sections and comments.  Two stacks go with them, that of the open elements and that of the
default namespaces, and after any events the second is made up of the namespaces of the first.
Main statement: what well-nested events put together is the tree of their items, in which every
element has the default namespace that is declared nearest to it.
-/

namespace XmlDraft

namespace Reading

/-! ### Tags -/

namespace Tag

/-- The value that a tag declares as the default namespace, if it declares one; the last
declaration counts. -/
def defaultSpace? (t : Tag) : Option String :=
  (t.given.filter fun p => p.1.raw = "xmlns").getLast?.map Prod.snd

/-- What a tag gives besides declarations of the default namespace, in order. -/
def plainAttributes (t : Tag) : Attributes :=
  (t.given.filter fun p => p.1.raw ≠ "xmlns").map fun p => (p.1.raw, p.2)

/-- The attributes of the element of a tag, set one after another. -/
def ownAttributes (t : Tag) : Attributes :=
  t.plainAttributes.foldl (fun held p => held.set p.1 p.2) []

end Tag

/-- The default namespace inside elements of given tags, the innermost of which comes first: the one
that is declared nearest, and none where nothing is declared or the empty text. -/
def spaceInside (around : List Tag) : Option String :=
  match around.findSome? Tag.defaultSpace? with
  | none => none
  | some uri => if uri = "" then none else some uri

/-- A tag that declares nothing is in the namespace around it, one that declares the empty text is
in none, and any other one is in the namespace that it declares. -/
theorem spaceInside_cons (tag : Tag) (around : List Tag) :
  spaceInside (tag :: around)
    = (tag.defaultSpace?.map fun uri => nonempty? (some uri)).getD (spaceInside around)
  := by
  rw [spaceInside, List.findSome?_cons]
  cases tag.defaultSpace? with
  | none => rfl
  | some uri =>
      by_cases huri : uri = "" <;> simp [nonempty?, Option.filter, huri]

/-! ### Items -/

/-- Events that belong together: those of an element, with what stands before its end, of character
data, of a CDATA section in pieces, and of a comment. -/
inductive Item where
  | element (tag : Tag) (named : tag.name.raw ≠ "") (inner : List Item)
  | characters (cs : List Char)
  | cdata (pieces : List (List Char))
  | comment (text : String) (whole : breaksComment text.toList = false)

namespace Item

mutual

/-- The events of an item. -/
def events : Item → List Event
  | element tag _ inner => .start tag :: (eventsList inner ++ [.finish])
  | characters cs => [.characters cs]
  | cdata pieces => .cdataStart :: (pieces.map .characters ++ [.cdataEnd])
  | comment text _ => [.comment text]

/-- The events of several items. -/
def eventsList : List Item → List Event
  | [] => []
  | i :: is => events i ++ eventsList is

end

mutual

/-- The nodes of an item inside elements of given tags, the innermost first. -/
def nodes (around : List Tag) : Item → List Node
  | element tag named inner =>
    [.element ⟨tag.name.raw, spaceInside (tag :: around), named, none⟩ tag.ownAttributes
      (Node.joinTexts (nodesList (tag :: around) inner))]
  | characters cs => [.text (String.ofList cs)]
  | cdata pieces => if pieces.flatten = [] then [] else [.cdata (String.ofList pieces.flatten)]
  | comment text _ => [.comment text]

/-- The nodes of several items inside elements of given tags. -/
def nodesList (around : List Tag) : List Item → List Node
  | [] => []
  | i :: is => nodes around i ++ nodesList around is

end

/-- The nodes of items that stand outside all elements, where texts leave nothing behind. -/
def topNodes (items : List Item) : List Node :=
  (nodesList [] items).filter fun n => !n.isText

/-- The document of items: their nodes at the top level, without a declaration. -/
def document (items : List Item) : Document :=
  { children := topNodes items }

end Item

/-! ### Attributes and declarations -/

namespace Assembly

/-- The attributes that a list gives are set one after another, and its last declaration of a
default namespace counts. -/
theorem attributesOf_eq (space : Option String) (given : List (Label × String))
    (held : Attributes) :
  attributesOf space given held
    = (((given.filter fun p => p.1.raw ≠ "xmlns").map fun p => (p.1.raw, p.2)).foldl
        (fun held p => held.set p.1 p.2) held,
      ((given.filter fun p => p.1.raw = "xmlns").getLast?.map
        fun p => nonempty? (some p.2)).getD space)
  := by
  induction given generalizing space held with
  | nil => rfl
  | cons p rest ih =>
      obtain ⟨l, value⟩ := p
      rw [attributesOf]
      split_ifs with hl
      · rw [ih]
        simp only [hl, List.filter_cons_of_pos, decide_true, ne_eq, not_true_eq_false, decide_false,
          Bool.false_eq_true, not_false_eq_true, List.filter_cons_of_neg, List.getLast?_cons,
          Option.map_some, Option.getD_some, Prod.mk.injEq, true_and]
        cases (rest.filter fun p => p.1.raw = "xmlns").getLast? <;> rfl
      · rw [ih]
        simp [hl]

/-- A tag inside others gives the attributes of its element and the namespace in scope inside. -/
theorem attributesOf_given (tag : Tag) (around : List Tag) :
  attributesOf (spaceInside around) tag.given []
    = (tag.ownAttributes, spaceInside (tag :: around))
  := by
  rw [attributesOf_eq, spaceInside_cons, Tag.defaultSpace?, Option.map_map]
  rfl

theorem foldl_set {attributes held : Attributes}
    (hnodup : ((held ++ attributes).map Prod.fst).Nodup) :
  attributes.foldl (fun held p => held.set p.1 p.2) held = held ++ attributes
  := by
  induction attributes generalizing held with
  | nil => rw [List.append_nil]; rfl
  | cons p others ih =>
      have hfresh : p.1 ∉ held.map Prod.fst := by
        intro hmem
        rw [List.map_append, List.nodup_append] at hnodup
        exact hnodup.2.2 p.1 hmem p.1 (by simp) rfl
      rw [List.foldl_cons, set_append hfresh, ih (by simpa using hnodup)]
      simp

theorem mem_foldl_set {attributes held : Attributes} {p : String × String}
    (h : p ∈ attributes.foldl (fun held p => held.set p.1 p.2) held) :
  p ∈ held ∨ p ∈ attributes
  := by
  induction attributes generalizing held with
  | nil => exact .inl h
  | cons q others ih =>
      rcases ih h with h | h
      · rcases Attributes.mem_set h with h | rfl
        · exact .inl h
        · exact .inr List.mem_cons_self
      · exact .inr (List.mem_cons_of_mem _ h)

end Assembly

namespace Tag

/-- Attributes with names of their own are those of the element, in their order. -/
theorem ownAttributes_eq {t : Tag} (hnodup : (t.plainAttributes.map Prod.fst).Nodup) :
  t.ownAttributes = t.plainAttributes
  := by
  rw [ownAttributes, Assembly.foldl_set (by simpa using hnodup), List.nil_append]

/-- An element has no attributes that its tag does not give. -/
theorem mem_plainAttributes {t : Tag} {p : String × String} (h : p ∈ t.ownAttributes) :
  p ∈ t.plainAttributes
  := by
  exact (Assembly.mem_foldl_set h).resolve_left List.not_mem_nil

/-- A declaration of a default namespace is no attribute of the element. -/
theorem xmlns_notMem_ownAttributes (t : Tag) :
  "xmlns" ∉ t.ownAttributes.map Prod.fst
  := by
  intro h
  obtain ⟨p, hp, hname⟩ := List.mem_map.mp h
  obtain ⟨q, hq, rfl⟩ := List.mem_map.mp (mem_plainAttributes hp)
  exact of_decide_eq_true (List.mem_filter.mp hq).2 hname

end Tag

/-! ### The two stacks -/

namespace Assembly

/-- The namespaces of the open elements, the innermost first, and none for the document. -/
def openSpaces (a : Assembly) : List (Option String) :=
  a.opened.map (fun o => o.name.space) ++ [none]

variable {a b : Assembly} {e : Event} {es : List Event}

/-- Attaching a node changes neither the namespaces in scope nor those of the open elements. -/
theorem attach_spaces {n : Node} (h : a.attach n = .ok b) :
  b.spaces = a.spaces ∧ b.openSpaces = a.openSpaces
  := by
  unfold attach at h
  split at h
  · next o others ho =>
      cases h
      simp [openSpaces, ho]
  · next ho =>
      obtain ⟨d, _, rfl⟩ := map_ok h
      exact ⟨rfl, rfl⟩

theorem addCharacters_spaces (a : Assembly) (s : String) :
  (a.addCharacters s).spaces = a.spaces ∧ (a.addCharacters s).openSpaces = a.openSpaces
  := by
  unfold addCharacters
  split
  · exact ⟨rfl, rfl⟩
  · split
    · next o others ho => simp [openSpaces, ho]
    · exact ⟨rfl, rfl⟩

theorem openTag_spaces {t : Tag} (hspaces : a.spaces = a.openSpaces) (h : a.openTag t = .ok b) :
  b.spaces = b.openSpaces
  := by
  unfold openTag at h
  dsimp only at h
  split at h
  · cases h
  · next name hname =>
      cases h
      exact congrArg₂ List.cons (QName.of?_eq_some hname).2.1.symm hspaces

theorem closeTag_spaces (hspaces : a.spaces = a.openSpaces) (h : a.closeTag = .ok b) :
  b.spaces = b.openSpaces
  := by
  unfold closeTag at h
  split at h
  · next o others ho =>
      obtain ⟨hbefore, hafter⟩ := attach_spaces h
      rw [hbefore, hafter, hspaces, openSpaces, ho]
      rfl
  · cases h
    exact hspaces

/-- Every event keeps the two stacks in step. -/
theorem step_spaces (hspaces : a.spaces = a.openSpaces) (h : a.step e = .ok b) :
  b.spaces = b.openSpaces
  := by
  cases e with
  | start tag => exact openTag_spaces hspaces h
  | finish => exact closeTag_spaces hspaces h
  | characters cs =>
      cases h
      obtain ⟨hbefore, hafter⟩ := addCharacters_spaces a (String.ofList cs)
      rw [hbefore, hafter, hspaces]
  | comment text =>
      simp only [step, addComment] at h
      split_ifs at h
      · cases h
        exact hspaces
      · obtain ⟨hbefore, hafter⟩ := attach_spaces h
        rw [hbefore, hafter, hspaces]
  | doctypeEnd =>
      simp only [step, closeDoctype] at h
      split at h
      · cases h
        exact hspaces
      · obtain ⟨hbefore, hafter⟩ := attach_spaces h
        rw [hbefore, hafter]
        exact hspaces
  | cdataEnd =>
      simp only [step, closeSection] at h
      split at h
      · split_ifs at h
        · cases h
          exact hspaces
        · obtain ⟨hbefore, hafter⟩ := attach_spaces h
          rw [hbefore, hafter]
          exact hspaces
      · cases h
        exact hspaces
  | declaration | doctypeStart | instruction | cdataStart | plain | unresolved =>
      cases h
      exact hspaces

/-- The two stacks are in step after any events. -/
theorem run_spaces (hspaces : a.spaces = a.openSpaces) (h : a.run es = .ok b) :
  b.spaces = b.openSpaces
  := by
  induction es generalizing a with
  | nil =>
      cases h
      exact hspaces
  | cons e es ih =>
      obtain ⟨next, hnext, hrest⟩ := bind_ok h
      exact ih (step_spaces hspaces hnext) hrest

/-! ### Runs over items -/

/-- Takes a node, as the events of it do. -/
def take (a : Assembly) : Node → Except Fault Assembly
  | .text s => .ok (a.addCharacters s)
  | n => a.attach n

/-- Nodes that are taken inside an open element are its children. -/
theorem foldlM_take_inside {scope : Option String} (between : a.IsBetween scope)
    (o : OpenElement) (space : Option String) (ns : List Node) :
  ns.foldlM take (a.inside o space)
    = .ok (a.inside { o with children := ns.foldl pushNode o.children } space)
  := by
  induction ns generalizing o with
  | nil => rfl
  | cons n ns ih =>
      have htake : (a.inside o space).take n
          = .ok (a.inside { o with children := pushNode o.children n } space) := by
        cases n with
        | text s => simp [take, addCharacters, inside, between.closed, pushNode]
        | _ => rfl
      rw [List.foldlM_cons, htake]
      exact ih _

theorem IsBetween.attach {scope : Option String} (between : a.IsBetween scope) {n : Node}
    (h : a.attach n = .ok b) :
  b.IsBetween scope
  := by
  unfold Assembly.attach at h
  split at h
  · cases h
    exact ⟨between.closed, between.outside, between.scope⟩
  · obtain ⟨d, _, rfl⟩ := map_ok h
    exact ⟨between.closed, between.outside, between.scope⟩

/-- Taking a node leaves an assembly between two nodes. -/
theorem IsBetween.take {scope : Option String} (between : a.IsBetween scope) {n : Node}
    (h : a.take n = .ok b) :
  b.IsBetween scope
  := by
  cases n with
  | text s =>
      cases h
      simp only [addCharacters, between.closed]
      split
      · exact ⟨rfl, between.outside, between.scope⟩
      · exact between
  | _ => exact between.attach h

theorem IsBetween.foldlM_take {scope : Option String} (between : a.IsBetween scope)
    {ns : List Node} (h : ns.foldlM Assembly.take a = .ok b) :
  b.IsBetween scope
  := by
  induction ns generalizing a with
  | nil =>
      cases h
      exact between
  | cons n ns ih =>
      rw [List.foldlM_cons] at h
      obtain ⟨next, hnext, hrest⟩ := bind_ok h
      exact ih (between.take hnext) hrest

/-- A tag opens its element in the namespace that is declared nearest. -/
theorem step_tag {around : List Tag} (between : a.IsBetween (spaceInside around)) {tag : Tag}
    (named : tag.name.raw ≠ "") :
  a.step (.start tag)
    = .ok (a.inside
        ⟨⟨tag.name.raw, spaceInside (tag :: around), named, none⟩, tag.ownAttributes, []⟩
        (spaceInside (tag :: around)))
  := by
  simp only [step, openTag, between.scope, attributesOf_given, QName.of?, dif_pos named]
  rfl

end Assembly

mutual

/-- The events of an item take its nodes. -/
theorem Item.run_events {a : Assembly} {around : List Tag}
    (between : a.IsBetween (spaceInside around)) (i : Item) :
  a.run i.events = (i.nodes around).foldlM Assembly.take a
  := by
  match i with
  | .element tag named inner =>
      rw [events, nodes, Assembly.run, Assembly.step_tag between named]
      simp only [bind, Except.bind]
      rw [Assembly.run_append, Item.run_eventsList (between.inside _ _) inner,
        Assembly.foldlM_take_inside between, Assembly.foldl_pushNode]
      rfl
  | .characters cs => rfl
  | .cdata pieces =>
      rw [events, nodes, Surroundings.run_section between]
      split_ifs
      · rfl
      · exact (bind_pure _).symm
  | .comment text whole =>
      rw [events, nodes, Assembly.run, Assembly.step, Assembly.addComment, between.outside]
      rfl

/-- The events of several items take their nodes. -/
theorem Item.run_eventsList {a : Assembly} {around : List Tag}
    (between : a.IsBetween (spaceInside around)) (items : List Item) :
  a.run (Item.eventsList items) = (Item.nodesList around items).foldlM Assembly.take a
  := by
  match items with
  | [] => rfl
  | i :: is =>
      rw [Item.eventsList, Item.nodesList, Assembly.run_append, List.foldlM_append,
        Item.run_events between i]
      cases hfirst : (i.nodes around).foldlM Assembly.take a with
      | error f => rfl
      | ok b => exact Item.run_eventsList (between.foldlM_take hfirst) is

end

/-! ### The top level -/

/-- Nodes are taken at the top level just if they stand in order there, texts left out. -/
theorem Assembly.foldlM_take_atTop {declaration : Option Declaration} {before : List Node}
    (hbefore : Document.IsOrdered ⟨declaration, before⟩) (ns : List Node) (b : Assembly) :
  ns.foldlM take (atTop declaration before) = .ok b
    ↔ Document.IsOrdered ⟨declaration, before ++ ns.filter fun n => !n.isText⟩
      ∧ b = atTop declaration (before ++ ns.filter fun n => !n.isText)
  := by
  induction ns generalizing before with
  | nil =>
      rw [List.filter_nil, List.append_nil]
      exact ⟨fun h => by cases h; exact ⟨hbefore, rfl⟩, fun h => h.2 ▸ rfl⟩
  | cons n ns ih =>
      rw [List.foldlM_cons]
      by_cases htext : n.isText
      · have htake : (atTop declaration before).take n = .ok (atTop declaration before) := by
          cases n with
          | text s => rfl
          | _ => cases htext
        rw [htake, List.filter_cons_of_neg (by simpa using htext)]
        exact ih hbefore
      · have htake : (atTop declaration before).take n = (atTop declaration before).attach n := by
          cases n with
          | text s => exact absurd rfl htext
          | _ => rfl
        rw [htake, List.filter_cons_of_pos (by simpa using htext)]
        cases hn : Document.misplacement? ⟨declaration, before⟩ n with
        | none =>
            have hattach : (atTop declaration before).attach n
                = .ok (atTop declaration (before ++ [n])) := by
              simp only [attach, atTop, Document.append, hn]
              rfl
            have hordered : Document.IsOrdered ⟨declaration, before ++ [n]⟩ := hbefore.append hn
            have hothers := ih hordered
            rw [List.append_assoc, List.singleton_append] at hothers
            rw [hattach]
            exact hothers
        | some m =>
            have hattach : (atTop declaration before).attach n = .error (.misplaced m) := by
              simp only [attach, atTop, Document.append, hn]
              rfl
            rw [hattach]
            constructor
            · intro h
              cases h
            · rintro ⟨hordered, _⟩
              cases hn.symm.trans hordered.misplacement?_eq_none

/-- After any part of well-nested events the namespaces in scope are those of the open elements, and
none for the document.  All the events are taken just if the nodes of their items can stand at the
top level, and give these nodes, in which every element has the namespace that is declared nearest,
and nothing is open any more.  The attributes of an element are no declarations of a default
namespace, and where no name is given twice they are all the other ones in their order. -/
theorem default_spaces_scoped (items : List Item) :
  (∀ es a, es <+: Item.eventsList items → ({} : Assembly).run es = .ok a →
      a.spaces = a.openSpaces)
    ∧ (∀ a, ({} : Assembly).run (Item.eventsList items) = .ok a
      ↔ (Item.document items).IsOrdered ∧ a = { document := Item.document items })
    ∧ ∀ tag : Tag, "xmlns" ∉ tag.ownAttributes.map Prod.fst
      ∧ ((tag.plainAttributes.map Prod.fst).Nodup → tag.ownAttributes = tag.plainAttributes)
  := by
  refine ⟨fun es a _ h => Assembly.run_spaces rfl h, fun a => ?_,
    fun tag => ⟨tag.xmlns_notMem_ownAttributes, Tag.ownAttributes_eq⟩⟩
  have between : ({} : Assembly).IsBetween (spaceInside []) := ⟨rfl, rfl, rfl⟩
  rw [Item.run_eventsList between]
  exact Assembly.foldlM_take_atTop (Document.isOrdered_nil none) _ a

/-- A namespace that is declared, left and declared again, among attributes and texts: the element
inside the one that leaves it is in its own namespace, and the one beside it in the first. -/
theorem default_spaces_scoped_of_redeclared :
  let tag (name : String) (given : List (String × String)) : Tag :=
    ⟨⟨name, none, name⟩, given.map fun p => (⟨p.1, none, p.1⟩, p.2), [], []⟩
  let inner := Item.element (tag "c" [("xmlns", "v")]) (by decide) [.cdata [], .cdata [['x']]]
  let left := Item.element (tag "b" [("i", "1"), ("xmlns", ""), ("j", "2")]) (by decide) [inner]
  let root := Item.element (tag "a" [("xmlns", "u")]) (by decide)
    [.characters ['x'], .cdata [], .characters ['y'], left, .element (tag "d" []) (by decide) []]
  let items : List Item := [.characters ['\n'], root]
  ({} : Assembly).run (Item.eventsList items) = .ok { document := Item.document items }
    ∧ (Item.document items).children
      = [.element ⟨"a", some "u", by decide, none⟩ []
          [.text "xy",
            .element ⟨"b", none, by decide, none⟩ [("i", "1"), ("j", "2")]
              [.element ⟨"c", some "v", by decide, none⟩ [] [.cdata "x"]],
            .element ⟨"d", some "u", by decide, none⟩ [] []]]
    ∧ ∀ es a, es <+: Item.eventsList items → ({} : Assembly).run es = .ok a →
      a.spaces = a.openSpaces
  := by
  intro tag inner left root items
  obtain ⟨hspaces, hrun, -⟩ := default_spaces_scoped items
  have hordered : (Item.document items).IsOrdered := (Document.isOrdered_nil none).append rfl
  exact ⟨(hrun _).mpr ⟨hordered, rfl⟩, by with_unfolding_all rfl, hspaces⟩

end Reading

end XmlDraft
