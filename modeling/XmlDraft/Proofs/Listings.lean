import XmlDraft.Export.ObjectModel
import XmlDraft.Proofs.ScopedElements

/-!
# What trees list

A tree lists its elements in document order, each with its name and its attributes; declarations of
namespaces, which the object model keeps among the attributes, do not count.  Trees that are built
from the events of items list the tags of the items, whatever stands between the tags.  Main
statements: so it is for element trees and for the object model, and what the normal form of a node
lists is what the node lists with the namespaces in scope.
-/

namespace XmlDraft

open Reading (Event Item Tag)

/-- What is listed of an element: its name, if it is one, and its attributes. -/
abbrev Listed := Option QName × Attributes

/-! ### Nodes -/

namespace Node

/-- What is listed of a node by itself: an element with its own name. -/
def listed? : Node → Option Listed
  | .element name attributes _ => some (some name, attributes)
  | _ => none

mutual

/-- The elements of a node in document order, each in its own namespace or, if it has none, in that
of the nearest element around it that has one, given that of the nodes around. -/
def listedIn (scope : Option String) : Node → List Listed
  | .element name attributes children =>
    (some { name with space := Writing.innerScope scope name }, attributes)
      :: listedListIn (Writing.innerScope scope name) children
  | _ => []

/-- The elements of several nodes in document order. -/
def listedListIn (scope : Option String) : List Node → List Listed
  | [] => []
  | n :: ns => listedIn scope n ++ listedListIn scope ns

end

/-- Texts list nothing, whether they are joined or not. -/
theorem listed_joinTexts (ns : List Node) :
  (nodesList (joinTexts ns)).filterMap listed? = (nodesList ns).filterMap listed?
  := by
  induction ns using joinTexts.induct with
  | case1 s t ns ih =>
      rw [joinTexts, ih]
      simp only [nodesList, nodes, List.cons_append, List.nil_append, List.filterMap_cons, listed?]
  | case2 n ns hjoin ih =>
      rw [joinTexts, nodesList, nodesList, List.filterMap_append, List.filterMap_append, ih]
      exact hjoin
  | case3 => rw [joinTexts]

/-- Sections list nothing. -/
theorem listed_sections (ps : List (List Char)) :
  (nodesList (ps.map fun cs => .cdata (String.ofList cs))).filterMap listed? = []
  := by
  induction ps with
  | nil => rfl
  | cons p ps ih =>
      rw [List.map_cons, nodesList, List.filterMap_append, ih]
      rfl

mutual

/-- The normal form of a node lists by itself what the node lists with the namespaces in scope. -/
theorem listed_normal (scope : Option String) (n : Node) :
  (nodesList (normal scope (unified n))).filterMap listed? = n.listedIn scope
  := by
  cases n with
  | element name attributes children =>
      rw [unified, normal, nodesList, nodesList, nodes, List.append_nil, List.filterMap_cons,
        listed_joinTexts, listed_normalList]
      rfl
  | cdata value => exact listed_sections _
  | _ => rfl

/-- The normal forms of several nodes list by themselves what the nodes list with the namespaces in
scope. -/
theorem listed_normalList (scope : Option String) (ns : List Node) :
  (nodesList (normalList scope (unifiedList ns))).filterMap listed? = listedListIn scope ns
  := by
  cases ns with
  | nil => rfl
  | cons n ns =>
      rw [unifiedList, normalList, nodesList_append, List.filterMap_append, listed_normal scope n,
        listed_normalList scope ns, listedListIn]

end

end Node

/-! ### Element trees -/

namespace ElementTree

mutual

/-- The elements of an element tree in document order, with the names that their Clark notation
stands for. -/
def listed : ElementTree → List Listed
  | .node (.element clark) attributes _ _ children =>
    (QName.ofClark? clark, attributes) :: listedList children
  | .node _ _ _ _ children => listedList children

/-- The elements of several element trees in document order. -/
def listedList : List ElementTree → List Listed
  | [] => []
  | t :: ts => listed t ++ listedList ts

end

theorem listedList_append (before after : List ElementTree) :
  listedList (before ++ after) = listedList before ++ listedList after
  := by
  induction before with
  | nil => rfl
  | cons t ts ih => simp [listedList, ih]

theorem listedList_reverse_cons (t : ElementTree) (ts : List ElementTree) :
  listedList (t :: ts).reverse = listedList ts.reverse ++ listed t
  := by
  rw [List.reverse_cons, listedList_append, listedList, listedList, List.append_nil]

@[simp] theorem listed_addTail (s : String) (t : ElementTree) :
  (t.addTail s).listed = t.listed
  := by
  obtain ⟨label, attributes, text, tail, children⟩ := t
  cases label <;> rfl

/-- An open element that has gone on from another state of it and lists more elements. -/
structure Open.GoesOn (o : Open) (entries : List Listed) (o' : Open) : Prop where
  clark : o'.clark = o.clark
  attributes : o'.attributes = o.attributes
  listed : listedList o'.children.reverse = listedList o.children.reverse ++ entries

theorem Open.GoesOn.trans {o o' o'' : Open} {es es' : List Listed} (h : o.GoesOn es o')
    (h' : o'.GoesOn es' o'') :
  o.GoesOn (es ++ es') o''
  := ⟨h'.clark.trans h.clark, h'.attributes.trans h.attributes,
    by rw [h'.listed, h.listed, List.append_assoc]⟩

/-- A node inside an open element is listed there. -/
theorem Open.goesOn_child (o : Open) (t : ElementTree) :
  o.GoesOn t.listed { o with children := t :: o.children }
  := ⟨rfl, rfl, listedList_reverse_cons t o.children⟩

/-- Character data inside an open element lists nothing. -/
theorem Growth.addText_open (o : Open) (others : List Open) (top : List ElementTree) (s : String) :
  ∃ o', (⟨o :: others, top⟩ : Growth).addText s = ⟨o' :: others, top⟩ ∧ o.GoesOn [] o'
  := by
  obtain ⟨clark, attributes, text, children⟩ := o
  cases children with
  | nil => exact ⟨_, rfl, rfl, rfl, rfl⟩
  | cons t ts =>
      refine ⟨_, rfl, rfl, rfl, ?_⟩
      rw [listedList_reverse_cons, listedList_reverse_cons, listed_addTail, List.append_nil]

end ElementTree

/-! ### The object model -/

namespace ModelAttribute

/-- The ordinary attributes among others, which are in the namespace of declarations. -/
def ordinary (attributes : List ModelAttribute) : Attributes :=
  (attributes.filter fun a => a.space ≠ some "http://www.w3.org/2000/xmlns/").filterMap fun a =>
    a.value.map fun v => (a.name, v)

theorem ordinary_append (before after : List ModelAttribute) :
  ordinary (before ++ after) = ordinary before ++ ordinary after
  := by
  simp [ordinary]

/-- Declarations of namespaces are no ordinary attributes. -/
theorem ordinary_declarations (ds : List (Option String × Option String)) :
  ordinary (ds.map Export.ModelGrowth.declaration) = []
  := by
  rw [ordinary, List.filterMap_eq_nil_iff]
  intro a ha
  obtain ⟨hmem, hspace⟩ := List.mem_filter.mp ha
  obtain ⟨d, _, rfl⟩ := List.mem_map.mp hmem
  exact absurd rfl (of_decide_eq_true hspace)

end ModelAttribute

namespace ModelNode

/-- The local part of a name as written: what stands behind its first colon, if there is one. -/
def localPart (name : String) : String :=
  ((Reading.splitName? name.toList).map fun p => String.ofList p.2).getD name

mutual

/-- The elements of a node of the object model in document order, with their ordinary attributes. -/
def listed : ModelNode → List Listed
  | .element name space attributes children =>
    (QName.of? (localPart name) space, ModelAttribute.ordinary attributes) :: listedList children
  | _ => []

/-- The elements of several nodes of the object model in document order. -/
def listedList : List ModelNode → List Listed
  | [] => []
  | n :: ns => listed n ++ listedList ns

end

theorem listedList_append (before after : List ModelNode) :
  listedList (before ++ after) = listedList before ++ listedList after
  := by
  induction before with
  | nil => rfl
  | cons n ns ih => simp [listedList, ih]

theorem listedList_reverse_cons (n : ModelNode) (ns : List ModelNode) :
  listedList (n :: ns).reverse = listedList ns.reverse ++ listed n
  := by
  rw [List.reverse_cons, listedList_append, listedList, listedList, List.append_nil]

end ModelNode

namespace Export

/-- An open element of the object model that has gone on from another state of it and lists more
elements. -/
structure OpenModel.GoesOn (o : OpenModel) (entries : List Listed) (o' : OpenModel) : Prop where
  name : o'.name = o.name
  space : o'.space = o.space
  attributes : o'.attributes = o.attributes
  listed : ModelNode.listedList o'.children.reverse
    = ModelNode.listedList o.children.reverse ++ entries

theorem OpenModel.GoesOn.trans {o o' o'' : OpenModel} {es es' : List Listed} (h : o.GoesOn es o')
    (h' : o'.GoesOn es' o'') :
  o.GoesOn (es ++ es') o''
  := ⟨h'.name.trans h.name, h'.space.trans h.space, h'.attributes.trans h.attributes,
    by rw [h'.listed, h.listed, List.append_assoc]⟩

/-- A node inside an open element is listed there. -/
theorem OpenModel.goesOn_child (o : OpenModel) (n : ModelNode) :
  o.GoesOn n.listed { o with children := n :: o.children }
  := ⟨rfl, rfl, rfl, ModelNode.listedList_reverse_cons n o.children⟩

/-- Joined character data lists nothing. -/
theorem ModelGrowth.listedList_joinText (children : List ModelNode) (s : String) :
  ModelNode.listedList (joinText children s).reverse = ModelNode.listedList children.reverse
  := by
  have htext (t : String) (ns : List ModelNode) :
      ModelNode.listedList (.text t :: ns).reverse = ModelNode.listedList ns.reverse := by
    rw [ModelNode.listedList_reverse_cons]
    exact List.append_nil _
  unfold joinText
  split
  · rw [htext, htext]
  · rw [htext]

/-! ### Items in an element tree -/

/-- What an element tree lists of a tag. -/
def plainEntry (tag : Tag) : Listed :=
  (QName.ofClark? (clark tag.name), (tag.given ++ tag.defaulted).map fun a => (clark a.1, a.2))

open ElementTree (Growth Open)

/-- Pieces of character data inside an open element list nothing. -/
theorem plain_pieces (pieces : List (List Char)) (o : Open) (others : List Open)
    (top : List ElementTree) :
  ∃ o', (pieces.map Event.characters).foldl plainStep ⟨o :: others, top⟩ = ⟨o' :: others, top⟩
    ∧ o.GoesOn [] o'
  := by
  induction pieces generalizing o with
  | nil => exact ⟨o, rfl, rfl, rfl, by simp⟩
  | cons p ps ih =>
      obtain ⟨o', hstep, hfirst⟩ := Growth.addText_open o others top (String.ofList p)
      obtain ⟨o'', hrest, hlast⟩ := ih o'
      refine ⟨o'', ?_, hfirst.trans hlast⟩
      have hfirst' : plainStep ⟨o :: others, top⟩ (.characters p) = ⟨o' :: others, top⟩ := hstep
      rw [List.map_cons, List.foldl_cons, hfirst', hrest]

/-- An element becomes a node where it stands, if what is inside it goes on with the element. -/
theorem plain_element (tag : Tag) (named : tag.name.raw ≠ "") (inner : List Item)
    (opened : List Open) (top : List ElementTree)
    (hinner : ∃ p, (Item.eventsList inner).foldl plainStep
        ⟨⟨clark tag.name, (plainEntry tag).2, none, []⟩ :: opened, top⟩ = ⟨p :: opened, top⟩
      ∧ Open.GoesOn ⟨clark tag.name, (plainEntry tag).2, none, []⟩
          ((Item.tagsList inner).map plainEntry) p) :
  ∃ t, (Item.element tag named inner).events.foldl plainStep ⟨opened, top⟩
      = (⟨opened, top⟩ : Growth).add t
    ∧ isElement t ∧ t.listed = (Item.element tag named inner).tags.map plainEntry
  := by
  obtain ⟨p, hinner, hgoes⟩ := hinner
  refine ⟨.node (.element p.clark) p.attributes p.text none p.children.reverse, ?_, rfl, ?_⟩
  · have hstart : plainStep ⟨opened, top⟩ (.start tag)
        = ⟨⟨clark tag.name, (plainEntry tag).2, none, []⟩ :: opened, top⟩ := rfl
    rw [Item.events, List.foldl_cons, List.foldl_append, hstart, hinner]
    rfl
  · rw [ElementTree.listed, hgoes.listed, hgoes.clark, hgoes.attributes, Item.tags]
    rfl

mutual

/-- An item inside an open element is listed there by its tags. -/
theorem plain_item (i : Item) (o : Open) (others : List Open) (top : List ElementTree) :
  ∃ o', i.events.foldl plainStep ⟨o :: others, top⟩ = ⟨o' :: others, top⟩
    ∧ o.GoesOn (i.tags.map plainEntry) o'
  := by
  match i with
  | .element tag named inner =>
      obtain ⟨t, hevents, _, hlisted⟩ :=
        plain_element tag named inner (o :: others) top (plain_items inner _ (o :: others) top)
      exact ⟨{ o with children := t :: o.children }, hevents, hlisted ▸ o.goesOn_child t⟩
  | .characters cs => exact plain_pieces [cs] o others top
  | .cdata pieces =>
      obtain ⟨o', hpieces, hgoes⟩ := plain_pieces pieces o others top
      refine ⟨o', ?_, hgoes⟩
      rw [Item.events, List.foldl_cons, List.foldl_append]
      exact congrArg (plainStep · Event.cdataEnd) hpieces
  | .comment text whole =>
      exact ⟨_, rfl, o.goesOn_child (.leaf .comment (some text))⟩

/-- Items inside an open element are listed there by their tags. -/
theorem plain_items (items : List Item) (o : Open) (others : List Open)
    (top : List ElementTree) :
  ∃ o', (Item.eventsList items).foldl plainStep ⟨o :: others, top⟩ = ⟨o' :: others, top⟩
    ∧ o.GoesOn ((Item.tagsList items).map plainEntry) o'
  := by
  match items with
  | [] => exact ⟨o, rfl, rfl, rfl, by simp [Item.tagsList]⟩
  | i :: is =>
      obtain ⟨o', hfirst, hgoes⟩ := plain_item i o others top
      obtain ⟨o'', hrest, hgoes'⟩ := plain_items is o' others top
      refine ⟨o'', ?_, ?_⟩
      · rw [Item.eventsList, List.foldl_append, hfirst, hrest]
      · rw [Item.tagsList, List.map_append]
        exact hgoes.trans hgoes'

end

/-! ### Items in the object model -/

/-- What the object model lists of a tag. -/
def modelEntry (tag : Tag) : Listed :=
  (QName.of? (ModelNode.localPart tag.name.raw) tag.name.space,
    ModelAttribute.ordinary (tag.given.map fun a => ⟨a.1.raw, a.1.space, some a.2⟩))

/-- The object model inside an open element, with neither a section nor a subset open. -/
structure ModelGrowth.IsInside (g : ModelGrowth) (o : OpenModel) (others : List OpenModel) :
    Prop where
  opened : g.opened = o :: others
  unsectioned : g.openSection = none
  subset : g.subset = none

/-- The object model with another state of the innermost open element. -/
def ModelGrowth.within (g : ModelGrowth) (o : OpenModel) (others : List OpenModel) : ModelGrowth :=
  { g with opened := o :: others }

theorem ModelGrowth.IsInside.within {g : ModelGrowth} {o : OpenModel} {others : List OpenModel}
    (h : g.IsInside o others) (o' : OpenModel) (others' : List OpenModel) :
  (g.within o' others').IsInside o' others'
  := ⟨rfl, h.unsectioned, h.subset⟩

theorem ModelGrowth.IsInside.eq {g : ModelGrowth} {o : OpenModel} {others : List OpenModel}
    (h : g.IsInside o others) :
  g = ⟨o :: others, g.top, g.doctype, none, none⟩
  := by
  obtain ⟨opened, top, doctype, subset, openSection⟩ := g
  obtain ⟨rfl, rfl, rfl⟩ := h
  rfl

theorem ModelGrowth.IsInside.within_self {g : ModelGrowth} {o : OpenModel}
    {others : List OpenModel} (h : g.IsInside o others) :
  g.within o others = g
  := by
  rw [ModelGrowth.within, ← h.opened]

/-- The pieces of a section are its text. -/
theorem model_pieces (pieces : List (List Char)) (g : ModelGrowth) (s : String) :
  ∃ t, (pieces.map Event.characters).foldl modelStep { g with openSection := some s }
    = { g with openSection := some t }
  := by
  induction pieces generalizing s with
  | nil => exact ⟨s, rfl⟩
  | cons p ps ih =>
      obtain ⟨t, ht⟩ := ih (s ++ String.ofList p)
      exact ⟨t, ht⟩

/-- The open element of a tag in the object model. -/
def openModel (tag : Tag) : OpenModel :=
  ⟨tag.name.raw, tag.name.space, tag.declared.map ModelGrowth.declaration
    ++ tag.given.map fun a => ⟨a.1.raw, a.1.space, some a.2⟩, []⟩

/-- An element becomes a node where it stands, if what is inside it goes on with the element. -/
theorem model_element (tag : Tag) (named : tag.name.raw ≠ "") (inner : List Item) (g : ModelGrowth)
    (hinner : ∃ p, (Item.eventsList inner).foldl modelStep (g.within (openModel tag) g.opened)
        = g.within p g.opened
      ∧ (openModel tag).GoesOn ((Item.tagsList inner).map modelEntry) p) :
  ∃ n, (Item.element tag named inner).events.foldl modelStep g = g.add n
    ∧ n.isElement ∧ n.listed = (Item.element tag named inner).tags.map modelEntry
  := by
  obtain ⟨p, hinner, hgoes⟩ := hinner
  refine ⟨.element p.name p.space p.attributes p.children.reverse, ?_, rfl, ?_⟩
  · have hstart : modelStep g (.start tag) = g.within (openModel tag) g.opened := rfl
    rw [Item.events, List.foldl_cons, List.foldl_append, hstart, hinner]
    rfl
  · rw [ModelNode.listed, hgoes.listed, hgoes.name, hgoes.space, hgoes.attributes, openModel,
      Item.tags, ModelAttribute.ordinary_append, ModelAttribute.ordinary_declarations]
    rfl

mutual

/-- An item inside an open element is listed there by its tags. -/
theorem model_item (i : Item) {g : ModelGrowth} {o : OpenModel} {others : List OpenModel}
    (h : g.IsInside o others) :
  ∃ o', i.events.foldl modelStep g = g.within o' others ∧ o.GoesOn (i.tags.map modelEntry) o'
  := by
  match i with
  | .element tag named inner =>
      obtain ⟨n, hevents, _, hlisted⟩ :=
        model_element tag named inner g (model_items inner (h.within (openModel tag) g.opened))
      refine ⟨{ o with children := n :: o.children }, ?_, hlisted ▸ o.goesOn_child n⟩
      rw [hevents, h.eq]
      rfl
  | .characters cs =>
      refine ⟨{ o with children := ModelGrowth.joinText o.children (String.ofList cs) }, ?_,
        rfl, rfl, rfl, ?_⟩
      · rw [h.eq]
        rfl
      · rw [ModelGrowth.listedList_joinText]
        exact (List.append_nil _).symm
  | .cdata pieces =>
      obtain ⟨t, hpieces⟩ := model_pieces pieces g ""
      have hsame : ({ g with openSection := none } : ModelGrowth) = g := by rw [← h.unsectioned]
      have hevents : (Item.cdata pieces).events.foldl modelStep g
          = (if t = "" then g else g.add (.cdata t)) := by
        rw [Item.events, List.foldl_cons, List.foldl_append, modelStep, hpieces, List.foldl_cons,
          List.foldl_nil, modelStep, ModelGrowth.closeSection]
        simp only [hsame]
      rw [hevents]
      split_ifs
      · exact ⟨o, h.within_self.symm, rfl, rfl, rfl, (List.append_nil _).symm⟩
      · refine ⟨{ o with children := .cdata t :: o.children }, ?_, o.goesOn_child (.cdata t)⟩
        rw [h.eq]
        rfl
  | .comment text whole =>
      refine ⟨{ o with children := .comment text :: o.children }, ?_,
        o.goesOn_child (.comment text)⟩
      rw [h.eq]
      rfl

/-- Items inside an open element are listed there by their tags. -/
theorem model_items (items : List Item) {g : ModelGrowth} {o : OpenModel}
    {others : List OpenModel} (h : g.IsInside o others) :
  ∃ o', (Item.eventsList items).foldl modelStep g = g.within o' others
    ∧ o.GoesOn ((Item.tagsList items).map modelEntry) o'
  := by
  match items with
  | [] => exact ⟨o, h.within_self.symm, rfl, rfl, rfl, by simp [Item.tagsList]⟩
  | i :: is =>
      obtain ⟨o', hfirst, hgoes⟩ := model_item i h
      obtain ⟨o'', hrest, hgoes'⟩ := model_items is (h.within o' others)
      refine ⟨o'', ?_, ?_⟩
      · rw [Item.eventsList, List.foldl_append, hfirst, hrest]
        rfl
      · rw [Item.tagsList, List.map_append]
        exact hgoes.trans hgoes'

end

end Export

end XmlDraft
