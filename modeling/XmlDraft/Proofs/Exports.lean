import XmlDraft.Building.View
import XmlDraft.Proofs.Listings
import XmlDraft.Proofs.RoundTrip

/-!
# What exports of sessions list

The element tree and the object model of a session are read from its markup, each in a manner of its
own, and a reader without namespaces of its own puts together a document from the same markup.  Main
statement: whatever namespaces are nested in each other, all three list the elements of the root of
a session without members of enumerations as names in document order, each in its own namespace or
in that of the nearest element around it that has one, with its attributes.
-/

namespace XmlDraft

open Reading (AreComments AreHeading Event IsDeclarable Item Manner Medium Surroundings Tag noteEvents
  plainLabels scopedTag)

/-- A namespace that exporters can tell from names: it holds neither of the characters that stand
between a namespace and a local part, and it is none of those that have a prefix of their own. -/
def isExportable (uri : String) : Bool :=
  ' ' ∉ uri.toList && '\x7d' ∉ uri.toList && uri.toList ≠ Reading.xmlSpace
    && uri.toList ≠ Reading.xmlnsSpace

theorem isDeclarable_of_isExportable {uri : String} (h : isExportable uri) :
  IsDeclarable ' ' uri ∧ IsDeclarable '\x7d' uri
  := by
  simp only [isExportable, Bool.and_eq_true, decide_eq_true_eq] at h
  exact ⟨⟨h.1.1.1, h.1.2, h.2⟩, ⟨h.1.1.2, h.1.2, h.2⟩⟩

/-- A node that exporters take as it is: no name in its tags holds a colon, and its namespace, if it
has one, can be told from names. -/
def Node.isExportable (n : Node) : Bool :=
  n.isUnprefixed && (n.name?.bind QName.space).all XmlDraft.isExportable

/-- A document of nodes that exporters take as they are. -/
def Document.isExportable (d : Document) : Bool :=
  d.nodes.all Node.isExportable

theorem Node.isScopable_of_isExportable {n : Node} (h : n.isExportable) :
  n.IsScopable ' ' ∧ n.IsScopable '\x7d'
  := by
  rw [isExportable, Bool.and_eq_true, Option.all_eq_true] at h
  exact ⟨fun uri huri => (isDeclarable_of_isExportable (h.2 uri huri)).1,
    fun uri huri => (isDeclarable_of_isExportable (h.2 uri huri)).2⟩

namespace Export

/-! ### Tags that were written -/

/-- A namespace that Clark notation keeps apart from the local part, or none. -/
def IsBraced (space : Option String) : Prop :=
  ∀ uri ∈ space, uri ≠ "" ∧ '\x7d' ∉ uri.toList

theorem isBraced_none :
  IsBraced none
  := nofun

/-- Clark notation stands for the name that it was made of. -/
theorem ofClark?_clarkOf {space : Option String} (hspace : IsBraced space) {name : QName}
    (hown : name.member = none) (hname : name.localPart.toList.head? ≠ some '\x7b') :
  QName.ofClark? (clarkOf space name.localPart) = some { name with space := space }
  := by
  cases space with
  | none =>
      unfold QName.ofClark? clarkOf
      split
      · rename_i heq
        exact absurd (by rw [heq]; rfl) hname
      · exact QName.of?_localPart hown none
  | some uri =>
      obtain ⟨hne, hbrace⟩ := hspace uri rfl
      have hkept : ∀ c ∈ uri.toList, decide (c ≠ '\x7d') = true :=
        fun c hc => decide_eq_true fun heq => hbrace (heq ▸ hc)
      have htext : (clarkOf (some uri) name.localPart).toList
          = '\x7b' :: (uri.toList ++ '\x7d' :: name.localPart.toList) := by
        simp [clarkOf]
      have hstop : decide ('\x7d' ≠ '\x7d') = false := by decide
      simp only [QName.ofClark?, htext, List.takeWhile_append_of_pos hkept,
        List.dropWhile_append_of_pos hkept, List.takeWhile_cons, List.dropWhile_cons, hstop,
        Bool.false_eq_true, if_false, List.append_nil, List.drop_one, List.tail_cons,
        String.ofList_toList]
      rw [nonempty?, Option.filter_some, if_pos (by simpa using hne)]
      exact QName.of?_localPart hown (some uri)

/-- No local part of a name begins with a brace. -/
theorem head?_ne_brace {s : String} (h : isAsciiName s) :
  s.toList.head? ≠ some '\x7b'
  := by
  intro hhead
  rw [isAsciiName, Bool.and_eq_true, Name.isName] at h
  obtain ⟨hname, -⟩ := h
  split at hname
  · cases hname
  · rename_i c cs heq
    rw [heq, List.head?_cons, Option.some_inj] at hhead
    have hbrace : Name.isStart '\x7b' = false := by decide
    rw [hhead, hbrace, Bool.false_and] at hname
    cases hname

theorem localPart_of_notMem {s : String} (h : ':' ∉ s.toList) :
  ModelNode.localPart s = s
  := by
  rw [ModelNode.localPart, Reading.splitName?_eq_none h]
  rfl

/-- Attributes in no namespace are ordinary ones. -/
theorem ordinary_plainLabels (attributes : Attributes) :
  ModelAttribute.ordinary ((plainLabels attributes).map fun a => ⟨a.1.raw, a.1.space, some a.2⟩)
    = attributes
  := by
  induction attributes with
  | nil => rfl
  | cons a others ih =>
      rw [plainLabels, List.map_cons, List.map_cons, ← List.singleton_append,
        ModelAttribute.ordinary_append, ← plainLabels, ih]
      rfl

/-- A tag that was written is listed as the element is, in the element tree and in the object
model. -/
theorem entries_scopedTag {scope : Option String} {name : QName} (hown : name.member = none)
    (attributes : Attributes) (hscope : IsBraced (Writing.innerScope scope name))
    (hname : isAsciiName name.localPart)
    (hcolon : ':' ∉ name.localPart.toList) :
  plainEntry (scopedTag scope name attributes)
      = (some { name with space := Writing.innerScope scope name }, attributes)
    ∧ modelEntry (scopedTag scope name attributes)
      = (some { name with space := Writing.innerScope scope name }, attributes)
  := by
  constructor
  · have hclark := ofClark?_clarkOf hscope hown (head?_ne_brace hname)
    have hattributes : (plainLabels attributes).map (fun a => (clark a.1, a.2)) = attributes := by
      simp [plainLabels, clark, clarkOf, Function.comp_def]
    simp only [plainEntry, scopedTag, List.append_nil, hattributes]
    exact congrArg (·, attributes) hclark
  · simp only [modelEntry, scopedTag, ordinary_plainLabels, localPart_of_notMem hcolon]
    exact congrArg (·, attributes) (QName.of?_localPart hown _)

/-- The namespace in scope inside an element that can be exported is none that Clark notation
confuses with the local part. -/
theorem isBraced_innerScope {scope : Option String} (hscope : IsBraced scope) (name : QName)
    (hname : name.space.all isExportable) :
  IsBraced (Writing.innerScope scope name)
  := by
  intro uri huri
  rw [Writing.innerScope] at huri
  rcases Option.or_eq_some_iff.mp huri with hown | ⟨-, houter⟩
  · obtain ⟨hspace, hne⟩ := Option.filter_eq_some_iff.mp hown
    rw [hspace, Option.all_some] at hname
    exact ⟨of_decide_eq_true hne, (isDeclarable_of_isExportable hname).2.separator⟩
  · exact hscope uri houter

mutual

/-- The tags of a node list what the node lists with the namespaces in scope. -/
theorem entries_tags {scope : Option String} (hscope : IsBraced scope) (n : Node)
    (h : ∀ m ∈ n.nodes, (m.isLegible ∧ m.isPlain) ∧ m.isExportable) :
  (n.tags scope).map plainEntry = n.listedIn scope
    ∧ (n.tags scope).map modelEntry = n.listedIn scope
  := by
  cases n with
  | element name attributes children =>
      rw [Node.forall_nodes_element] at h
      obtain ⟨⟨⟨hlegible, hplain⟩, hexportable⟩, hchildren⟩ := h
      simp only [Node.isLegible, Bool.and_eq_true] at hlegible
      rw [Node.isExportable, Bool.and_eq_true] at hexportable
      have hcolon : ':' ∉ name.localPart.toList := by
        simpa using List.all_eq_true.mp hexportable.1 name.localPart List.mem_cons_self
      have hinner := isBraced_innerScope hscope name hexportable.2
      obtain ⟨hfirst, hfirst'⟩ := entries_scopedTag (Option.isNone_iff_eq_none.mp hplain) attributes
        hinner hlegible.1.1 hcolon
      obtain ⟨hothers, hothers'⟩ := entries_tagsList hinner children hchildren
      simp only [Node.tags, Node.listedIn, List.map_cons, hfirst, hfirst', hothers, hothers',
        and_self]
  | _ => exact ⟨rfl, rfl⟩

/-- The tags of several nodes list what the nodes list with the namespaces in scope. -/
theorem entries_tagsList {scope : Option String} (hscope : IsBraced scope) (ns : List Node)
    (h : ∀ m ∈ Node.nodesList ns, (m.isLegible ∧ m.isPlain) ∧ m.isExportable) :
  (Node.tagsList scope ns).map plainEntry = Node.listedListIn scope ns
    ∧ (Node.tagsList scope ns).map modelEntry = Node.listedListIn scope ns
  := by
  cases ns with
  | nil => exact ⟨rfl, rfl⟩
  | cons n ns =>
      rw [Node.forall_nodesList_cons] at h
      obtain ⟨hfirst, hfirst'⟩ := entries_tags hscope n h.1
      obtain ⟨hothers, hothers'⟩ := entries_tagsList hscope ns h.2
      simp only [Node.tagsList, Node.listedListIn, List.map_append, hfirst, hfirst', hothers,
        hothers', and_self]

end

/-! ### The top level -/

/-- The events of a document that no element is part of: a declaration and comments. -/
def IsAside : Event → Prop
  | .declaration .. => True
  | .comment _ => True
  | _ => False

theorem isAside_heading {es : List Event} (h : AreHeading es) :
  ∀ e ∈ es, IsAside e
  := by
  rcases h with rfl | ⟨version, encoding, standalone, rfl⟩
  · simp
  · exact List.forall_mem_singleton.mpr trivial

theorem isAside_notes (ns : List Node) :
  ∀ e ∈ noteEvents ns, IsAside e
  := by
  intro e he
  obtain ⟨n, -, hn⟩ := List.mem_filterMap.mp he
  cases n with
  | comment value =>
      cases hn
      trivial
  | _ => cases hn

/-- What stands around the root leaves no trace in the element tree. -/
theorem plain_asides {es : List Event} (h : ∀ e ∈ es, IsAside e) (top : List ElementTree) :
  es.foldl plainStep ⟨[], top⟩ = ⟨[], top⟩
  := by
  induction es with
  | nil => rfl
  | cons e es ih =>
      obtain ⟨he, hes⟩ := List.forall_mem_cons.mp h
      have hstep : plainStep ⟨[], top⟩ e = ⟨[], top⟩ := by
        cases e <;> first | rfl | cases he
      rw [List.foldl_cons, hstep, ih hes]

/-- What stands around the root becomes nodes of the object model, none of which is an element. -/
theorem model_asides {es : List Event} (h : ∀ e ∈ es, IsAside e) (top : List ModelNode) :
  ∃ ns, es.foldl modelStep ⟨[], top, none, none, none⟩ = ⟨[], ns ++ top, none, none, none⟩
    ∧ ∀ n ∈ ns, n.isElement = false
  := by
  induction es generalizing top with
  | nil => exact ⟨[], rfl, by simp⟩
  | cons e es ih =>
      obtain ⟨he, hes⟩ := List.forall_mem_cons.mp h
      cases e with
      | declaration version encoding standalone => exact ih hes top
      | comment text =>
          obtain ⟨ns, hfold, hns⟩ := ih hes (.comment text :: top)
          refine ⟨ns ++ [.comment text], ?_, ?_⟩
          · rw [List.append_assoc]
            exact hfold
          · exact List.forall_mem_append.mpr ⟨hns, List.forall_mem_singleton.mpr rfl⟩
      | _ => exact he.elim

/-- The events of a root among others become one element of an element tree, which lists the tags of
the root. -/
theorem plain_document {before after : List Event} (hbefore : ∀ e ∈ before, IsAside e)
    (hafter : ∀ e ∈ after, IsAside e) {item : Item} (hitem : item.tags ≠ []) :
  ∃ t, ((before ++ (item.events ++ after)).foldl plainStep {}).top.head? = some t
    ∧ t.listed = item.tags.map plainEntry
  := by
  cases item with
  | element tag named inner =>
      obtain ⟨t, hevents, -, hlisted⟩ :=
        plain_element tag named inner [] [] (plain_items inner _ [] [])
      refine ⟨t, ?_, hlisted⟩
      have hroot : (⟨[], []⟩ : ElementTree.Growth).add t = ⟨[], [t]⟩ := rfl
      rw [List.foldl_append, List.foldl_append, plain_asides hbefore, hevents, hroot,
        plain_asides hafter]
      rfl
  | _ => exact absurd rfl hitem

/-- The events of a root among others become one element of the object model, which lists the tags
of the root. -/
theorem model_document {before after : List Event} (hbefore : ∀ e ∈ before, IsAside e)
    (hafter : ∀ e ∈ after, IsAside e) {item : Item} (hitem : item.tags ≠ []) :
  ∃ n, ((before ++ (item.events ++ after)).foldl modelStep {}).top.reverse.find? (·.isElement)
      = some n
    ∧ n.listed = item.tags.map modelEntry
  := by
  cases item with
  | element tag named inner =>
      obtain ⟨front, hfront, hnone⟩ := model_asides hbefore []
      let g : ModelGrowth := ⟨[], front ++ [], none, none, none⟩
      have hinside : (g.within (openModel tag) []).IsInside (openModel tag) [] := ⟨rfl, rfl, rfl⟩
      obtain ⟨n, hevents, helement, hlisted⟩ :=
        model_element tag named inner g (model_items inner hinside)
      obtain ⟨back, hback, -⟩ := model_asides hafter (n :: (front ++ []))
      refine ⟨n, ?_, hlisted⟩
      have hroot : g.add n = ⟨[], n :: (front ++ []), none, none, none⟩ := rfl
      have hskip : front.reverse.find? (·.isElement) = none := by
        rw [List.find?_eq_none]
        exact fun n hn => Bool.eq_false_iff.mp (hnone n (List.mem_reverse.mp hn))
      rw [List.foldl_append, List.foldl_append, hfront, hevents, hroot, hback]
      simp [List.find?_append, hskip, helement]
  | _ => exact absurd rfl hitem

end Export

namespace Document

/-! ### Markup where names are taken apart -/

/-- The root is read to its end, and its events are those of an item with the tags of the root. -/
theorem passesRoot_item {x : Surroundings} {separator : Char} (hx : x.IsScoped separator) {n : Node}
    (hn : n.isElement) (h : n.IsWritable x.medium.alphabet x.declarations none)
    (hspaces : ∀ m ∈ n.nodes, m.IsScopable separator) (rest : List Char) :
  ∃ item : Item, item.tags = n.tags none
    ∧ ∀ spent es,
      x.PassesRoot spent (Writing.compact none n ++ rest) es rest (item.events.reverse ++ es)
  := (Surroundings.passes_item hx n hn h hspaces rest).imp fun _ hitem =>
    ⟨hitem.1, fun spent es =>
      hitem.2 { events := es, spent := spent } Reading.Scope.hasDefault_initial⟩

/-- The events of the markup of a document, where names are taken apart: its declaration if it has
one, its comments, and those of an item that has the tags of its root. -/
theorem IsReadable.events_scoped {d : Document} (h : d.IsReadable) {layout : Layout}
    {head : List Char} (hhead : Writing.IsHead layout d.declaration head) (manner : Manner)
    {separator : Char} (hseparator : manner.separator = some separator) {before after : List Node}
    {root : Node} (hparts : d.IsBare { alphabet := manner.alphabet } before root after)
    (hspaces : ∀ n ∈ root.nodes, n.IsScopable separator) :
  ∃ heading item, AreHeading heading ∧ Item.tags item = root.tags none
    ∧ Reading.events manner (.text (String.ofList (head ++ Writing.compactList none d.children)))
      = .ok ((heading ++ noteEvents before) ++ (item.events ++ noteEvents after))
  := by
  have hbegins : Reading.BeginsNode (Writing.compactList none d.children) :=
    (h.isRewritable Medium.isIntact_plain.toIsUsual).beginsNode
  obtain ⟨b, hb, hbegun⟩ := hhead.beginSource (fun _ => hbegins) manner
  obtain ⟨hmedium, hrest, heading, hprolog, hheading, -⟩ := hbegun
  let m : Medium := { alphabet := manner.alphabet }
  let p : Reading.Prolog := { b.prolog with types := if manner.distinctTypes then some [] else none }
  have hstage : p.stage.allowsRoot := by
    simp only [p, hprolog]
    rcases Reading.firstStage_cases (d.declaration.map Declaration.filled) with hfirst | hfirst <;>
      rw [Reading.Prolog.headed, hfirst] <;> rfl
  have hdeclarations :
      p.declarations = { standalone := d.declaration.any Declaration.standsAlone } := by
    simp only [p, hprolog, Declaration.standsAlone_filled]
    rfl
  have hopens (c : Char) : m.alphabet.isStart c → m.alphabet.opensElement c :=
    Reading.Alphabet.opensElement_of_known (Nat.le_refl _)
  -- the comments before the root, the root, and the comments behind it
  obtain ⟨name, more, hname, hroot⟩ := Reading.exists_name none hparts.isElement hparts.writable
    (Writing.compactList none after)
  obtain ⟨stage, hfront, hallows, -⟩ :=
    Reading.leads_notes (m := m) rfl hparts.before (name ++ more) p hstage
  let account := m.account
    (Source.text (String.ofList (head ++ Writing.compactList none d.children))).bytes.length
  let x : Surroundings := ⟨m, p.declarations, manner, account, 0, []⟩
  have hx : x.IsScoped separator :=
    ⟨⟨rfl, rfl, rfl, Reading.utf8Width_pos⟩, by simp [x, m, Manner.alphabet, hseparator],
      hseparator, rfl, by simp only [x, hdeclarations]⟩
  obtain ⟨item, htags, hpass⟩ := passesRoot_item hx hparts.isElement
    (by simpa only [x, hdeclarations] using hparts.writable) hspaces (Writing.compactList none after)
  have hitem := hpass p.spent ((noteEvents before).reverse ++ p.events)
  have hafter := Reading.afterRoot_notes (m := m) rfl hparts.after _
    (Nat.lt_succ_of_le (Reading.length_le_compactList hparts.after))
    (item.events.reverse ++ ((noteEvents before).reverse ++ p.events))
  rw [hroot] at hitem
  have hwhole := Reading.wholeMarkup_events
    (hfront.beforeRoot hopens hname hallows) hitem hafter
  refine ⟨heading, item, hheading, htags, ?_⟩
  have hheadings : heading.reverse = heading := by
    rcases hheading with rfl | ⟨_, _, _, rfl⟩ <;> rfl
  have hevents : p.events = heading := by
    simp only [p, hprolog]
    rfl
  have hmarkup : b.rest = Writing.compactList none before ++ '<' :: (name ++ more) := by
    rw [hrest, hparts.children, Writing.compactList_append, Writing.compactList, hroot]
  rw [← hmarkup, hevents] at hwhole
  simp only [Reading.events, hb, bind, Except.bind, hmedium]
  rw [hwhole]
  simp [Except.mapError, hheadings]

/-- The root of a document without a document type. -/
theorem IsBare.root?_eq {m : Medium} {d : Document} {before after : List Node} {root : Node}
    (h : d.IsBare m before root after) :
  d.root? = some root
  := by
  have hnone : before.find? Node.isElement = none := by
    rw [List.find?_eq_none]
    intro n hn
    obtain ⟨value, rfl, -⟩ := h.before n hn
    exact Bool.false_ne_true
  rw [Document.root?, h.children, List.find?_append, hnone, Option.none_or, List.find?_cons,
    h.isElement]

/-- The root of the normal form of a document lists by itself what the root of the document lists
with the namespaces in scope. -/
theorem IsBare.listed_normal {m : Medium} {d : Document} {before after : List Node} {root : Node}
    (h : d.IsBare m before root after) :
  ∃ again, d.unified.normal.root? = some again
    ∧ again.nodes.filterMap Node.listed? = root.listedIn none
  := by
  obtain ⟨again, hagain, helement⟩ :=
    Node.exists_normal none ((Node.isElement_unified root).trans h.isElement)
  have hnone : (Node.normalList none (Node.unifiedList before)).find? Node.isElement = none := by
    rw [List.find?_eq_none]
    exact fun n hn => Bool.eq_false_iff.mp (Reading.isElement_normalList h.before n hn)
  refine ⟨again, ?_, ?_⟩
  · simp [Document.root?, Document.normal, Document.unified, h.children, Reading.normalList_append,
      hnone, Node.unifiedList, Node.normalList, hagain, helement]
  · have hlisted := Node.listed_normal none root
    rwa [hagain, Node.nodesList, Node.nodesList, List.append_nil] at hlisted

end Document

/-! ### Views -/

namespace Builder

section

variable {b : Builder} {text : String} (hroot : b.draft.document.root?.isSome)
    (htext : (b.render false).2 = .ok text)

include hroot htext

/-- Exporters read the markup of a document that has a root. -/
theorem exported_text {α : Type} (nothing : α) (f : String → Except Fault α) :
  (b.exported nothing f).2 = f text
  := by
  rw [exported, if_neg (by simpa [Option.isNone_iff_eq_none, Option.isSome_iff_ne_none] using hroot)]
  rcases hrender : b.render false with ⟨after, r⟩
  rw [hrender] at htext
  cases htext
  rfl

theorem view_plainTree {es : List Event}
    (hevents : Reading.events Export.plainManner (.text text) = .ok es) :
  (b.view .plainTree).2 = .ok (.tree (es.foldl Export.plainStep {}).top.head?)
  := by
  simp only [view, plainTree, exported_text hroot htext, Export.plain, hevents, Except.map,
    Except.mapError]

theorem view_modelRoot {es : List Event}
    (hevents : Reading.events Export.modelManner (.text text) = .ok es) :
  (b.view .modelRoot).2
    = .ok (.modelNode ((es.foldl Export.modelStep {}).top.reverse.find? (·.isElement)))
  := by
  simp only [view, objectModel, exported_text hroot htext, Export.objectModel, hevents, Except.map,
    Except.mapError]

end

end Builder

/-- The element tree of a session in which no name and no comment is a member of an enumeration, its
object model, and what is read of its markup list the same elements in document order as its root,
each in its own namespace or in that of the nearest element around it that has one. -/
theorem exports_agree (steps : List Step) {b : Builder}
    (hb : (({} : Builder).runSteps steps).1 = b) (hroot : b.draft.document.root?.isSome)
    (hdoctype : b.draft.document.doctype? = none) (hlegible : b.draft.document.isLegible)
    (hplain : b.draft.document.isPlain) (hexportable : b.draft.document.isExportable) :
  ∃ root tree model text b' again, (b.view .root).2 = .ok (.node (some root))
    ∧ (b.view .plainTree).2 = .ok (.tree (some tree))
    ∧ (b.view .modelRoot).2 = .ok (.modelNode (some model))
    ∧ (b.view (.markup false)).2 = .ok (.text text)
    ∧ (Builder.ofSource {} (.text text)).2 = .ok b'
    ∧ (b'.view .root).2 = .ok (.node (some again))
    ∧ tree.listed = root.listedIn none ∧ model.listed = root.listedIn none
    ∧ again.nodes.filterMap Node.listed? = root.listedIn none
  := by
  have hreadable := session_isReadable steps hb hroot hdoctype hlegible hplain
  obtain ⟨head, hhead⟩ := Writing.exists_head isStandard_standardLayout hreadable.declaration
  have htext := session_render steps hb hroot hdoctype hlegible hplain hhead
  obtain ⟨b', hb', -, hdocument⟩ := Builder.ofSource_document {} (hreadable.read hhead)
  have hall : ∀ n ∈ b.draft.document.nodes, (n.isLegible ∧ n.isPlain) ∧ n.isExportable := by
    rw [Document.isExportable, List.all_eq_true] at hexportable
    exact fun n hn => ⟨(hreadable.nodes n hn).1, hexportable n hn⟩
  have hnames : ∀ n ∈ b.draft.document.nodes, n.isUnprefixed := by
    intro n hn
    have hown := (hall n hn).2
    rw [Node.isExportable, Bool.and_eq_true] at hown
    exact hown.1
  -- both exporters divide names, so that the same nodes can be written for either of them
  obtain ⟨before, root, after, hparts⟩ := hreadable.exists_parts
    (m := { alphabet := Export.plainManner.alphabet }) fun _ => hnames
  have hrootNodes : ∀ n ∈ root.nodes, n ∈ b.draft.document.nodes := by
    intro n hn
    refine Node.mem_nodesList.mpr ⟨root, ?_, hn⟩
    rw [hparts.children]
    exact List.mem_append_right _ List.mem_cons_self
  have hscopable (n : Node) (hn : n ∈ root.nodes) : n.IsScopable ' ' ∧ n.IsScopable '\x7d' :=
    Node.isScopable_of_isExportable (hall n (hrootNodes n hn)).2
  obtain ⟨heading, item, hheading, htags, hevents⟩ := hreadable.events_scoped hhead
    Export.plainManner rfl hparts fun n hn => (hscopable n hn).2
  obtain ⟨heading', item', hheading', htags', hevents'⟩ := hreadable.events_scoped hhead
    Export.modelManner rfl hparts fun n hn => (hscopable n hn).1
  obtain ⟨hentries, hmodel⟩ := Export.entries_tags Export.isBraced_none root
    fun n hn => hall n (hrootNodes n hn)
  have hsome : root.tags none ≠ [] := by
    have helement := hparts.isElement
    cases root with
    | element name attributes children => exact List.cons_ne_nil _ _
    | _ => cases helement
  obtain ⟨tree, htree, hlisted⟩ := Export.plain_document
    (List.forall_mem_append.mpr ⟨Export.isAside_heading hheading, Export.isAside_notes before⟩)
    (Export.isAside_notes after) (htags ▸ hsome)
  obtain ⟨model, hmodelRoot, hlisted'⟩ := Export.model_document
    (List.forall_mem_append.mpr ⟨Export.isAside_heading hheading', Export.isAside_notes before⟩)
    (Export.isAside_notes after) (htags' ▸ hsome)
  obtain ⟨again, hagain, hlistedAgain⟩ := hparts.listed_normal
  refine ⟨root, tree, model, _, b', again, ?_, ?_, ?_, ?_, hb', ?_, ?_, ?_, hlistedAgain⟩
  · simp only [Builder.view, hparts.root?_eq]
  · rw [Builder.view_plainTree hroot htext hevents, htree]
  · rw [Builder.view_modelRoot hroot htext hevents', hmodelRoot]
  · simp only [Builder.view, htext, Except.map]
  · simp only [Builder.view, hdocument, hagain]
  · rw [hlisted, htags, hentries]
  · rw [hlisted', htags', hmodel]

/-- A feed with an element in no namespace of its own, in which one is in another namespace. -/
theorem exports_of_feed_agree :
  let inner : List Step := [.call "c" [.mapping [(.str "xmlns", .str "urn:b"), (.str "y", .int 7)]]
    []]
  let attributes : Value := .mapping [(.str "xmlns", .str "urn:a")]
  let steps : List Step := [.call "Comment" [.str "head"] [], .call "feed" [attributes,
    .function [] [.call "Text" [.str "a"] [], .call "b" [.function [] inner] [], .call "d" [] []]] []]
  let b := (({} : Builder).runSteps steps).1
  ∃ root tree model text b' again, (b.view .root).2 = .ok (.node (some root))
    ∧ (b.view .plainTree).2 = .ok (.tree (some tree))
    ∧ (b.view .modelRoot).2 = .ok (.modelNode (some model))
    ∧ (b.view (.markup false)).2 = .ok (.text text)
    ∧ (Builder.ofSource {} (.text text)).2 = .ok b'
    ∧ (b'.view .root).2 = .ok (.node (some again))
    ∧ tree.listed = root.listedIn none ∧ model.listed = root.listedIn none
    ∧ again.nodes.filterMap Node.listed? = root.listedIn none
  := by
  intro inner attributes steps b
  obtain ⟨hroot, hdoctype, hlegible, hplain, hexportable⟩ : b.draft.document.root?.isSome
      ∧ b.draft.document.doctype? = none ∧ b.draft.document.isLegible
      ∧ b.draft.document.isPlain ∧ b.draft.document.isExportable := by
    decide +kernel
  exact exports_agree steps (b := b) rfl hroot hdoctype hlegible hplain hexportable

/-- An element named by a member of an enumeration cannot be exported: its end tag shows another
name than its start tag, so that neither form is made of its markup and no document is read from it.
-/
theorem exports_of_member_fail :
  let steps : List Step := [.call "Tag" [.member .texts "A" (.str "x"), .str "text"] []]
  let b := (({} : Builder).runSteps steps).1
  b.draft.document.root?.isSome ∧ b.draft.document.doctype? = none
    ∧ b.draft.document.isLegible ∧ b.draft.document.isExportable
    ∧ (b.view .plainTree).2.isOk = false ∧ (b.view .modelRoot).2.isOk = false
    ∧ ((b.render false).2.bind fun text => (Builder.ofSource {} (.text text)).2).isOk = false
  := ⟨rfl, rfl, rfl, rfl, rfl, rfl, rfl⟩

end XmlDraft
