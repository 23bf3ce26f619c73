import XmlDraft.Proofs.Reaching
import XmlDraft.Proofs.Soundness

/-!
# The order of building

The outline of a document lists its nodes in document order with their depths.  The open elements
are the right edge of the document, each one the last child of the one around it, and steps add
behind the children of the innermost one, which is the end of the outline.  So the records of
creations follow the outline as well.  Main statement: at every moment the open elements are the
right edge, a step only adds at the end of the outline, and the records of creations tell the
names and the depths of the elements in document order.
-/

namespace XmlDraft

/-! ### Outlines -/

namespace Node

mutual

/-- The nodes of a tree in document order, each with its depth and elements without their
children. -/
def outline (depth : Nat) : Node → List (Nat × Node)
  | element name attributes children =>
    (depth, element name attributes []) :: outlineList (depth + 1) children
  | text value => [(depth, text value)]
  | cdata value => [(depth, cdata value)]
  | comment value => [(depth, comment value)]
  | doctype d => [(depth, doctype d)]

/-- The nodes of several trees in document order. -/
def outlineList (depth : Nat) : List Node → List (Nat × Node)
  | [] => []
  | n :: ns => outline depth n ++ outlineList depth ns

end

theorem outlineList_append (depth : Nat) (before after : List Node) :
  outlineList depth (before ++ after) = outlineList depth before ++ outlineList depth after
  := by
  induction before with
  | nil => rfl
  | cons n ns ih => simp [outlineList, ih]

theorem outlineList_singleton (depth : Nat) (n : Node) :
  outlineList depth [n] = outline depth n
  := by
  rw [outlineList, outlineList, List.append_nil]

theorem outline_withChildren {n : Node} (h : n.isElement) (depth : Nat) (children : List Node) :
  (n.withChildren children).outline depth
    = (depth, n.withChildren []) :: outlineList (depth + 1) children
  := by
  cases n with
  | element name attributes others => rfl
  | _ => cases h

/-- What a record of a creation tells of an element at a depth: its tag and its depth. -/
def told? (entry : Nat × Node) : Option (Option Json × Option Json) :=
  entry.2.name?.map fun q => (some (.str q.localPart), some (.int entry.1))

theorem told?_withChildren {n : Node} (h : n.isElement) (depth : Nat) (children : List Node) :
  told? (depth, n.withChildren children) = told? (depth, n)
  := by
  cases n with
  | element name attributes others => rfl
  | _ => cases h

theorem told?_eq_none {n : Node} (h : n.isElement = false) (depth : Nat) :
  (n.outline depth).filterMap told? = []
  := by
  cases n with
  | element name attributes children => cases h
  | _ => rfl

end Node

/-- The nodes of a document in document order, each with its depth and elements without their
children. -/
def Document.outline (d : Document) : List (Nat × Node) :=
  Node.outlineList 0 d.children

/-! ### The right edge -/

/-- The open elements are the right edge of the nodes of a document: each one is the last child
of the one around it, and the outermost one the last node at the top level. -/
def Draft.OnRightEdge (ns : List Node) : List Place → Prop
  | [] => True
  | place :: outer =>
    (∃ before last, Node.childrenAt (outer.headD []) ns = before ++ [last] ∧ last.isElement
        ∧ place = outer.headD [] ++ [before.length])
      ∧ OnRightEdge ns outer

/-! ### Visits -/

namespace Visit

/-- The local part of the name of the element and its depth. -/
def told (v : Visit) : Option Json × Option Json :=
  (v.node.name?.map fun q => .str q.localPart, some (.int v.depth))

mutual

theorem map_ofNode (path : String) (depth : Nat) (n : Node) :
  (ofNode path depth n).map told = (n.outline depth).filterMap Node.told?
    ∧ (ofNode path depth n).map Visit.node = n.elements
  := by
  cases n with
  | element name attributes children =>
      have ih := map_ofList path (depth + 1) children [] children
      rw [ofNode, Node.outline, Node.elements]
      exact ⟨congrArg (_ :: ·) ih.1, congrArg (_ :: ·) ih.2⟩
  | _ => exact ⟨rfl, rfl⟩

theorem map_ofList (parent : String) (depth : Nat) (siblings before ns : List Node) :
  (ofList parent depth siblings before ns).map told
      = (Node.outlineList depth ns).filterMap Node.told?
    ∧ (ofList parent depth siblings before ns).map Visit.node = Node.elementsList ns
  := by
  cases ns with
  | nil => exact ⟨rfl, rfl⟩
  | cons n ns =>
      have ihs := map_ofList parent depth siblings (before ++ [n]) ns
      simp only [ofList, Node.outlineList, Node.elementsList, List.filterMap_append,
        List.map_append, ihs]
      cases n with
      | element name attributes children =>
          have ih := map_ofNode
            (pathStep parent name (countName name before + 1) (countName name siblings)) depth
            (.element name attributes children)
          exact ⟨congrArg (· ++ _) ih.1, congrArg (· ++ _) ih.2⟩
      | _ => exact ⟨rfl, rfl⟩

end

/-- A visit meets the elements in document order, and their depths are those of the outline. -/
theorem map_ofTop (ns : List Node) :
  (ofTop ns).map told = (Node.outlineList 0 ns).filterMap Node.told?
    ∧ (ofTop ns).map Visit.node = Node.elementsList ns
  := by
  induction ns with
  | nil => exact ⟨rfl, rfl⟩
  | cons n ns ih =>
      simp only [ofTop, Node.outlineList, Node.elementsList, List.filterMap_append,
        List.map_append, ih]
      cases n with
      | element name attributes children =>
          have hn := map_ofNode (pathStep "" name 1 1) 0 (.element name attributes children)
          exact ⟨congrArg (· ++ _) hn.1, congrArg (· ++ _) hn.2⟩
      | _ => exact ⟨rfl, rfl⟩

end Visit

/-! ### Records -/

namespace Log

/-- The tag and the depth that a record tells. -/
def Record.told (r : Record) : Option Json × Option Json :=
  (r.extra.lookup "tag", r.extra.lookup "depth")

/-- What the records of creations tell, in the order of time; the records come with the latest
first. -/
def told (records : List Record) : List (Option Json × Option Json) :=
  (creations records).reverse.map Record.told

theorem passing_debug (records : List Record) :
  passing .debug records = records
  := by
  apply List.filter_eq_self.mpr
  intro r _
  cases hr : r.level <;> rfl

/-- Sorting two entries leaves them as they are or exchanges them. -/
theorem mergeSort_pair {α : Type} (le : α → α → Bool) (a b : α) :
  [a, b].mergeSort le = if le a b then [a, b] else [b, a]
  := by
  simp [List.mergeSort, List.merge]

theorem told_record (s : Source) (tag : String) (depth : Nat) :
  (s.record .debug "Created element" [("tag", .str tag), ("depth", .int depth)]).told
    = (some (.str tag), some (.int depth))
  := by
  have hkept : [("tag", Json.str tag), ("depth", .int depth)].filter
      (fun e => e.1 ≠ "component" && e.1 ≠ "correlation_id")
      = [("tag", .str tag), ("depth", .int depth)] := rfl
  rw [Record.told, Source.record, hkept, mergeSort_pair]
  split_ifs <;> rfl

theorem told_congr {before after : List Record} (h : creations after = creations before) :
  told after = told before
  := congrArg (fun records => (records.reverse).map Record.told) h

end Log

/-- Attributes leave the name of an element as it is, but for its namespace. -/
theorem Prepared.apply_name (ps : Prepared) (name : QName) (attributes : Attributes) :
  (ps.apply name attributes).1.localPart = name.localPart
    ∧ (ps.apply name attributes).1.member = name.member
  := by
  refine apply_induct (P := fun e => e.1.localPart = name.localPart ∧ e.1.member = name.member) ?_
    ⟨rfl, rfl⟩
  intro p _ e e' he hp
  obtain ⟨-, rfl⟩ | ⟨_, _, -, ⟨-, rfl⟩ | ⟨-, rfl⟩⟩ := applyOne_ok hp
  · exact he
  · exact he
  · exact he

/-- The local part of the name of a new element is its tag. -/
theorem Builder.elementOf_localPart {settings : Settings} {name : Wording} {given : List Value}
    {named : List (String × Value)} {element : Node} {sequel : Sequel}
    (h : elementOf settings name given named = .ok (element, sequel)) :
  element.name?.map QName.localPart = some name.text
  := by
  obtain ⟨classified, prepared, q, _, _, hq, rfl, _⟩ := elementOf_ok h
  exact congrArg some ((prepared.apply_name q []).1.trans (QName.of?_eq_some hq).1)

/-- A new element has no elements inside it. -/
theorem Builder.elementOf_children {settings : Settings} {name : Wording} {given : List Value}
    {named : List (String × Value)} {element : Node} {sequel : Sequel}
    (h : elementOf settings name given named = .ok (element, sequel)) (depth : Nat) :
  (Node.outlineList depth element.children).filterMap Node.told? = []
  := by
  obtain ⟨classified, prepared, q, _, _, _, rfl, _⟩ := elementOf_ok h
  simp only [newElement, Node.children]
  cases nonempty? classified.content <;> rfl

/-- A new element is recorded with its tag and its depth, behind what was recorded before. -/
theorem Site.startElement_told {s : Site} {h h' : Sheet} {v : Value} {given : List Value}
    {named : List (String × Value)} {element : Node} {sequel : Builder.Sequel}
    (hs : s.startElement h v given named = (h', .ok (element, sequel))) :
  ∃ entry, Node.told? (s.depth, element) = some entry
    ∧ Log.told h'.records = Log.told h.records ++ [entry]
  := by
  have hwarn := (s.builder h).warn_creations (Arguments.warnings given)
  unfold startElement at hs
  split at hs
  · cases hs
  · rename_i name hname
    dsimp only at hs
    split at hs
    · cases hs
    · rename_i found sequel helement
      split at hs
      · cases hs
      · have hlocal := Builder.elementOf_localPart helement
        simp only [Prod.mk.injEq, Except.ok.injEq] at hs
        obtain ⟨rfl, rfl, rfl⟩ := hs
        obtain ⟨q, hq, htag⟩ := Option.map_eq_some_iff.mp hlocal
        refine ⟨(some (.str name.text), some (.int s.depth)), by simp [Node.told?, hq, htag], ?_⟩
        dsimp only
        rw [Log.told, Log.creations, List.filter_cons_of_pos rfl, List.reverse_cons, List.map_append]
        rw [List.map_singleton, Log.told_record]
        exact congrArg (· ++ [_]) (Log.told_congr hwarn)

/-! ### Sites -/

namespace Site

/-- Around a site the open elements are the right edge, and the children there are the end of the
outline. -/
structure IsRightmost (s : Site) (opened : List Place) : Prop where
  edge : ∀ children, Draft.OnRightEdge (s.around children) opened
  outline : ∃ before, ∀ children,
    Node.outlineList 0 (s.around children) = before ++ Node.outlineList s.depth children

theorem isRightmost_top (settings : Settings) :
  (top settings).IsRightmost []
  where
    edge _ := trivial
    outline := ⟨[], fun _ => rfl⟩

/-- The fragment of the last child is at the right edge again. -/
theorem IsRightmost.inside {s : Site} {opened : List Place} (fits : s.Fits opened)
    (rightmost : s.IsRightmost opened) (before : List Node) {element : Node}
    (he : element.isElement) :
  (s.inside before element).IsRightmost ((opened.headD [] ++ [before.length]) :: opened)
  where
    edge children := by
      refine ⟨⟨before, element.withChildren children, ?_, ?_, rfl⟩, rightmost.edge _⟩
      · exact fits.children _
      · rwa [Node.isElement_withChildren]
    outline := by
      obtain ⟨first, hfirst⟩ := rightmost.outline
      refine ⟨first ++ Node.outlineList s.depth before ++ [(s.depth, element.withChildren [])], ?_⟩
      intro children
      simp only [Site.inside]
      rw [hfirst, Node.outlineList_append, Node.outlineList_singleton,
        Node.outline_withChildren he]
      simp only [List.append_assoc, List.singleton_append]

/-- What steps at a site add: nodes behind the children there, and the records of their elements. -/
def Adds (s : Site) (h after : Sheet) (added : List Node) : Prop :=
  after.children = h.children ++ added
    ∧ Log.told after.records
        = Log.told h.records ++ (Node.outlineList s.depth added).filterMap Node.told?

/-- A new element is added behind the children, with a record of its creation. -/
theorem adds_element {s : Site} {h : Sheet} {records : List Log.Record} {v : Value}
    {given : List Value} {named : List (String × Value)} {element : Node} {sequel : Builder.Sequel}
    (hs : s.startElement h v given named
      = ({ h with records := records }, .ok (element, sequel))) :
  s.Adds h { h with records := records, children := h.children ++ [element] } [element]
  := by
  obtain ⟨entry, hentry, htold⟩ := startElement_told hs
  obtain ⟨_, _, _, helement, _⟩ := startElement_ok hs
  have he := Builder.isElement_of_elementOf helement
  have houtline := Node.outline_withChildren he s.depth element.children
  rw [Node.withChildren_children] at houtline
  refine ⟨rfl, ?_⟩
  rw [Node.outlineList_singleton, houtline, List.filterMap_cons_some
    ((Node.told?_withChildren he s.depth []).trans hentry),
    Builder.elementOf_children helement (s.depth + 1)]
  exact htold

/-- The same element with what its fragment added. -/
theorem adds_fragment {s : Site} {h inner : Sheet} {records : List Log.Record} {v : Value}
    {given : List Value} {named : List (String × Value)} {element : Node}
    {sequel : Builder.Sequel} {added : List Node}
    (hs : s.startElement h v given named
      = ({ h with records := records }, .ok (element, sequel)))
    (hadded : (s.inside h.children element).Adds
      { h with records := records, children := element.children } inner added) :
  s.Adds h { inner with children := h.children ++ [element.withChildren inner.children] }
    [element.withChildren inner.children]
  := by
  obtain ⟨entry, hentry, hcreated⟩ := startElement_told hs
  obtain ⟨_, _, _, helement, _⟩ := startElement_ok hs
  obtain ⟨hchildren, htold⟩ := hadded
  have he := Builder.isElement_of_elementOf helement
  dsimp only at hcreated htold hchildren
  refine ⟨rfl, ?_⟩
  rw [Node.outlineList_singleton, Node.outline_withChildren he, List.filterMap_cons_some
    ((Node.told?_withChildren he s.depth []).trans hentry), hchildren, Node.outlineList_append,
    List.filterMap_append, Builder.elementOf_children helement, List.nil_append]
  dsimp only
  rw [htold, hcreated, List.append_assoc]
  rfl

/-- Steps add nodes behind the children at their site, and record the elements among them. -/
theorem kept_adds :
  Kept fun s h after => ∃ added, s.Adds h after added
  where
    same hc _ hr := ⟨[], by simpa using hc, by simpa [Node.outlineList] using Log.told_congr hr⟩
    trans := by
      rintro s h between after ⟨first, hfirst, hfirstTold⟩ ⟨next, hnext, hnextTold⟩
      refine ⟨first ++ next, ?_, ?_⟩
      · rw [hnext, hfirst, List.append_assoc]
      · rw [hnextTold, hfirstTold, Node.outlineList_append, List.filterMap_append,
          List.append_assoc]
    operate s h o values := by
      rcases operate_cases s h o values with heq | ⟨d, heq⟩ | ⟨n, ha, hother, _⟩
      · exact ⟨[], by simp [heq], by simp [heq, Node.outlineList]⟩
      · exact ⟨[], by simp [heq], by simp [heq, Node.outlineList]⟩
      · obtain ⟨_, heq⟩ := add_ok ha
        refine ⟨[n], by rw [heq], ?_⟩
        rw [heq, Node.outlineList_singleton, Node.told?_eq_none hother, List.append_nil]
    element hs := ⟨_, adds_element hs⟩
    fragment hs hinner := by
      obtain ⟨_, hadded⟩ := hinner
      exact ⟨_, adds_fragment hs hadded⟩

/-- The records of creations tell the elements of the document around a site in document order. -/
def TellsOutline (s : Site) (h : Sheet) : Prop :=
  Log.told h.records = (Node.outlineList 0 (s.around h.children)).filterMap Node.told?

theorem IsRightmost.outline_adds {s : Site} {opened : List Place} (rightmost : s.IsRightmost opened)
    {h after : Sheet} {added : List Node} (hadded : s.Adds h after added) :
  Node.outlineList 0 (s.around after.children)
    = Node.outlineList 0 (s.around h.children) ++ Node.outlineList s.depth added
  := by
  obtain ⟨before, hbefore⟩ := rightmost.outline
  rw [hadded.1, hbefore, hbefore, Node.outlineList_append, List.append_assoc]

theorem TellsOutline.adds {s : Site} {opened : List Place} (rightmost : s.IsRightmost opened)
    {h after : Sheet} {added : List Node} (tells : s.TellsOutline h)
    (hadded : s.Adds h after added) :
  s.TellsOutline after
  := by
  unfold TellsOutline at tells ⊢
  rw [hadded.2, tells, rightmost.outline_adds hadded, List.filterMap_append]

/-- At every moment of a session that begins with an empty document, the site is at the right
edge, and the records of creations tell the elements in document order. -/
theorem lasts_rightmost :
  Lasts (fun s h after => ∃ added, s.Adds h after added)
    fun s opened h => s.IsRightmost opened ∧ s.TellsOutline h
  where
    kept := kept_adds
    along := by
      rintro s opened h after _ ⟨rightmost, tells⟩ ⟨added, hadded⟩
      exact ⟨rightmost, tells.adds rightmost hadded⟩
    enter := by
      rintro s opened h records v given named element takesBuilder fits ⟨rightmost, tells⟩ hs
      obtain ⟨_, _, _, helement, _⟩ := startElement_ok hs
      have hbegun := tells.adds rightmost (adds_element hs)
      refine ⟨rightmost.inside fits h.children (Builder.isElement_of_elementOf helement), ?_⟩
      simpa [TellsOutline, Site.inside] using hbegun

end Site

/-! ### Moments -/

/-- A draft that grew at its right edge alone: the same elements are open, and nodes were added
behind the children of the innermost one, which is behind all nodes in document order. -/
structure Draft.GrowsRight (before after : Draft) : Prop where
  opened : after.opened = before.opened
  added : ∃ added,
    after.document.children
        = Node.alterAt (fun children => children ++ added) before.current before.document.children
      ∧ after.document.outline
        = before.document.outline ++ Node.outlineList before.depth added

theorem Draft.GrowsRight.refl (d : Draft) :
  d.GrowsRight d
  where
    opened := rfl
    added := ⟨[], by simp [Node.alterAt_id], by simp [Node.outlineList]⟩

theorem Site.Adds.growsRight {s : Site} {opened : List Place} (fits : s.Fits opened)
    (rightmost : s.IsRightmost opened) {h after : Sheet} {added : List Node}
    (hadded : s.Adds h after added) :
  (s.run opened h).builder.draft.GrowsRight (s.run opened after).builder.draft
  where
    opened := rfl
    added := by
      refine ⟨added, ?_, ?_⟩
      · have halter := fits.alter (fun children => children ++ added) h.children
        rw [← hadded.1] at halter
        exact halter.symm
      · rw [fits.depth_run]
        exact rightmost.outline_adds hadded

/-- A state whose document is in the order of its building.  The open elements are the right edge
of the document; a step, and the beginning of an element, adds nodes behind all others and changes
none of them; and the records of creations tell the local parts and the depths of the elements as
a visit of the document meets them. -/
structure Run.IsInOrder (r : Run) : Prop where
  edge : Draft.OnRightEdge r.builder.draft.document.children r.builder.draft.opened
  step : ∀ frame p, r.builder.draft.GrowsRight (Run.step r frame p).1.builder.draft
  start : ∀ v given named,
    r.builder.draft.GrowsRight (r.builder.startElement v given named).1.draft
  told : Log.told (Log.passing .debug r.builder.records)
    = r.builder.draft.document.visits.map Visit.told
  visits : r.builder.draft.document.visits.map Visit.node = r.builder.draft.document.elements

/-- The order of building is document order, at every moment of a session that begins with an
empty document. -/
theorem built_in_document_order (settings : Settings) (r : Run)
    (hr : Run.LeadsTo ⟨{ settings := settings }, []⟩ r) :
  r.IsInOrder
  := by
  have hstart : Site.Holds (fun s opened h => s.IsRightmost opened ∧ s.TellsOutline h)
      ⟨{ settings := settings }, []⟩ :=
    ⟨Site.top settings, [], {}, Site.top_fits settings, rfl, Site.isRightmost_top settings, rfl⟩
  obtain ⟨s, opened, h, fits, rfl, rightmost, tells⟩ := Site.lasts_rightmost.holds hstart hr
  have hvisits := Visit.map_ofTop (s.around h.children)
  constructor
  · exact rightmost.edge h.children
  · intro frame p
    obtain ⟨added, hadded⟩ := Site.kept_adds.step s h frame p
    rw [fits.step]
    exact hadded.growsRight fits rightmost
  · intro v given named
    rcases hs : (s.run opened h).builder.startElement v given named
      with ⟨b, f | ⟨place, fragment⟩⟩
    · rw [fits.startElement_fails hs]
      exact .refl _
    · obtain ⟨records, element, hsite, _, hb⟩ := fits.startElement_begun hs
      have hgrows := (Site.adds_element hsite).growsRight fits rightmost
      rw [← hb] at hgrows
      exact hgrows
  · rw [Log.passing_debug]
    exact tells.trans hvisits.1.symm
  · exact hvisits.2

/-- Three elements, the innermost of which is begun before the fragment around it raises. -/
theorem built_in_document_order_of_raise :
  let inner : Value := .function [] [.call "Tag" [.str "c"] [], .raise "no more"]
  let outer : Value := .function [] [.call "Tag" [.str "b", inner] []]
  let r := (Run.step ⟨{}, []⟩ none (.attempt [.call "Tag" [.str "a", outer] []])).1
  r.IsInOrder ∧ r.builder.draft.document.visits.map (fun v => (v.path, v.depth))
    = [("/a", 0), ("/a/b", 1), ("/a/b/c", 2)]
  := by
  intro inner outer r
  exact ⟨built_in_document_order {} r (.step none _ .refl), by decide +kernel⟩

end XmlDraft
