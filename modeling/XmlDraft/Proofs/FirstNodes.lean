import XmlDraft.Proofs.Exports
import XmlDraft.Proofs.FullForm

/-!
# First nodes

Each view finds the first node of a document in a way of its own: among the nodes of the document,
among those of its object model, by going back from the root in its full form, and in the document
that its markup is read as.  Main statement: whatever reader makes the full form, all of them find
the same one, which is the first node that is no document type.  If it is a comment that is no
member of an enumeration, they agree in its text apart from ends of lines.  If it is the root, what
is read again has its name as written, and exporters have the local part of it.
-/

namespace XmlDraft

/-! ### What a node denotes -/

/-- What a node at the top level denotes: a comment with its text, or an element with the local part
of its name. -/
inductive Denoted where
  | comment (text : String)
  | element (localName : String)
deriving DecidableEq, Repr

/-- What a node of a document denotes; its local part is the name as written. -/
def Node.denoted? : Node → Option Denoted
  | .comment value => some (.comment value.text)
  | .element name _ _ => some (.element name.localPart)
  | _ => none

/-- What a node of an object model denotes. -/
def ModelNode.denoted? : ModelNode → Option Denoted
  | .comment data => some (.comment data)
  | .element name _ _ _ => some (.element (localPart name))
  | _ => none

/-- What a node of an element tree denotes. -/
def ElementTree.denoted? : ElementTree → Option Denoted
  | .node .comment _ text _ _ => text.map .comment
  | .node (.element clark) _ _ _ _ => some (.element (Export.localName clark))
  | _ => none

theorem ElementTree.denoted?_of_label {t : ElementTree} {clark : String}
    (h : Export.labelOf t = .element clark) :
  t.denoted? = some (.element (Export.localName clark))
  := by
  cases t
  cases h
  rfl

namespace Denoted

/-- What is read again where markup is written for it. -/
def reread : Denoted → Denoted
  | comment text => comment (Node.unifiedText text)
  | element name => element name

/-- What exporters make of it. -/
def exported : Denoted → Denoted
  | comment text => comment (Node.unifiedText text)
  | element name => element (ModelNode.localPart name)

end Denoted

open Reading (AreLeading Assembly Event Foreword Moves Runs Tag commentEvent commentMarkup level)

/-! ### Behind what comes first -/

/-- What has been left behind nodes that are passed over is found first. -/
theorem find?_of_suffix {α : Type} {p : α → Bool} {t : α} {top last : List α}
    (h : t :: top <:+ last) (ht : p t) (htop : ∀ x ∈ top, p x = false) :
  last.reverse.find? p = some t
  := by
  obtain ⟨later, rfl⟩ := h
  have hpassed : top.reverse.find? p = none := by simpa using htop
  simp [List.find?_append, hpassed, ht]

namespace Reading

namespace Assembly

/-- Behind events without comments no element is open, and the document holds document types
only. -/
theorem run_leading {es : List Event} (h : AreLeading [] es) {a : Assembly}
    (ha : ({} : Assembly).run es = .ok a) :
  a.opened = [] ∧ a.subset = none ∧ ∀ n ∈ a.document.children, n.isDoctype
  := by
  obtain ⟨heading, typed, hheading, htyped, rfl⟩ := h.exists_bare
  rcases hheading with rfl | ⟨_, _, _, rfl⟩ <;> rcases htyped with rfl | ⟨_, _, _, rfl⟩
  · cases ha
    exact ⟨rfl, rfl, by simp⟩
  · cases ha
    exact ⟨rfl, rfl, List.forall_mem_singleton.mpr rfl⟩
  · cases ha
    exact ⟨rfl, rfl, by simp⟩
  · cases ha
    exact ⟨rfl, rfl, List.forall_mem_singleton.mpr rfl⟩

variable {lead more : List Event} {a : Assembly}

/-- A comment behind the first events is the first node of the document. -/
theorem firstNode?_comment (h : AreLeading [] lead) (text : List Char)
    (ha : ({} : Assembly).run (lead ++ commentEvent text :: more) = .ok a) :
  a.document.firstNode? = some (.comment (String.ofList (Text.unifyLines text)))
  := by
  rw [run_append] at ha
  obtain ⟨b, hb, ha⟩ := bind_ok ha
  obtain ⟨c, hc, ha⟩ := bind_ok ha
  obtain ⟨hopened, hsubset, htypes⟩ := run_leading h hb
  rw [commentEvent, step, addComment, hsubset] at hc
  have hstate := attach_state (a := b) hc
  rw [if_pos hopened] at hstate
  have hsuffix := (run_moves ha).suffix
  rw [hstate] at hsuffix
  have hfound := find?_of_suffix (p := fun n => !n.isDoctype) hsuffix rfl
    (by simpa [state] using htypes)
  rwa [state, List.reverse_reverse] at hfound

/-- An element that begins behind the first events is the first node of the document, and its
root. -/
theorem firstNode?_element (h : AreLeading [] lead) {tag : Tag}
    (hlevel : level (lead ++ .start tag :: more).reverse = 0)
    (ha : ({} : Assembly).run (lead ++ .start tag :: more) = .ok a) :
  ∃ name attributes children, name.localPart = tag.name.raw
    ∧ a.document.firstNode? = some (.element name attributes children)
    ∧ a.document.root? = some (.element name attributes children)
  := by
  rw [run_append] at ha
  obtain ⟨b, hb, ha⟩ := bind_ok ha
  obtain ⟨c, hc, ha⟩ := bind_ok ha
  obtain ⟨hopened, hsubset, htypes⟩ := run_leading h hb
  have hstate : c.state = ([tag.name.raw], b.state.2) := by
    rw [step, openTag] at hc
    dsimp only at hc
    split at hc
    · cases hc
    · rename_i name hname
      cases hc
      simp [state, hopened, (QName.of?_eq_some hname).1]
  have hruns := run_moves ha
  have hclosed : a.state.1 = [] := by
    rw [← List.length_eq_zero_iff, hruns.length_eq, hstate]
    exact h.closed hlevel
  obtain ⟨n, hn, hsuffix⟩ := hruns.exists_root (by rw [hstate]; rfl) hclosed
  rw [hstate] at hsuffix
  have htop : ∀ m ∈ b.state.2, m.isDoctype := by simpa [state] using htypes
  cases n with
  | element name attributes children =>
      refine ⟨name, attributes, children, Option.some_inj.mp hn, ?_, ?_⟩
      · have hfound := find?_of_suffix (p := fun n => !n.isDoctype) hsuffix rfl
          (by simpa using htop)
        rwa [state, List.reverse_reverse] at hfound
      · have hfound := find?_of_suffix (p := Node.isElement) hsuffix rfl (by
          intro m hm
          have hm := htop m hm
          cases m <;> first | rfl | cases hm)
        rwa [state, List.reverse_reverse] at hfound
  | _ => cases hn

end Assembly

end Reading

namespace Export

variable {lead more : List Event}

/-! ### The object model -/

/-- Behind events without comments the object model holds document types only. -/
theorem model_leading {es : List Event} (h : AreLeading [] es) :
  ∃ top, es.foldl modelStep {} = { top := top } ∧ ∀ n ∈ top, n.isDoctype
  := by
  obtain ⟨heading, typed, hheading, htyped, rfl⟩ := h.exists_bare
  rcases hheading with rfl | ⟨_, _, _, rfl⟩ <;> rcases htyped with rfl | ⟨_, _, _, rfl⟩
  · exact ⟨[], rfl, by simp⟩
  · exact ⟨_, rfl, List.forall_mem_singleton.mpr rfl⟩
  · exact ⟨[], rfl, by simp⟩
  · exact ⟨_, rfl, List.forall_mem_singleton.mpr rfl⟩

/-- A comment behind the first events is the first node of the object model. -/
theorem modelFirst_comment (h : AreLeading [] lead) (text : List Char) :
  ((lead ++ commentEvent text :: more).foldl modelStep {}).top.reverse.find? (fun n => !n.isDoctype)
    = some (.comment (String.ofList (Text.unifyLines text)))
  := by
  obtain ⟨top, hlead, htypes⟩ := model_leading h
  have hsuffix := (Runs.of_foldl modelStep_moves more
    { top := .comment (String.ofList (Text.unifyLines text)) :: top }).suffix
  rw [List.foldl_append, hlead]
  exact find?_of_suffix hsuffix rfl (by simpa using htypes)

/-- An element that begins behind the first events is the first node of the object model, and its
root. -/
theorem modelFirst_element (h : AreLeading [] lead) {tag : Tag}
    (hlevel : level (lead ++ .start tag :: more).reverse = 0) :
  ∃ space attributes children, let model := ModelNode.element tag.name.raw space attributes children
    ((lead ++ .start tag :: more).foldl modelStep {}).top.reverse.find? (fun n => !n.isDoctype)
        = some model
      ∧ ((lead ++ .start tag :: more).foldl modelStep {}).top.reverse.find? ModelNode.isElement
        = some model
  := by
  obtain ⟨top, hlead, htypes⟩ := model_leading h
  let begun : ModelGrowth := ({ top := top } : ModelGrowth).start tag
  have hruns := Runs.of_foldl modelStep_moves more begun
  have hclosed : (more.foldl modelStep begun).state.1 = [] := by
    rw [← List.length_eq_zero_iff, hruns.length_eq]
    exact h.closed hlevel
  obtain ⟨n, hn, hsuffix⟩ := hruns.exists_root (b := tag.name.raw) rfl hclosed
  rw [List.foldl_append, hlead]
  cases n with
  | element name space attributes children =>
      cases hn
      refine ⟨space, attributes, children, ?_, ?_⟩
      · exact find?_of_suffix hsuffix rfl fun m hm => by simpa using htypes m hm
      · refine find?_of_suffix hsuffix rfl fun m hm => ?_
        have hm := htypes m hm
        cases m <;> first | rfl | cases hm
  | _ => cases hn

end Export

/-! ### Documents -/

/-- A node whose strings may stand in a document: names of ASCII, and characters of documents.  A
comment that is a member of an enumeration has a printed form that may stand there as well. -/
def Node.isOrdinary : Node → Bool
  | .doctype t => t.isLegible
  | .comment value =>
    isCharText value.text
      && value.member.all fun printed => isCharText printed && !breaksComment printed.toList
  | n => n.isLegible

/-- A document whose strings may stand in a document, and whose document type, if it has one, can be
read. -/
def Document.isOrdinary (d : Document) : Bool :=
  d.declaration.all Declaration.isCharText && d.nodes.all Node.isOrdinary

/-- A node that is no comment whose text is a member of an enumeration. -/
def Node.isPlainNote : Node → Bool
  | .comment value => value.member.isNone
  | _ => true

/-- What is written for a comment that is sound can stand in markup. -/
theorem Node.isNoteText_printed {value : Wording} (h : (Node.comment value).isOrdinary)
    (hsound : (Node.comment value).IsSound) :
  Foreword.IsNoteText value.printed
  := by
  obtain ⟨text, member⟩ := value
  simp only [isOrdinary, Bool.and_eq_true] at h
  cases member with
  | none => exact ⟨h.1, hsound⟩
  | some printed => simpa [Foreword.IsNoteText, Wording.printed] using h.2

/-- A tag of legible parts has names of ASCII and values of characters of documents, also where it
declares its namespace. -/
theorem Node.tagAttributes_of_legible {name : QName} {attributes : Attributes}
    {children : List Node} (h : (Node.element name attributes children).isLegible)
    (scope : Option String) :
  isAsciiName name.localPart
    ∧ ∀ a ∈ Writing.tagAttributes scope name attributes, isAsciiName a.1 ∧ isCharText a.2
  := by
  simp only [isLegible, Bool.and_eq_true, List.all_eq_true] at h
  obtain ⟨⟨hname, huri⟩, hattributes⟩ := h
  refine ⟨hname, fun a ha => ?_⟩
  rw [Writing.tagAttributes, List.mem_append] at ha
  rcases ha with ha | ha
  · exact hattributes a ha
  · obtain ⟨uri, hdeclared, rfl⟩ := List.mem_map.mp ha
    have hown := (Writing.declared_some (Option.mem_toList.mp hdeclared)).1
    have hxmlns : isAsciiName "xmlns" := by decide
    exact ⟨hxmlns, by simpa [hown] using huri⟩

/-- No two attributes in the tag of a sound element have the same name. -/
theorem Node.nodup_tagAttributes {name : QName} {attributes : Attributes} {children : List Node}
    (h : (Node.element name attributes children).IsSound) (scope : Option String) :
  ((Writing.tagAttributes scope name attributes).map Prod.fst).Nodup
  := by
  obtain ⟨hnodup, hxmlns⟩ := h
  rw [Writing.tagAttributes, List.map_append, List.nodup_append]
  refine ⟨hnodup, ?_, ?_⟩
  · cases Writing.declared scope name <;> simp
  · rintro p hp q hq rfl
    rw [List.map_map] at hq
    obtain ⟨uri, -, rfl⟩ := List.mem_map.mp hq
    exact hxmlns hp

/-- A text that is read in three manners: as a full form, as an object model, and as a document. -/
structure IsReadAs (read : Export.FullReader) (text : String) (t : Export.FullTree)
    (ns : List ModelNode) (d : Document) : Prop where
  full : read text = .ok (some t)
  model : Export.objectModel text = .ok ns
  again : readDocument (.text text) = .ok d

/-- The first nodes of a document and of what its text is read as, which denote the same, and which
are the roots if the first one is an element. -/
structure AreFirst (n : Node) (t : Export.FullTree) (ns : List ModelNode) (d : Document)
    (model : ModelNode) (again : Node) : Prop where
  found : ns.find? (fun m => !m.isDoctype) = some model
  foundAgain : d.firstNode? = some again
  denoted : ∃ denoted, n.denoted? = some denoted ∧ t.firstNode.denoted? = some denoted.exported
    ∧ model.denoted? = some denoted.exported ∧ again.denoted? = some denoted.reread
  roots : n.isElement → t.root = t.firstNode ∧ ns.find? (·.isElement) = some model
    ∧ d.root? = some again

namespace IsReadAs

variable {read : Export.FullReader} {text : String} {t : Export.FullTree} {ns : List ModelNode}
  {d : Document}

theorem exists_events (h : IsReadAs read text t ns d) :
  (∃ es, Reading.events Export.modelManner (.text text) = .ok es
      ∧ ns = (es.foldl Export.modelStep {}).top.reverse)
    ∧ ∃ es a, Reading.events {} (.text text) = .ok es ∧ ({} : Assembly).run es = .ok a
      ∧ d = a.document
  := by
  obtain ⟨es, hes, hns⟩ := Reading.map_ok h.model
  obtain ⟨es', hes', hread⟩ := Reading.bind_ok h.again
  obtain ⟨a, ha, hread⟩ := Reading.bind_ok hread
  split_ifs at hread
  cases hread
  exact ⟨⟨es, hes, hns.symm⟩, es', a, Reading.mapError_ok hes', ha, rfl⟩

variable {w front : Foreword} (hw : w.IsLegible) (hbare : w.comments = [])

include hw hbare

/-- A first comment is found everywhere, with unified ends of lines. -/
theorem comment {value : String} {rest : List Char} (hvalue : Foreword.IsNoteText value)
    (h : IsReadAs read (String.ofList (w.markup ++ (commentMarkup value.toList ++ rest))) t ns d)
    {others : List String} (hfirst : t.before = (value :: others).map Export.noteLeaf) :
  AreFirst (.comment value) t ns d (.comment (Node.unifiedText value))
    (.comment (Node.unifiedText value))
  := by
  obtain ⟨⟨es, hes, rfl⟩, es', a, hes', ha, rfl⟩ := h.exists_events
  obtain ⟨lead, more, hlead, rfl⟩ := Reading.events_comment hw hvalue hes
  obtain ⟨lead', more', hlead', rfl⟩ := Reading.events_comment hw hvalue hes'
  rw [hbare] at hlead hlead'
  have hfull : t.firstNode = Export.noteLeaf value := by
    rw [Export.FullTree.firstNode, Export.goBack_reverse, hfirst]
    rfl
  exact ⟨Export.modelFirst_comment hlead value.toList,
    Assembly.firstNode?_comment hlead' value.toList ha,
    ⟨.comment value, rfl, by rw [hfull]; rfl, rfl, rfl⟩, nofun⟩

/-- A root that stands in front of all comments is found everywhere, with its local part. -/
theorem element (hread : Export.IsFullReader read) {name : QName} {attributes : Attributes}
    {children : List Node} (hlegible : (Node.element name attributes children).isLegible)
    (hsound : (Node.element name attributes children).IsSound) {rest : List Char}
    (h : IsReadAs read (String.ofList
      (w.markup ++ (Writing.compact none (.element name attributes children) ++ rest))) t ns d) :
  ∃ model again, AreFirst (.element name attributes children) t ns d model again
  := by
  obtain ⟨isEmpty, tail, hmarkup⟩ :=
    Reading.Surroundings.compact_append_tag none name attributes children rest
  rw [hmarkup] at h
  have hnodup := Node.nodup_tagAttributes hsound none
  obtain ⟨hname, hattributes⟩ := Node.tagAttributes_of_legible hlegible none
  obtain ⟨⟨es, hes, rfl⟩, es', a, hes', ha, rfl⟩ := h.exists_events
  obtain ⟨lead, tag, more, hlead, rfl, hlevel, hresolves⟩ :=
    Reading.events_element hw hname hattributes hes
  obtain ⟨lead', tag', more', hlead', rfl, hlevel', hresolves'⟩ :=
    Reading.events_element hw hname hattributes hes'
  rw [hbare] at hlead hlead'
  cases hresolves'.eq_plainTag rfl hnodup
  obtain ⟨hraw, hbinds⟩ := hresolves.binds rfl
  obtain ⟨space, given, inner, hmodel, hmodelRoot⟩ := Export.modelFirst_element hlead hlevel
  obtain ⟨again, given', inner', hagain, hfound, hroot⟩ :=
    Assembly.firstNode?_element hlead' hlevel' ha
  -- nothing stands in front of the root of the full form, and the reader names it
  obtain ⟨clark, hlabel, hlocal⟩ := hread.root hw hname hattributes hnodup hbinds h.full
  have hfull : t.firstNode = t.root := by
    rw [Export.FullTree.firstNode, Export.goBack_reverse, hread.before hw hname h.full, hbare]
    rfl
  refine ⟨_, _, hmodel, hfound, ⟨.element name.localPart, rfl, ?_, ?_, ?_⟩,
    fun _ => ⟨hfull.symm, hmodelRoot, hroot⟩⟩
  · rw [hfull, ElementTree.denoted?_of_label hlabel, hlocal]
    rfl
  · rw [ModelNode.denoted?, hraw]
    rfl
  · rw [Node.denoted?, hagain]
    rfl

end IsReadAs

/-! ### Markup that was written -/

/-- What is written without indentation is an opening with the markup of the nodes behind it. -/
theorem Document.exists_opening {layout : Layout} (hlayout : Writing.IsStandard layout)
    {d : Document} (hdeclaration : d.declaration.all Declaration.isCharText) {text : String}
    (htext : d.render layout false = .ok text) :
  ∃ head, Writing.IsOpening head
    ∧ text = String.ofList (head ++ Writing.compactList none d.children)
  := by
  obtain ⟨cs, hcs, rfl⟩ := Reading.map_ok htext
  -- the opening is known once the declaration is, and the nodes are written the same behind both
  have hnodes {head : List Char} {started : Bool}
      (h : (if !Writing.allPrintableList d.children then .error RenderFault.unprintable
        else .ok (head ++ Writing.nodesText none false started 0 none d.children)) = Except.ok cs) :
      cs = head ++ Writing.compactList none d.children := by
    split_ifs at h
    cases h
    rw [Writing.nodesText_none]
  cases hd : d.declaration with
  | none =>
      rw [Writing.documentText, hd] at hcs
      exact ⟨[], .none, congrArg String.ofList (hnodes hcs)⟩
  | some declaration =>
      rw [Writing.documentText, hd] at hcs
      obtain ⟨head, hhead, hcs⟩ := Reading.bind_ok hcs
      rw [hd, Option.all_some] at hdeclaration
      exact ⟨head, Writing.isOpening_declarationText hlayout hdeclaration hhead,
        congrArg String.ofList (hnodes hcs)⟩

/-- Comments are written one behind another, as they are printed. -/
theorem Writing.compactList_notes (values : List Wording) (rest : List Node) :
  compactList none (values.map .comment ++ rest)
    = Foreword.notesMarkup (values.map Wording.printed) ++ compactList none rest
  := by
  induction values with
  | nil => rfl
  | cons value values ih =>
      rw [List.map_cons, List.map_cons, List.cons_append, compactList, ih,
        Foreword.notesMarkup_cons]
      simp [compact, commentMarkup]

/-- At most one document type, which is legible. -/
def AreTypes (ns : List Node) : Prop :=
  ns = [] ∨ ∃ t : Doctype, ns = [.doctype t] ∧ t.isLegible

theorem AreTypes.isTypeMarkup {types : List Node} (h : AreTypes types) :
  Reading.IsTypeMarkup (Writing.compactList none types)
  := by
  rcases h with rfl | ⟨t, rfl, ht⟩
  · exact .none
  · rw [Writing.compactList, Writing.compact, Writing.compactList, List.append_nil]
    exact Reading.isTypeMarkup_doctypeText ht

/-- A document with a root has a first node that is no document type. -/
theorem Document.exists_firstNode {d : Document} (h : d.root?.isSome) :
  ∃ n, d.firstNode? = some n
  := by
  obtain ⟨root, hroot, helement⟩ := List.find?_isSome.mp h
  refine Option.isSome_iff_exists.mp (List.find?_isSome.mpr ⟨root, hroot, ?_⟩)
  cases root with
  | element name attributes children => rfl
  | _ => cases helement

/-- A first element that is no document type is the root. -/
theorem Document.root?_of_firstNode {d : Document} {n : Node} (hn : d.firstNode? = some n)
    (helement : n.isElement) :
  d.root? = some n
  := by
  obtain ⟨-, types, rest, hchildren, htypes⟩ := List.find?_eq_some_iff_append.mp hn
  refine List.find?_eq_some_iff_append.mpr ⟨helement, types, rest, hchildren, fun m hm => ?_⟩
  have hm := htypes m hm
  cases m with
  | doctype t => rfl
  | _ => cases hm

/-- A first comment is the first one of the comments in front of the root. -/
theorem Document.exists_notes_of_firstNode {d : Document} {before after : List Wording}
    {types rest : List Node} {root : Node}
    (hchildren : d.children = before.map .comment ++ (types ++ (after.map .comment ++ root :: rest)))
    (hroot : root.isElement) (htypes : types = [] ∨ ∃ t, types = [.doctype t]) {value : Wording}
    (hfirst : d.firstNode? = some (.comment value)) :
  ∃ others, before ++ after = value :: others
  := by
  rw [firstNode?, hchildren] at hfirst
  cases before with
  | cons v vs =>
      cases hfirst
      exact ⟨vs ++ after, rfl⟩
  | nil =>
      cases after with
      | cons v vs =>
          rcases htypes with rfl | ⟨t, rfl⟩ <;>
            · cases hfirst
              exact ⟨vs, rfl⟩
      | nil =>
          cases root with
          | element name attributes children =>
              rcases htypes with rfl | ⟨t, rfl⟩ <;> cases hfirst
          | _ => cases hroot

section

variable {read : Export.FullReader} {layout : Layout} {d again : Document} {text : String}
  {t : Export.FullTree} {ns : List ModelNode}

/-- The nodes in front of the root of a full form are the comments in front of the root of a
document, as they are printed. -/
theorem Document.before_root (hread : Export.IsFullReader read) {head : List Char}
    (hhead : Writing.IsOpening head) (hsound : ∀ n ∈ d.children, n.IsTopSound)
    (hordinary : ∀ n ∈ d.children, n.isOrdinary) {before after : List Wording}
    {types rest : List Node} {root : Node}
    (hchildren : d.children = before.map .comment ++ (types ++ (after.map .comment ++ root :: rest)))
    (hroot : root.isElement) (htypes : AreTypes types)
    (hfull : read (String.ofList (head ++ Writing.compactList none d.children)) = .ok (some t)) :
  t.before = ((before ++ after).map Wording.printed).map Export.noteLeaf
  := by
  let w : Foreword := {
    head := head
    before := before.map Wording.printed
    doctype := Writing.compactList none types
    after := after.map Wording.printed }
  have hnote (value : Wording) (hvalue : value ∈ before ++ after) :
      Foreword.IsNoteText value.printed := by
    have hmem : .comment value ∈ d.children := by
      rcases List.mem_append.mp hvalue with hvalue | hvalue <;> simp [hchildren, hvalue]
    obtain ⟨hsound, -⟩ := (hsound _ hmem).element_or_comment (by simp [Node.isDoctype])
    exact Node.isNoteText_printed (hordinary _ hmem) (hsound _ (Node.mem_nodes _))
  have hw : w.IsLegible := by
    refine ⟨hhead, fun value hvalue => ?_, htypes.isTypeMarkup⟩
    rw [Foreword.comments, ← List.map_append] at hvalue
    obtain ⟨given, hgiven, rfl⟩ := List.mem_map.mp hvalue
    exact hnote given hgiven
  cases root with
  | element name attributes children =>
      have hlegible : (Node.element name attributes children).isLegible :=
        hordinary (.element name attributes children) (by simp [hchildren])
      obtain ⟨hname, -⟩ := Node.tagAttributes_of_legible hlegible none
      obtain ⟨isEmpty, tail, hmarkup⟩ := Reading.Surroundings.compact_append_tag none name
        attributes children (Writing.compactList none rest)
      have htext : head ++ Writing.compactList none d.children
          = w.markup ++ '<' :: (name.localPart.toList ++ (Writing.attributesText
            (Writing.tagAttributes none name attributes)
              ++ (Reading.Medium.tagEnd isEmpty ++ tail))) := by
        rw [← hmarkup, hchildren, Writing.compactList_notes, Writing.compactList_append,
          Writing.compactList_notes, Writing.compactList]
        simp [w, Foreword.markup]
      rw [htext] at hfull
      rw [hread.before hw hname hfull, List.map_append]
      rfl
  | _ => cases hroot

/-- The nodes of a document type, if there is one, are legible as soon as they are ordinary. -/
theorem AreTypes.of_ordinary {types : List Node} (htypes : types = [] ∨ ∃ t, types = [.doctype t])
    (hordinary : ∀ n ∈ types, n.isOrdinary) :
  AreTypes types
  :=
  htypes.imp_right fun ⟨t, ht⟩ => ⟨t, ht, hordinary (.doctype t) (by simp [ht])⟩

/-- In front of the first node of a document there are document types only, and the markup of the
document begins with theirs, which the markup of the first node follows. -/
theorem Document.exists_foreword (hordered : d.IsOrdered)
    (hordinary : ∀ n ∈ d.children, n.isOrdinary) {head : List Char}
    (hhead : Writing.IsOpening head) {n : Node} (hfirst : d.firstNode? = some n) :
  ∃ (w : Foreword) (types rest : List Node), w.IsLegible ∧ w.comments = []
    ∧ d.children = types ++ n :: rest ∧ (∀ m ∈ types, m.isDoctype) ∧ n.isDoctype = false
    ∧ head ++ Writing.compactList none d.children
      = w.markup ++ Writing.compactList none (n :: rest)
  := by
  obtain ⟨types, rest, hchildren, hkind, htypes⟩ := hordered.exists_first hfirst
  have hlegible : AreTypes types :=
    .of_ordinary htypes fun m hm => hordinary m (by simp [hchildren, hm])
  let w : Foreword := { head := head, doctype := Writing.compactList none types }
  refine ⟨w, types, rest, ⟨hhead, nofun, hlegible.isTypeMarkup⟩, rfl, hchildren, ?_, hkind, ?_⟩
  · rcases htypes with rfl | ⟨t, rfl⟩ <;> simp [Node.isDoctype]
  · rw [hchildren, Writing.compactList_append]
    simp [w, Foreword.markup, Foreword.notesMarkup]

/-- The first node of a document that was written is found in whatever its text is read as, unless
it is a comment that is a member of an enumeration. -/
theorem Document.exists_first (hread : Export.IsFullReader read)
    (hlayout : Writing.IsStandard layout) (hordered : d.IsOrdered)
    (hsound : ∀ n ∈ d.children, n.IsTopSound) (hroot : d.root?.isSome) (hordinary : d.isOrdinary)
    (hplain : d.firstNode?.all Node.isPlainNote)
    (htext : d.render layout false = .ok text) (h : IsReadAs read text t ns again) :
  ∃ types n rest model found, d.children = types ++ n :: rest ∧ (∀ m ∈ types, m.isDoctype)
    ∧ n.isDoctype = false ∧ d.firstNode? = some n ∧ AreFirst n t ns again model found
  := by
  rw [isOrdinary, Bool.and_eq_true, List.all_eq_true] at hordinary
  obtain ⟨hdeclaration, hordinary⟩ := hordinary
  have hordinary' (n : Node) (hn : n ∈ d.children) : n.isOrdinary :=
    hordinary n (Node.mem_nodesList.mpr ⟨n, hn, Node.mem_nodes n⟩)
  obtain ⟨head, hhead, rfl⟩ := Document.exists_opening hlayout hdeclaration htext
  obtain ⟨n, hfirst⟩ := Document.exists_firstNode hroot
  obtain ⟨w, types, rest, hw, hbare, hchildren, hdoctypes, hkind, hmarkup⟩ :=
    Document.exists_foreword hordered hordinary' hhead hfirst
  have hmem : n ∈ d.children := by simp [hchildren]
  obtain ⟨hown, hn⟩ := (hsound n hmem).element_or_comment (by rw [hkind]; exact Bool.false_ne_true)
  rcases hn with helement | ⟨value, rfl⟩
  · cases n with
    | element name attributes children =>
        rw [hmarkup, Writing.compactList] at h
        obtain ⟨model, found, hall⟩ :=
          h.element hw hbare hread (hordinary' _ hmem) (hown _ (Node.mem_nodes _))
        exact ⟨types, _, rest, model, found, hchildren, hdoctypes, hkind, hfirst, hall⟩
    | _ => cases helement
  · rw [hfirst] at hplain
    obtain ⟨value, _ | printed⟩ := value
    swap
    · cases hplain
    obtain ⟨before, after, types', root, rest', hchildren', helement, htypes'⟩ :=
      hordered.exists_front hroot
    have hbefore := Document.before_root hread hhead hsound hordinary' hchildren' helement
      (.of_ordinary htypes' fun m hm => hordinary' m (by simp [hchildren', hm])) h.full
    obtain ⟨others, hothers⟩ :=
      Document.exists_notes_of_firstNode hchildren' helement htypes' hfirst
    rw [hothers, List.map_cons] at hbefore
    have hvalue := Node.isNoteText_printed (hordinary' _ hmem) (hown _ (Node.mem_nodes _))
    have hwritten : Writing.compactList none (.comment value :: rest)
        = commentMarkup value.toList ++ Writing.compactList none rest := by
      simpa using Reading.compactList_comment value rest []
    rw [hmarkup, hwritten] at h
    exact ⟨types, _, rest, _, _, hchildren, hdoctypes, hkind, hfirst,
      h.comment hw hbare hvalue hbefore⟩

end

namespace Builder

variable {b : Builder} {text : String}

/-- What a builder writes is the markup of its document. -/
theorem render_ok {layout : Layout} (hlayout : b.settings.layout = .checked layout)
    {indented : Bool} (htext : (b.render indented).2 = .ok text) :
  b.draft.document.render layout indented = .ok text
  := by
  unfold render at htext
  split at htext
  · rename_i heq
    cases htext
    rw [written, hlayout] at heq
    obtain ⟨_, hlayoutOf, heq⟩ := Reading.bind_ok heq
    cases hlayoutOf
    obtain ⟨shown, hshown, heq⟩ := Reading.bind_ok heq
    obtain ⟨encoding, -, heq⟩ := Reading.bind_ok heq
    cases heq
    exact Reading.mapError_ok hshown
  · cases htext

section

variable (hroot : b.draft.document.root?.isSome) (htext : (b.render false).2 = .ok text)

include hroot htext

/-- A full form that a reader makes for a builder is that of the markup. -/
theorem exists_full {read : Export.FullReader} (h : (b.fullTreeBy read).2.isOk) :
  ∃ t, read text = .ok (some t) ∧ (b.fullTreeBy read).2 = .ok (some t)
  := by
  simp only [fullTreeBy, exported_text hroot htext] at h ⊢
  split at h
  · rename_i t heq
    exact ⟨t, heq, rfl⟩
  · cases h
  · cases h

/-- The views of the object model show parts of one object model of the markup. -/
theorem exists_model (h : (b.view .modelFirstNode).2.isOk) :
  ∃ ns, Export.objectModel text = .ok ns
    ∧ (b.view .modelFirstNode).2 = .ok (.modelNode (ns.find? fun n => !n.isDoctype))
    ∧ (b.view .modelRoot).2 = .ok (.modelNode (ns.find? (·.isElement)))
  := by
  simp only [view, objectModel, exported_text hroot htext] at h ⊢
  cases hmodel : Export.objectModel text with
  | ok ns => exact ⟨ns, rfl, rfl, rfl⟩
  | error u =>
      rw [hmodel] at h
      cases h

end

/-- The builder of what is read of the markup that a builder writes. -/
def again (b : Builder) : Except Fault Builder :=
  (b.render false).2.bind fun text => (ofSource {} (.text text)).2

end Builder

/-- What the node that a view shows denotes. -/
def Shown.denoted? : Shown → Option Denoted
  | .node n => n.bind Node.denoted?
  | .tree t => t.bind ElementTree.denoted?
  | .modelNode n => n.bind ModelNode.denoted?
  | _ => none

/-- What the node denotes that a view of a builder shows. -/
def Builder.denoted? (b : Builder) (v : View) : Option Denoted :=
  (b.view v).2.toOption.bind Shown.denoted?

/-- The exporters and the reader agree in comments, and in elements without a colon in their
names. -/
theorem Denoted.exported_eq_reread {n : Node} {denoted : Denoted} (h : n.denoted? = some denoted)
    (hcolon : ∀ name ∈ n.name?, ':' ∉ name.localPart.toList) :
  denoted.exported = denoted.reread
  := by
  cases n with
  | element name attributes children =>
      cases h
      rw [exported, reread, Export.localPart_of_notMem (hcolon name rfl)]
  | comment value =>
      cases h
      rfl
  | _ => cases h

/-! ### Sessions -/

/-- The first node of a session that is no document type is the one that its exports and what is
read of its markup have first, whatever reader makes the full form: all of them are comments with
the same text apart from ends of lines, unless the comment is a member of an enumeration, or all of
them are the root, whose name the reader has as written, and exporters without what stands in front
of a colon. -/
theorem first_nodes_agree {read : Export.FullReader} (hread : Export.IsFullReader read)
    (steps : List Step) {b : Builder} (hb : (({} : Builder).runSteps steps).1 = b)
    (hroot : b.draft.document.root?.isSome) (hordinary : b.draft.document.isOrdinary)
    (hplain : b.draft.document.firstNode?.all Node.isPlainNote)
    (hfull : (b.fullTreeBy read).2.isOk) (hmodel : (b.view .modelFirstNode).2.isOk)
    (hagain : b.again.isOk) :
  ∃ types n rest denoted text t b', b.draft.document.children = types ++ n :: rest
    ∧ (∀ m ∈ types, m.isDoctype) ∧ n.isDoctype = false
    ∧ (b.view (.markup false)).2 = .ok (.text text) ∧ (b.fullTreeBy read).2 = .ok (some t)
    ∧ (Builder.ofSource {} (.text text)).2 = .ok b'
    ∧ (b.view .firstNode).2 = .ok (.node (some n)) ∧ n.denoted? = some denoted
    ∧ t.firstNode.denoted? = some denoted.exported
    ∧ b.denoted? .modelFirstNode = some denoted.exported
    ∧ b'.denoted? .firstNode = some denoted.reread
    ∧ ((∀ name ∈ n.name?, ':' ∉ name.localPart.toList) → denoted.exported = denoted.reread)
    ∧ (n.isElement → (b.view .root).2 = (b.view .firstNode).2 ∧ t.root = t.firstNode
      ∧ (b.view .modelRoot).2 = (b.view .modelFirstNode).2
      ∧ (b'.view .root).2 = (b'.view .firstNode).2)
  := by
  obtain ⟨b', hagain⟩ := Reading.exists_of_isOk hagain
  obtain ⟨text, htext, hb'⟩ := Reading.bind_ok hagain
  obtain ⟨t, hfullText, htree⟩ := Builder.exists_full hroot htext hfull
  obtain ⟨ns, hmodelText, hfirstModel, hrootModel⟩ := Builder.exists_model hroot htext hmodel
  obtain ⟨d, hread', hd⟩ := Reading.map_ok hb'
  have hdocument : b'.draft.document = d := hd ▸ rfl
  have hbuilt := Site.session_built {} steps
  have hsettings := Builder.settings_runSteps steps {}
  rw [hb] at hbuilt hsettings
  have hrender := Builder.render_ok (by rw [hsettings]) htext
  obtain ⟨types, n, rest, model, again, hchildren, hdoctypes, hkind, hfirst, hall⟩ :=
    Document.exists_first hread isStandard_standardLayout (hbuilt.ordered.declare _)
      hbuilt.areTopSound.sound hroot hordinary hplain hrender ⟨hfullText, hmodelText, hread'⟩
  obtain ⟨hfound, hfoundAgain, ⟨denoted, hdenoted, hfullNode, hmodelNode, hagainNode⟩, hroots⟩ := hall
  refine ⟨types, n, rest, denoted, text, t, b', hchildren, hdoctypes, hkind, ?_, htree, hb', ?_,
    hdenoted, hfullNode, ?_, ?_, Denoted.exported_eq_reread hdenoted, ?_⟩
  · simp only [Builder.view, htext, Except.map]
  · simp only [Builder.view, hfirst]
  · rw [Builder.denoted?, hfirstModel, hfound]
    exact hmodelNode
  · simp only [Builder.denoted?, Builder.view, hdocument, hfoundAgain]
    exact hagainNode
  · intro helement
    obtain ⟨htreeRoot, hmodelRoot, hagainRoot⟩ := hroots helement
    refine ⟨?_, htreeRoot, ?_, ?_⟩
    · simp only [Builder.view, hfirst, Document.root?_of_firstNode hfirst helement]
    · rw [hrootModel, hfirstModel, hmodelRoot, hfound]
    · simp only [Builder.view, hdocument, hfoundAgain, hagainRoot]

/-- A feed with a comment in front of its document type, one behind that, and one behind its
root. -/
theorem first_nodes_of_feed_agree :
  let attributes : Value := .mapping [(.str "xmlns", .str "u")]
  let steps : List Step := [.call "Comment" [.str "x\r"] [],
    .call "DocumentType" [.str "feed", .str "-", .str "s"] [], .call "Comment" [.str "y"] [],
    .call "feed" [attributes, .function [] [.call "Text" [.str "a"] []]] [],
    .call "Comment" [.str "z"] []]
  let b := (({} : Builder).runSteps steps).1
  ∃ types n rest denoted text t b', b.draft.document.children = types ++ n :: rest
    ∧ (∀ m ∈ types, m.isDoctype) ∧ n.isDoctype = false
    ∧ (b.view (.markup false)).2 = .ok (.text text)
    ∧ (b.fullTreeBy Export.full).2 = .ok (some t)
    ∧ (Builder.ofSource {} (.text text)).2 = .ok b'
    ∧ (b.view .firstNode).2 = .ok (.node (some n)) ∧ n.denoted? = some denoted
    ∧ t.firstNode.denoted? = some denoted.exported
    ∧ b.denoted? .modelFirstNode = some denoted.exported
    ∧ b'.denoted? .firstNode = some denoted.reread
    ∧ ((∀ name ∈ n.name?, ':' ∉ name.localPart.toList) → denoted.exported = denoted.reread)
    ∧ (n.isElement → (b.view .root).2 = (b.view .firstNode).2 ∧ t.root = t.firstNode
      ∧ (b.view .modelRoot).2 = (b.view .modelFirstNode).2
      ∧ (b'.view .root).2 = (b'.view .firstNode).2)
  := by
  intro attributes steps b
  obtain ⟨⟨hroot, hordinary, hplain⟩, hfull, hmodel, hagain⟩ :
      (b.draft.document.root?.isSome ∧ b.draft.document.isOrdinary
        ∧ b.draft.document.firstNode?.all Node.isPlainNote)
      ∧ (b.fullTreeBy Export.full).2.isOk ∧ (b.view .modelFirstNode).2.isOk ∧ b.again.isOk := by
    decide +kernel
  exact first_nodes_agree Export.isFullReader_full steps (b := b) rfl hroot hordinary hplain hfull
    hmodel hagain

/-- A root whose name has a prefix: the builder and the reader have it as written, and the exporters
have what stands behind the prefix. -/
theorem first_nodes_of_prefixed_differ :
  let steps : List Step := [.call "Tag" [.str "p:a", .mapping [(.str "xmlns:p", .str "u")]] []]
  let b := (({} : Builder).runSteps steps).1
  b.draft.document.root?.isSome ∧ b.draft.document.isOrdinary ∧ (b.view .fullFirstNode).2.isOk
    ∧ (b.view .modelFirstNode).2.isOk ∧ b.again.isOk
    ∧ b.denoted? .firstNode = some (.element "p:a")
    ∧ b.again.toOption.bind (·.denoted? .firstNode) = some (.element "p:a")
    ∧ b.denoted? .fullFirstNode = some (.element "a")
    ∧ b.denoted? .modelFirstNode = some (.element "a")
  := ⟨rfl, rfl, rfl, rfl, rfl, rfl, rfl, rfl, rfl⟩

end XmlDraft
