import XmlDraft.Proofs.Checks
import XmlDraft.Proofs.Declaring
import XmlDraft.Proofs.Outputs
import XmlDraft.Proofs.Rereading

/-!
# Indentation that settles

The line breaks of indented markup are read as texts inside the root, and where an element begins
with a text nothing is indented in it any more, while the line breaks at the top level are not read
and are written anew.  Main statement: a document that was written with indentation, read, and
written again with indentation is written the same from then on; and where lines end with a line
feed already the first two texts are the same.
-/

namespace XmlDraft

/-! ### Settled nodes -/

namespace Node

/-- Nodes of which the first one is character data, or none at all. -/
def BeginData (ns : List Node) : Prop :=
  ∀ n ∈ ns.head?, n.isCharacterData

/-- A node in which nothing is indented: an element without children or with character data as the
first of them, or no element. -/
def IsSettled : Node → Prop
  | .element _ _ children => BeginData children
  | _ => True

theorem laidOutList_ne (layout : Layout) (level : Nat) (ns : List Node) :
  laidOutList layout level ns ≠ []
  := by
  cases ns with
  | nil => simp [laidOutList]
  | cons n ns =>
      rw [laidOutList]
      split_ifs <;> exact List.cons_ne_nil _ _

/-- Line breaks leave no text in a settled node. -/
theorem IsSettled.laidOut_eq {n : Node} (h : n.IsSettled) (layout : Layout) (level : Nat) :
  n.laidOut layout level = n
  := by
  cases n with
  | element name attributes children =>
      cases children with
      | nil => rw [laidOut]
      | cons c cs => rw [laidOut, laidOutList, if_pos (h c rfl)]
  | _ => simp [laidOut]

/-- What line breaks leave begins with a text, where there is no character data. -/
theorem beginData_laidOutList (layout : Layout) (level : Nat) (ns : List Node) :
  BeginData (laidOutList layout level ns)
  := by
  cases ns with
  | nil => simp [laidOutList, BeginData, lineText, isCharacterData]
  | cons n ns =>
      rw [laidOutList]
      split_ifs with hdata
      · simpa [BeginData] using hdata
      · simp [BeginData, lineText, isCharacterData]

/-- The normal form of character data is character data. -/
theorem BeginData.normalList {ns : List Node} (h : BeginData ns) (scope : Option String) :
  BeginData (normalList scope ns)
  := by
  cases ns with
  | nil => simp [Node.normalList, BeginData]
  | cons n ns =>
      have hn := h n rfl
      cases n with
      | text value => simp [Node.normalList, normal, BeginData, isCharacterData]
      | cdata value =>
          obtain ⟨first, others, hcut, _⟩ := cutSections_spec value.toList
          simp [Node.normalList, normal, BeginData, isCharacterData, hcut]
      | _ => cases hn

theorem BeginData.joinTexts {ns : List Node} (h : BeginData ns) :
  BeginData (joinTexts ns)
  := by
  induction ns using Node.joinTexts.induct with
  | case1 s t ns ih =>
      rw [Node.joinTexts]
      exact ih (by simp [BeginData, isCharacterData])
  | case2 n ns hjoin ih =>
      rw [Node.joinTexts]
      · simpa [BeginData] using h
      · exact hjoin
  | case3 => simpa [Node.joinTexts] using h

/-- A laid out element has no children, or it begins with character data. -/
theorem exists_laidOut (layout : Layout) (level : Nat) (name : QName) (attributes : Attributes)
    (children : List Node) :
  ∃ ns, (element name attributes children).laidOut layout level = .element name attributes ns
    ∧ BeginData ns
  := by
  cases children with
  | nil => exact ⟨[], by rw [laidOut], by simp [BeginData]⟩
  | cons c cs => exact ⟨_, by rw [laidOut], beginData_laidOutList layout level (c :: cs)⟩

/-- An element that was laid out is read as a settled one. -/
theorem isSettled_normal {scope : Option String} {n e : Node} (hn : n.isElement) {layout : Layout}
    {level : Nat} (he : normal scope (n.laidOut layout level) = [e]) :
  e.IsSettled
  := by
  cases n with
  | element name attributes children =>
      obtain ⟨ns, hlaid, hdata⟩ := exists_laidOut layout level name attributes children
      rw [hlaid, normal, List.cons.injEq] at he
      exact he.1 ▸ (hdata.normalList _).joinTexts
  | _ => cases hn

theorem isCharacterData_unified (n : Node) :
  n.unified.isCharacterData = n.isCharacterData
  := by
  cases n <;> simp [unified, isCharacterData]

mutual

/-- Line breaks leave the same texts whatever the ends of lines in comments and sections are. -/
theorem unified_laidOut (layout : Layout) (level : Nat) (n : Node) :
  (n.laidOut layout level).unified = n.unified.laidOut layout level
  := by
  cases n with
  | element name attributes children =>
      cases children with
      | nil => simp [laidOut, unified, unifiedList]
      | cons c cs =>
          rw [laidOut, unified, unifiedList_laidOutList layout level (c :: cs), unified, unifiedList,
            laidOut]
  | _ => simp [laidOut, unified]

theorem unifiedList_laidOutList (layout : Layout) (level : Nat) (ns : List Node) :
  unifiedList (laidOutList layout level ns) = laidOutList layout level (unifiedList ns)
  := by
  cases ns with
  | nil => rfl
  | cons n ns =>
      rw [laidOutList, unifiedList, laidOutList, isCharacterData_unified]
      split_ifs
      · rfl
      · rw [unifiedList, unifiedList, unified_laidOut layout (level + 1) n,
          unifiedList_laidOutList layout level ns]
        rfl

end

end Node

/-! ### Markup with line feeds -/

namespace Writing

open Node (laidOut laidOutList lineText)

variable {layout : Layout}

/-- A line break that begins with a line feed is written as the text that it leaves. -/
theorem compact_lineText (hlayout : layout.IsBlank) (hfeed : layout.newline = "\n") (level : Nat)
    (scope : Option String) :
  compact scope (lineText layout level) = lineBreak layout level
  := by
  have hnewline : layout.newline.toList = ['\n'] := by
    rw [hfeed]
    decide
  have hrun : ∀ c ∈ '\n' :: layout.indentation level, Reading.Surroundings.isRunChar c := by
    refine List.forall_mem_cons.mpr ⟨by decide, fun c hc => ?_⟩
    rcases hlayout.indentation level c hc with rfl | rfl <;> decide
  rw [lineText, compact, String.toList_ofList, Reading.Surroundings.escapeText_runChars hrun,
    Layout.lineBreak_eq, hnewline]
  rfl

mutual

/-- Indented markup is the markup of what is laid out, without indentation. -/
theorem nodeText_laidOut (hlayout : layout.IsBlank) (hfeed : layout.newline = "\n") (level : Nat)
    (scope : Option String) (n : Node) :
  nodeText (some layout) false false level scope n = compact scope (n.laidOut layout level)
  := by
  cases n with
  | element name attributes children =>
      cases children with
      | nil => rw [nodeText_empty, laidOut]
      | cons c cs =>
          have hcontent := contentText_laidOut hlayout hfeed level (innerScope scope name) (c :: cs)
          have hmarkup := nodeText_element layout level scope name attributes
            (List.cons_ne_nil c cs) []
          rw [List.append_nil, hcontent] at hmarkup
          rw [hmarkup, laidOut, compact_element _ _ _ (Node.laidOutList_ne layout level (c :: cs))]
          simp [tagOpening, endTag, Reading.Medium.tagEnd]
  | text value => simp [nodeText, compact, laidOut]
  | cdata value => simp [nodeText, compact, laidOut]
  | comment value => simp [nodeText, compact, laidOut, breakLine]
  | doctype t => simp [nodeText, compact, laidOut, breakLine]

theorem contentText_laidOut (hlayout : layout.IsBlank) (hfeed : layout.newline = "\n")
    (level : Nat) (scope : Option String) (ns : List Node) :
  contentText layout level scope ns = compactList scope (laidOutList layout level ns)
  := by
  cases ns with
  | nil =>
      rw [laidOutList, compactList, compactList, compact_lineText hlayout hfeed, List.append_nil]
      rfl
  | cons n ns =>
      cases hdata : n.isCharacterData with
      | true => rw [contentText_data _ _ _ hdata, laidOutList, if_pos hdata]
      | false =>
          rw [contentText_cons _ _ _ hdata, laidOutList, if_neg (by simp [hdata]), compactList,
            compactList, compact_lineText hlayout hfeed,
            nodeText_laidOut hlayout hfeed (level + 1) scope n,
            contentText_laidOut hlayout hfeed level scope ns]

end

end Writing

/-! ### Documents that settle -/

namespace Reading

theorem normalList_comments {ns : List Node} (h : AreComments ns) :
  Node.normalList none ns = ns
  := by
  induction ns with
  | nil => rfl
  | cons n ns ih =>
      obtain ⟨⟨value, rfl, _⟩, hothers⟩ := List.forall_mem_cons.mp h
      rw [Node.normalList, Node.normal, ih hothers, List.singleton_append]

end Reading

namespace Document

open Reading (AreComments)

/-- A document of a settled root with comments around it. -/
def IsSettled (d : Document) : Prop :=
  ∃ before root after, d.children = before ++ root :: after ∧ AreComments before
    ∧ (root.isElement ∧ root.IsSettled) ∧ AreComments after

/-- Nothing is laid out in a settled document. -/
theorem IsSettled.laidOut_eq {d : Document} (h : d.IsSettled) (layout : Layout) :
  d.laidOut layout = d
  := by
  obtain ⟨before, root, after, hchildren, hbefore, ⟨_, hroot⟩, hafter⟩ := h
  have hlaid : d.children.map (Node.laidOut layout 0) = d.children := by
    rw [hchildren, List.map_append, List.map_cons, Reading.map_laidOut_comments hbefore,
      Reading.map_laidOut_comments hafter, hroot.laidOut_eq]
  rw [Document.laidOut, hlaid]

theorem IsSettled.doctype?_eq_none {d : Document} (h : d.IsSettled) :
  d.doctype? = none
  := by
  obtain ⟨before, root, after, hchildren, hbefore, ⟨helement, _⟩, hafter⟩ := h
  have hcomments {ns : List Node} (hns : AreComments ns) (t : Doctype) : .doctype t ∉ ns := by
    intro ht
    obtain ⟨value, heq, _⟩ := hns _ ht
    cases heq
  rw [doctype?, List.findSome?_eq_none_iff, hchildren]
  intro n hn
  cases n with
  | doctype t =>
      rw [List.mem_append, List.mem_cons] at hn
      rcases hn with hn | rfl | hn
      · exact absurd hn (hcomments hbefore t)
      · cases helement
      · exact absurd hn (hcomments hafter t)
  | _ => rfl

theorem unified_laidOut (layout : Layout) (d : Document) :
  (d.laidOut layout).unified = d.unified.laidOut layout
  := by
  have hchildren (ns : List Node) : Node.unifiedList (ns.map (Node.laidOut layout 0))
      = (Node.unifiedList ns).map (Node.laidOut layout 0) := by
    induction ns with
    | nil => rfl
    | cons n ns ih =>
        simp only [List.map_cons, Node.unifiedList, Node.unified_laidOut, ih]
  simp only [laidOut, unified, hchildren]

/-- The normal form of a laid out document of a root with comments around it is settled, and its own
indented markup is that of the document if lines end with a line feed. -/
theorem IsBare.isSettled_laidOut {d : Document} {m : Reading.Medium} {before after : List Node}
    {root : Node} (h : d.IsBare m before root after) {layout : Layout} (hlayout : layout.IsBlank) :
  (d.laidOut layout).normal.IsSettled
    ∧ (layout.newline = "\n" → (d.laidOut layout).normal.markup layout true = d.markup layout true)
  := by
  obtain ⟨hchildren, hbefore, hroot, _, hafter⟩ := h
  obtain ⟨e, he, helement⟩ : ∃ e, Node.normal none (root.laidOut layout 0) = [e] ∧ e.isElement :=
    Node.exists_normal none (by simpa using hroot)
  have hsettled := Node.isSettled_normal hroot he
  have hlaid : (d.laidOut layout).normal.children = before ++ e :: after := by
    rw [normal, laidOut, hchildren, List.map_append, List.map_cons,
      Reading.map_laidOut_comments hbefore, Reading.map_laidOut_comments hafter,
      Node.normalList_append, Node.normalList, he, Reading.normalList_comments hbefore,
      Reading.normalList_comments hafter, List.singleton_append]
  refine ⟨⟨before, e, after, hlaid, hbefore, ⟨helement, hsettled⟩, hafter⟩, fun hfeed => ?_⟩
  have hmarkup := Writing.compactList_normal none (root.laidOut layout 0)
  rw [he, Writing.compactList, Writing.compactList, List.append_nil] at hmarkup
  have hdeclared : (d.laidOut layout).normal.declaration.isSome = d.declaration.isSome :=
    Option.isSome_map
  rw [markup, markup, hlaid, hchildren, hdeclared]
  simp only [ite_true]
  rw [Reading.nodesText_append hbefore, Reading.nodesText_append hbefore,
    Reading.nodesText_root helement, Reading.nodesText_root hroot,
    Writing.nodeText_laidOut hlayout hfeed, Writing.nodeText_laidOut hlayout hfeed,
    hsettled.laidOut_eq, hmarkup]

section

variable {m : Reading.Medium} {declarations : Reading.Declarations} {front others : List Node}
    {d : Document} (h : d.IsAccepted m declarations front others) (hdoctype : d.doctype? = none)

include h hdoctype

/-- Without a document type an accepted document is a root with comments around it, which can be
written in every medium, unless there are signs in its names that are letters in some media only. -/
theorem IsAccepted.exists_bare {m' : Reading.Medium} (hm' : m'.IsUsual)
    (hsigns : (m.alphabet.signs → m'.alphabet.signs) ∨ ∀ n ∈ d.nodes, n.holdsNoSign) :
  ∃ before root after, d.IsBare m' before root after
  := by
  obtain ⟨hnotes, hdeclarations⟩ := h.bare hdoctype
  obtain ⟨before, root, after, rfl, hroot, hbefore, hafter⟩ := h.exists_root
  rw [nodes, h.children, Node.nodesList_append, List.forall_mem_append] at hsigns
  have hwritable := h.others.writable.inMedium h.usual hm' (hsigns.imp_right And.right)
  refine ⟨front ++ before, root, after, by rw [h.children, List.append_assoc], ?_, hroot,
    hdeclarations ▸ (Node.areWritable_append.mp hwritable).2.1, hafter⟩
  exact List.forall_mem_append.mpr ⟨Reading.AreComments.of_notes hnotes, hbefore⟩

theorem IsAccepted.unified_eq :
  d.unified = d
  := by
  have hentities : declarations.entities = [] := by rw [(h.bare hdoctype).2]
  rw [unified, Node.unifiedList_eq fun n hn => (h.isAsRead n hn).keepsLines hentities]

theorem IsAccepted.allPrintable :
  Writing.allPrintableList d.children
  := (h.isRewritable_bare h.usual hdoctype (.inl id)).allPrintable.1

/-- An accepted document is written behind its head with the fields of its declaration and the
namespaces of its elements as they are read again. -/
theorem IsAccepted.render_normal {layout : Layout} {head : List Char}
    (hhead : Writing.IsHead layout d.declaration head) (indented : Bool) :
  d.normal.render layout indented = .ok (String.ofList (head ++ d.markup layout indented))
  := by
  let filled : Document := { d with declaration := d.declaration.map Declaration.filled }
  have hnormal : d.normal = filled.withSpaces := by
    have hunified := h.unified_normal hdoctype
    rw [h.unified_eq hdoctype] at hunified
    rw [hunified, inherited, withSpaces_eq]
  have hfilled := hhead.render_filled (d := filled) rfl (h.allPrintable hdoctype) indented
  rw [markup, Option.isSome_map] at hfilled
  rw [hnormal, render_withSpaces]
  exact hfilled

end

/-- The indented markup of a document without a document type that was read is a text that does not
look like octets, and what is read of it is settled; the markup of that is the same if lines end
with a line feed. -/
theorem exists_markup_indented {layout : Layout} (hlayout : layout.IsBlank)
    (hstandard : Writing.IsStandard layout) {markup : String} {d : Document}
    (h : readDocument (.text markup) = .ok d) (hdoctype : d.doctype? = none)
    (hwide : Reading.looksWide markup.toList → ∀ n ∈ d.nodes, n.holdsNoSign) :
  ∃ head, Writing.IsHead layout d.declaration head
    ∧ d.render layout true = .ok (String.ofList (head ++ d.markup layout true))
    ∧ readDocument (.text (String.ofList (head ++ d.markup layout true)))
      = .ok (d.laidOut layout).normal
    ∧ Reading.looksWide (head ++ d.markup layout true) = false
    ∧ (d.laidOut layout).normal.IsSettled
    ∧ (layout.newline = "\n"
      → (d.laidOut layout).normal.markup layout true = d.markup layout true)
  := by
  have hplain := Reading.Medium.isIntact_plain
  obtain ⟨m, declarations, front, others, haccepted, htext, _⟩ := readDocument_ok h
  have hsigns : (m.alphabet.signs → ({} : Reading.Medium).alphabet.signs)
      ∨ ∀ n ∈ d.nodes, n.holdsNoSign := by
    cases hlooks : Reading.looksWide markup.toList with
    | false =>
        obtain rfl := htext markup rfl hlooks
        exact .inl id
    | true => exact .inr (hwide hlooks)
  obtain ⟨before, root, after, hbare⟩ :=
    haccepted.exists_bare hdoctype hplain.toIsUsual hsigns
  obtain ⟨head, hhead⟩ := Writing.exists_head hstandard haccepted.declaration
  have hbegins := hbare.beginsNode_markup layout
  refine ⟨head, hhead, hhead.render (haccepted.allPrintable hdoctype) true, ?_, ?_,
    hbare.isSettled_laidOut hlayout⟩
  · obtain ⟨b, hb, hbegun⟩ := hhead.beginSource hbegins {}
    have hread := hbare.read_indented hlayout hplain hb hbegun
    rwa [unified_laidOut, haccepted.unified_eq hdoctype] at hread
  · obtain ⟨c, more, hchars, hzero⟩ := hhead.begins hbegins
    rw [hchars]
    simp [Reading.looksWide, hzero]

end Document

/-! ### Formatting again and again -/

/-- A layout of fields that pass the checks is blank, and has the fields that it was given. -/
theorem Layout.check_ok {indent newline version encoding : Json} {layout : Layout}
    (h : check indent newline version encoding = .ok layout) :
  layout.IsBlank ∧ layout.version = version ∧ layout.encoding = encoding
  := by
  obtain ⟨-, -, hversion, hencoding, hvalid⟩ := check_eq_ok.mp h
  exact ⟨hvalid.toIsBlank, hversion.symm, hencoding.symm⟩

namespace Builder

/-- The indented markup of the document that a text writes. -/
def reformatted (settings : Settings) (markup : String) : Except Fault String :=
  (ofSource settings (.text markup)).2.bind fun b => (b.render true).2

theorem reformatted_eq {layout : Layout} {markup text : String} {d : Document}
    (hread : readDocument (.text markup) = .ok d) (htext : d.render layout true = .ok text) :
  reformatted { layout := .checked layout } markup = .ok text
  := by
  obtain ⟨_, _, _, _, haccepted, _⟩ := readDocument_ok hread
  obtain ⟨b, hb, hsettings, hdocument⟩ := ofSource_document { layout := .checked layout } hread
  rw [reformatted, hb]
  apply render_document (by rw [hsettings])
  · rw [hdocument]
    exact select_legible haccepted.declaration
  · rw [hdocument]
    exact htext

end Builder

/-- A text of a document without a document type that is formatted with indentation is changed at
most once more when it is formatted again, and not at all if lines end with a line feed. -/
theorem reformatting_settles {indent newline : Json} {layout : Layout}
    (hlayout : Layout.check indent newline (.str "1.0") (.str "utf-8") = .ok layout)
    {markup : String} {b : Builder}
    (hb : (Builder.ofSource { layout := .checked layout } (.text markup)).2 = .ok b)
    (hdoctype : b.draft.document.doctype? = none)
    (hwide : Reading.looksWide markup.toList →
      ∀ n ∈ b.draft.document.nodes, n.holdsNoSign) :
  let reformatted := Builder.reformatted { layout := .checked layout }
  ∃ first second, reformatted markup = .ok first ∧ reformatted first = .ok second
    ∧ reformatted second = .ok second ∧ (layout.newline = "\n" → second = first)
  := by
  intro reformatted
  obtain ⟨hread, _⟩ := Builder.ofSource_ok hb
  obtain ⟨hblank, hversion, hencoding⟩ := Layout.check_ok hlayout
  obtain ⟨head, hhead, hfirst, hagain, hnarrow, hsettled, hfeed⟩ :=
    Document.exists_markup_indented hblank ⟨hversion, hencoding⟩ hread hdoctype hwide
  generalize b.draft.document = d at *
  have hdoctype' := hsettled.doctype?_eq_none
  have hfilled : (d.laidOut layout).normal.declaration = d.declaration.map Declaration.filled := rfl
  generalize (d.laidOut layout).normal = d' at *
  -- nothing is laid out in the document that is read of the first text
  obtain ⟨head', hhead', hsecond, hagain', -, -, -⟩ := Document.exists_markup_indented hblank
    ⟨hversion, hencoding⟩ hagain hdoctype'
    (fun hlooks => by rw [String.toList_ofList, hnarrow] at hlooks; cases hlooks)
  rw [hsettled.laidOut_eq] at hagain'
  obtain ⟨_, _, _, _, haccepted, _⟩ := readDocument_ok hagain
  have hthird := haccepted.render_normal hdoctype' hhead' true
  refine ⟨_, _, Builder.reformatted_eq hread hfirst, Builder.reformatted_eq hagain hsecond,
    Builder.reformatted_eq hagain' hthird, fun hnewline => ?_⟩
  have hsame := hhead.render_filled hfilled (haccepted.allPrintable hdoctype') true
  rw [hfeed hnewline] at hsame
  exact Except.ok.inj (hsecond.symm.trans hsame)

/-- Lines that end with a carriage return, around a comment and inside elements with and without
text. -/
theorem reformatting_settles_with_returns :
  let reformatted := Builder.reformatted { layout := .checked { indent := "\t", newline := "\r" } }
  ∃ first second, reformatted
      "<?xml version='1.0'?><!--head--><a xmlns='u'><b/><c>x<d/></c><e xmlns=''/></a>" = .ok first
    ∧ reformatted first = .ok second ∧ reformatted second = .ok second
  := by
  intro reformatted
  let layout : Layout := { indent := "\t", newline := "\r" }
  let settings : Settings := { layout := .checked layout }
  let d : Document := ⟨some ⟨some (.text "1.0"), none, none⟩, [.comment "head",
    .element ⟨"a", some "u", by decide, none⟩ [] [.element ⟨"b", some "u", by decide, none⟩ [] [],
      .element ⟨"c", some "u", by decide, none⟩ []
        [.text "x", .element ⟨"d", some "u", by decide, none⟩ [] []],
      .element ⟨"e", none, by decide, none⟩ [] []]]⟩
  have hread : readDocument (.text
      "<?xml version='1.0'?><!--head--><a xmlns='u'><b/><c>x<d/></c><e xmlns=''/></a>") = .ok d := rfl
  obtain ⟨b, hb, -, hdocument⟩ := Builder.ofSource_document settings hread
  have hlayout : Layout.check (.str "\t") (.str "\r") (.str "1.0") (.str "utf-8") = .ok layout := rfl
  obtain ⟨first, second, hfirst, hsecond, hthird, -⟩ := reformatting_settles hlayout hb
    (by rw [hdocument]; rfl) (fun hlooks => absurd hlooks (by decide))
  exact ⟨first, second, hfirst, hsecond, hthird⟩

/-- A sign that is a letter in a text that looks like octets is none in the text that is written. -/
theorem reformatting_stops_at_sign :
  let markup := "<\x00<ª\x00/\x00>\x00"
  ((Builder.ofSource {} (.text markup)).2.toOption.any fun b => b.draft.document.doctype?.isNone)
    ∧ (Builder.reformatted {} markup).toOption = some "<숼ª />"
    ∧ (Builder.reformatted {} "<숼ª />").toOption = none
  := by
  decide +kernel

end XmlDraft
