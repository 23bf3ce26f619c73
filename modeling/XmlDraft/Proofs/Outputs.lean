import XmlDraft.Proofs.Octets
import XmlDraft.Proofs.RoundTrip

/-!
# Text and octets of a session

A document is written as a text or as octets, with indentation or without.  The octets are those of
the text in the encoding that the declaration selects.  Main statement: if the declaration names
that encoding, or none, a reader takes the same document from the octets as from the text.
-/

namespace XmlDraft

/-! ### Markup behind a head -/

/-- The markup of the nodes of a document, with indentation or without. -/
def Document.markup (d : Document) (layout : Layout) (indented : Bool) : List Char :=
  Writing.nodesText (if indented then some layout else none) false d.declaration.isSome 0 none
    d.children

namespace Writing

variable {layout : Layout} {head : List Char}

/-- A document is written behind its head. -/
theorem IsHead.render {d : Document} (hhead : IsHead layout d.declaration head)
    (hprint : allPrintableList d.children) (indented : Bool) :
  d.render layout indented = .ok (String.ofList (head ++ d.markup layout indented))
  := by
  rw [Document.render, show d = ⟨d.declaration, d.children⟩ from rfl,
    hhead.written indented _ hprint]
  rfl

/-- A document is written behind the head of the declaration that fills its own one. -/
theorem IsHead.render_filled {declaration : Option Declaration}
    (hhead : IsHead layout declaration head) {d : Document}
    (hfilled : d.declaration = declaration.map Declaration.filled)
    (hprint : allPrintableList d.children) (indented : Bool) :
  d.render layout indented = .ok (String.ofList (head ++ d.markup layout indented))
  := by
  have hdocument : d = ⟨declaration.map Declaration.filled, d.children⟩ := by rw [← hfilled]
  rw [Document.render, hdocument, hhead.filled indented _ hprint, Document.markup,
    Option.isSome_map]
  rfl

end Writing

namespace Document

open Reading (Medium)

theorem markup_compact (d : Document) (layout : Layout) :
  d.markup layout false = Writing.compactList none d.children
  := Writing.nodesText_none _ _ _ _ _

/-- Without a declaration indented markup begins a document. -/
theorem IsBare.beginsNode_markup {d : Document} {m : Medium} {before after : List Node}
    {root : Node} (h : d.IsBare m before root after) (layout : Layout)
    (hnone : d.declaration = none) :
  Reading.BeginsNode (d.markup layout true)
  := by
  rw [markup, hnone, h.children]
  exact Reading.beginsNode_indented layout h.before h.isElement h.writable after

variable {d : Document} (h : d.IsReadable) {layout : Layout}

include h

theorem IsReadable.render {head : List Char}
    (hhead : Writing.IsHead layout d.declaration head) (indented : Bool) :
  d.render layout indented = .ok (String.ofList (head ++ d.markup layout indented))
  := hhead.render (h.isRewritable Medium.isIntact_plain.toIsUsual).allPrintable.1 indented

theorem IsReadable.markup_chars (hlayout : layout.IsBlank) (indented : Bool) :
  ∀ c ∈ d.markup layout indented, Reading.isXmlChar c
  := by
  refine Writing.nodesText_chars Medium.isIntact_plain.toIsUsual ?_ _ _ _ _ _
    (h.areWritable Medium.isIntact_plain.toIsUsual)
  cases indented <;> simp [hlayout]

/-- Without a declaration the markup begins a document. -/
theorem IsReadable.beginsNode_markup (layout : Layout) (indented : Bool)
    (hnone : d.declaration = none) :
  Reading.BeginsNode (d.markup layout indented)
  := by
  cases indented with
  | true =>
      obtain ⟨before, root, after, hbare⟩ := h.exists_parts (m := {}) nofun
      exact hbare.beginsNode_markup layout hnone
  | false =>
      rw [markup_compact]
      exact (h.isRewritable Medium.isIntact_plain.toIsUsual).beginsNode

/-- The document that is read of the markup does not depend on the source, nor on its medium. -/
theorem IsReadable.read_markup (hlayout : layout.IsBlank) (indented : Bool) :
  ∃ document, ∀ {m : Medium}, m.IsIntact → ∀ {source : Source} {b : Reading.Begun},
    Reading.beginSource {} source = .ok b →
    Reading.HasBegun b m (d.declaration.map Declaration.filled) (d.markup layout indented) →
    readDocument source = .ok document
  := by
  cases indented with
  | true =>
      refine ⟨(d.laidOut layout).unified.normal, fun {m} hm _ _ hb hbegun => ?_⟩
      obtain ⟨before, root, after, hbare⟩ := h.exists_parts (m := m) (by simp [hm.divides])
      exact hbare.read_indented hlayout hm hb hbegun
  | false =>
      rw [markup_compact]
      exact ⟨d.unified.normal, fun hm _ _ hb hbegun =>
        (h.isRewritable hm.toIsUsual).read_begun_bare h.areBare hm hb hbegun⟩

end Document

/-! ### Sessions -/

theorem isBlank_standardLayout :
  standardLayout.IsBlank
  := ⟨.inl rfl, List.all_iff_forall_prop.mp (by decide)⟩

/-- A session in which no name and no comment is a member of an enumeration, and whose declaration
names the encoding of its octets, or none, is read from its octets as from its text. -/
theorem sessions_octets_read (steps : List Step) {b : Builder}
    (hb : (({} : Builder).runSteps steps).1 = b) (hroot : b.draft.document.root?.isSome)
    (hdoctype : b.draft.document.doctype? = none) (hlegible : b.draft.document.isLegible)
    (hplain : b.draft.document.isPlain)
    (hnames : b.draft.document.declaration.all Declaration.namesOutput) (indented : Bool) :
  ∃ encoding text octets document,
    OutputEncoding.select b.draft.document.declaration = .ok encoding
      ∧ (b.render indented).2 = .ok text ∧ (b.renderOctets indented).2 = .ok octets
      ∧ encoding.decode? octets = some text.toList
      ∧ readDocument (.text text) = .ok document ∧ readDocument (.octets octets) = .ok document
  := by
  have hreadable := session_isReadable steps hb hroot hdoctype hlegible hplain
  have hsettings := Builder.settings_runSteps steps {}
  rw [hb] at hsettings
  obtain ⟨head, hhead⟩ := Writing.exists_head isStandard_standardLayout hreadable.declaration
  obtain ⟨encoding, hencoding⟩ := Builder.select_legible hreadable.declaration
  let body := b.draft.document.markup standardLayout indented
  have htext : (b.render indented).2 = .ok (String.ofList (head ++ body)) :=
    Builder.render_document (by rw [hsettings]; rfl) ⟨encoding, hencoding⟩
      (hreadable.render hhead indented)
  have hoctets := Builder.renderOctets_eq hencoding htext
  rw [String.toList_ofList] at hoctets
  obtain ⟨document, hread⟩ := hreadable.read_markup isBlank_standardLayout indented
  have hbegins := hreadable.beginsNode_markup standardLayout indented
  have hkept : ∀ d ∈ b.draft.document.declaration, encoding.IsKept d := by
    intro d hd
    rw [Option.mem_def.mp hd] at hnames hencoding
    exact OutputEncoding.isKept_of_namesOutput hnames hencoding
  refine ⟨encoding, _, _, document, hencoding, htext, hoctets, ?_, ?_, ?_⟩
  · rw [String.toList_ofList]
    exact encoding.decode?_encode _
  · obtain ⟨begun, hbegun, hrest⟩ := hhead.beginSource hbegins {}
    exact hread Reading.Medium.isIntact_plain hbegun hrest
  · obtain ⟨begun, hbegun, hrest⟩ := hhead.beginSource_kept hkept hbegins
      (hreadable.markup_chars isBlank_standardLayout indented)
    exact hread encoding.isIntact_medium hbegun hrest

/-- Indented octets in UTF-16, with a comment before the root and a character of two units. -/
theorem octets_of_tune_read :
  let inner : List Step := [.call "note" [.str "𝄞 & <é>"] [], .call "rest" [] []]
  let steps : List Step := [.call "Declaration" [] [("encoding", .str "UTF-16")],
    .call "Comment" [.str "head"] [], .call "tune" [.function [] inner] []]
  let b := (({} : Builder).runSteps steps).1
  ∃ encoding text octets document,
    OutputEncoding.select b.draft.document.declaration = .ok encoding
      ∧ (b.render true).2 = .ok text ∧ (b.renderOctets true).2 = .ok octets
      ∧ encoding.decode? octets = some text.toList
      ∧ readDocument (.text text) = .ok document ∧ readDocument (.octets octets) = .ok document
  := by
  intro inner steps b
  obtain ⟨hroot, hdoctype, hlegible, hplain, hnames⟩ : b.draft.document.root?.isSome
      ∧ b.draft.document.doctype? = none ∧ b.draft.document.isLegible
      ∧ b.draft.document.isPlain
      ∧ b.draft.document.declaration.all Declaration.namesOutput := by
    decide +kernel
  exact sessions_octets_read steps (b := b) rfl hroot hdoctype hlegible hplain hnames true

/-- An element named by a member of an enumeration has tags that do not match, and neither its text
nor its octets are read. -/
theorem octets_of_member_unread :
  let steps : List Step := [.call "Tag" [.member .texts "A" (.str "x"), .str "text"] []]
  let b := (({} : Builder).runSteps steps).1
  let unread : Fault := .unreadable (.malformed .mismatchedTag ⟨1, 9⟩)
  b.draft.document.root?.isSome ∧ b.draft.document.doctype? = none
    ∧ b.draft.document.isLegible ∧ b.draft.document.declaration.all Declaration.namesOutput
    ∧ (OutputEncoding.select b.draft.document.declaration).toOption = some .utf8
    ∧ (b.render false).2.toOption = some "<x>text</E.A>"
    ∧ (b.renderOctets false).2.toOption = some (OutputEncoding.utf8.encode "<x>text</E.A>".toList)
    ∧ readDocument (.text "<x>text</E.A>") = .error unread
    ∧ readDocument (.octets (OutputEncoding.utf8.encode "<x>text</E.A>".toList)) = .error unread
  := ⟨rfl, rfl, rfl, rfl, rfl, rfl, rfl, rfl, rfl⟩

end XmlDraft
