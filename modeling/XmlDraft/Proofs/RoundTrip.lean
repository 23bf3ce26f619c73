import XmlDraft.Building.Loading
import XmlDraft.Proofs.Documents
import XmlDraft.Proofs.Soundness

/-!
# Sessions and what is read of them

What a session builds is sound, so that its markup can be read if its strings are legible.  The
writer escapes carriage returns in text and in values and leaves them as they are in comments
and CDATA sections, where a reader takes them for ends of lines; and it joins start tags and
prints end tags, which tells the members of enumerations apart from their texts.  Main statement:
where no name and no comment is such a member and no comment and no CDATA section holds a
carriage return, the markup of a session is read as the normal form of its document, and just
then it is written again as it was.
-/

namespace XmlDraft

namespace Document

/-- A legible and plain document with sound nodes, a root and no document type can be read from its
markup. -/
theorem isReadable_of_sound {d : Document} (hsound : Node.AreTopSound d.children)
    (hroot : d.root?.isSome) (hdoctype : d.doctype? = none) (hlegible : d.isLegible)
    (hplain : d.isPlain) :
  d.IsReadable
  := by
  obtain ⟨before, root, after, hsplit, helement, hcomments, hnodes⟩ := hsound.split hroot hdoctype
  rw [isLegible, Bool.and_eq_true, List.all_eq_true] at hlegible
  rw [isPlain, List.all_eq_true] at hplain
  exact ⟨hlegible.1, fun m hm => ⟨⟨hlegible.2 m hm, hplain m hm⟩, hnodes m hm⟩,
    before, root, after, hsplit, helement, hcomments⟩

end Document

/-- The layout of the settings that builders have by default. -/
def standardLayout : Layout :=
  { indent := "  ", newline := "\r\n" }

theorem isStandard_standardLayout :
  Writing.IsStandard standardLayout
  := ⟨rfl, rfl⟩

namespace Builder

/-- The encoding of a document with a legible declaration can be selected. -/
theorem select_legible {declaration : Option Declaration}
    (h : declaration.all Declaration.isLegible) :
  ∃ encoding, OutputEncoding.select declaration = .ok encoding
  := by
  cases declaration with
  | none => exact ⟨_, rfl⟩
  | some d =>
      obtain ⟨version, encoding, standalone⟩ := d
      rw [Option.all_some, Declaration.isLegible, Bool.and_eq_true, Bool.and_eq_true] at h
      have hencoding := h.1.2
      cases encoding with
      | none => exact ⟨_, rfl⟩
      | some f =>
          cases f with
          | text s => exact ⟨_, rfl⟩
          | member s printed => exact ⟨_, rfl⟩
          | flag b => cases hencoding
          | whole n => cases hencoding
          | other printed isEmpty => cases hencoding

theorem select_filled {declaration : Option Declaration}
    (h : declaration.all Declaration.isLegible) :
  ∃ encoding, OutputEncoding.select (declaration.map Declaration.filled) = .ok encoding
  := by
  cases declaration with
  | none => exact ⟨_, rfl⟩
  | some d =>
      obtain ⟨version, encoding, standalone, -, hfilled, -⟩ :=
        Writing.declarationText_legible isStandard_standardLayout h
      rw [Option.map_some, hfilled]
      exact ⟨_, rfl⟩

/-- A builder writes the markup of its document, if the encoding can be selected. -/
theorem render_document {b : Builder} {layout : Layout} {indented : Bool} {text : String}
    (hlayout : b.settings.layout = .checked layout)
    (hencoding : ∃ encoding, OutputEncoding.select b.draft.document.declaration = .ok encoding)
    (htext : b.draft.document.render layout indented = .ok text) :
  (b.render indented).2 = .ok text
  := by
  obtain ⟨encoding, hencoding⟩ := hencoding
  simp only [render, written, hlayout, layoutOf, htext, hencoding, Except.mapError, bind,
    Except.bind]

/-- Writing a document leaves it as it is. -/
theorem render_draft (b : Builder) (indented : Bool) :
  (b.render indented).1.draft = b.draft
  := by
  unfold render
  split <;> rfl

theorem settings_runSteps (steps : List Step) (settings : Settings) :
  (({ settings := settings } : Builder).runSteps steps).1.settings = settings
  := by
  have hrun := (Site.top settings).runSteps_eq (Site.top_fits settings) {} steps
  have hbuilder : ({ settings := settings } : Builder) = (Site.top settings).builder {} := rfl
  rw [hbuilder, hrun]
  rfl

/-- A builder writes the octets of its text in the encoding of its document. -/
theorem renderOctets_eq {b : Builder} {indented : Bool} {encoding : OutputEncoding}
    {text : String} (hencoding : OutputEncoding.select b.draft.document.declaration = .ok encoding)
    (htext : (b.render indented).2 = .ok text) :
  (b.renderOctets indented).2 = .ok (encoding.encode text.toList)
  := by
  simp only [renderOctets, Builder.encoding, hencoding, Except.mapError, htext, Except.map]

/-- The builder of a document that is read. -/
theorem ofSource_document (settings : Settings) {source : Source} {d : Document}
    (h : readDocument source = .ok d) :
  ∃ b, (ofSource settings source).2 = .ok b ∧ b.settings = settings ∧ b.draft.document = d
  := by
  unfold ofSource
  rw [h]
  exact ⟨_, rfl, rfl, rfl⟩

end Builder

/-! ### Sessions -/

section

variable (steps : List Step) {b : Builder} (hb : (({} : Builder).runSteps steps).1 = b)
    (hroot : b.draft.document.root?.isSome) (hdoctype : b.draft.document.doctype? = none)
    (hlegible : b.draft.document.isLegible) (hplain : b.draft.document.isPlain)

include hb hroot hdoctype hlegible hplain

theorem session_isReadable :
  b.draft.document.IsReadable
  := by
  have hsound := Site.session_sound {} steps
  rw [hb] at hsound
  exact Document.isReadable_of_sound hsound hroot hdoctype hlegible hplain

theorem session_render {head : List Char}
    (hhead : Writing.IsHead standardLayout b.draft.document.declaration head) :
  (b.render false).2
    = .ok (String.ofList (head ++ Writing.compactList none b.draft.document.children))
  := by
  have hreadable := session_isReadable steps hb hroot hdoctype hlegible hplain
  have hsettings := Builder.settings_runSteps steps {}
  rw [hb] at hsettings
  exact Builder.render_document (by rw [hsettings]; rfl)
    (Builder.select_legible hreadable.declaration) (hreadable.rewrite hhead).1

end

/-- The markup of a session in which no name and no comment is a member of an enumeration is read as
the normal form of its document. -/
theorem sessions_read_back (steps : List Step) {b : Builder}
    (hb : (({} : Builder).runSteps steps).1 = b) (hroot : b.draft.document.root?.isSome)
    (hdoctype : b.draft.document.doctype? = none) (hlegible : b.draft.document.isLegible)
    (hplain : b.draft.document.isPlain) (hkept : b.draft.document.keepsLines) :
  ∃ text, (b.render false).2 = .ok text ∧ readDocument (.text text) = .ok b.draft.document.normal
  := by
  have hreadable := session_isReadable steps hb hroot hdoctype hlegible hplain
  obtain ⟨head, hhead⟩ := Writing.exists_head isStandard_standardLayout hreadable.declaration
  have hnodes : ∀ m ∈ Node.nodesList b.draft.document.children, m.keepsLines := by
    simpa [Document.keepsLines, Document.nodes] using hkept
  refine ⟨_, session_render steps hb hroot hdoctype hlegible hplain hhead, ?_⟩
  rw [hreadable.read hhead, Document.unified, Node.unifiedList_eq hnodes]

/-- A feed with adjacent texts, an end of a section within a section, and a namespace that is
inherited. -/
theorem session_of_feed_read_back :
  let inner : List Step := [.call "Text" [.str "a\r\n"] [], .call "Text" [.str "<b>"] [],
    .call "CData" [.str "]]>]]>"] [], .call "e" [.mapping [(.str "x", .str "\t\"&")]] []]
  let attributes : Value := .mapping [(.str "xmlns", .str "urn:x"), (.str "y", .int 7)]
  let steps : List Step := [.call "Declaration" [] [], .call "Comment" [.str "head"] [],
    .call "feed" [attributes, .function [] inner] []]
  let b := (({} : Builder).runSteps steps).1
  ∃ text, (b.render false).2 = .ok text ∧ readDocument (.text text) = .ok b.draft.document.normal
  := by
  intro inner attributes steps b
  obtain ⟨hroot, hdoctype, hlegible, hplain, hkept⟩ : b.draft.document.root?.isSome
      ∧ b.draft.document.doctype? = none ∧ b.draft.document.isLegible
      ∧ b.draft.document.isPlain ∧ b.draft.document.keepsLines := by
    decide +kernel
  exact sessions_read_back steps rfl hroot hdoctype hlegible hplain hkept

/-- An element named by a member of an enumeration: its start tag is joined and shows the text of
the member, its end tag is printed and shows the name of the member, so that they do not match. -/
theorem session_of_member_unread :
  let steps : List Step := [.call "Tag" [.member .texts "A" (.str "x"), .str "text"] []]
  let b := (({} : Builder).runSteps steps).1
  b.draft.document.root?.isSome ∧ b.draft.document.doctype? = none
    ∧ b.draft.document.isLegible ∧ b.draft.document.keepsLines
    ∧ (b.render false).2.toOption = some "<x>text</E.A>"
    ∧ readDocument (.text "<x>text</E.A>")
      = .error (.unreadable (.malformed .mismatchedTag ⟨1, 9⟩))
  := ⟨rfl, rfl, rfl, rfl, rfl, rfl⟩

/-- The markup of a session in which no name and no comment is a member of an enumeration is written
again with unified ends of lines, which is as it was just if no comment and no CDATA section holds a
carriage return. -/
theorem sessions_rewritten (steps : List Step) {b : Builder}
    (hb : (({} : Builder).runSteps steps).1 = b) (hroot : b.draft.document.root?.isSome)
    (hdoctype : b.draft.document.doctype? = none) (hlegible : b.draft.document.isLegible)
    (hplain : b.draft.document.isPlain) :
  ∃ text b', (b.render false).2 = .ok text ∧ (Builder.ofSource {} (.text text)).2 = .ok b'
    ∧ (b'.render false).2 = .ok (Node.unifiedText text)
    ∧ ((b'.render false).2 = .ok text ↔ b.draft.document.keepsLines)
  := by
  have hreadable := session_isReadable steps hb hroot hdoctype hlegible hplain
  obtain ⟨head, hhead⟩ := Writing.exists_head isStandard_standardLayout hreadable.declaration
  obtain ⟨b', hb', hsettings, hdocument⟩ := Builder.ofSource_document {} (hreadable.read hhead)
  have hagain : (b'.render false).2
      = .ok (String.ofList (Text.unifyLines (head ++ Writing.compactList none
          b.draft.document.children))) := by
    apply Builder.render_document (by rw [hsettings])
    · rw [hdocument]
      exact Builder.select_filled hreadable.declaration
    · rw [hdocument]
      exact (hreadable.rewrite hhead).2
  refine ⟨_, b', session_render steps hb hroot hdoctype hlegible hplain hhead, hb', ?_, ?_⟩
  · rw [hagain, Node.unifiedText, String.toList_ofList]
  · rw [hagain, Except.ok.injEq, String.ofList_inj, Text.unifyLines_eq_self_iff,
      hreadable.keepsLines_iff, List.mem_append, not_or, and_iff_right hhead.kept]

/-- Carriage returns in a text and in a value, and a line feed in a comment. -/
theorem session_of_note_rewritten :
  let inner : List Step := [.call "Comment" [.str "x\ny"] [], .call "Text" [.str "x\ry"] []]
  let steps : List Step := [.call "a" [.mapping [(.str "z", .str "\r")], .function [] inner] []]
  let b := (({} : Builder).runSteps steps).1
  ∃ text b', (b.render false).2 = .ok text ∧ (Builder.ofSource {} (.text text)).2 = .ok b'
    ∧ (b'.render false).2 = .ok text
  := by
  intro inner steps b
  obtain ⟨hroot, hdoctype, hlegible, hplain, hkept⟩ : b.draft.document.root?.isSome
      ∧ b.draft.document.doctype? = none ∧ b.draft.document.isLegible
      ∧ b.draft.document.isPlain ∧ b.draft.document.keepsLines := by
    decide +kernel
  obtain ⟨text, b', htext, hbuilder, -, hagain⟩ :=
    sessions_rewritten steps (b := b) rfl hroot hdoctype hlegible hplain
  exact ⟨text, b', htext, hbuilder, hagain.mpr hkept⟩

/-- A carriage return in a comment is a line feed when the markup is written again. -/
theorem session_of_return_changed :
  let steps : List Step := [.call "a" [.function [] [.call "Comment" [.str "x\ry"] []]] []]
  let b := (({} : Builder).runSteps steps).1
  let again := (Builder.ofSource {} (.text "<a><!--x\ry--></a>")).2
  (b.render false).2.toOption = some "<a><!--x\ry--></a>"
    ∧ (again.bind fun b' => (b'.render false).2).toOption = some "<a><!--x\ny--></a>"
  := by
  intro steps b again
  let d : Document := ⟨none, [.element ⟨"a", none, by decide, none⟩ [] [.comment "x\ny"]]⟩
  have hread : readDocument (.text "<a><!--x\ry--></a>") = .ok d := rfl
  obtain ⟨b', hb', hsettings, hdocument⟩ := Builder.ofSource_document {} hread
  have hmarkup : (b'.render false).2 = .ok "<a><!--x\ny--></a>" := by
    apply Builder.render_document (by rw [hsettings])
    · rw [hdocument]
      exact ⟨_, rfl⟩
    · rw [hdocument]
      rfl
  refine ⟨rfl, ?_⟩
  simp only [again, hb', Except.bind, hmarkup, Except.toOption]

end XmlDraft
