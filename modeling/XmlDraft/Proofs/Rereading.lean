import XmlDraft.Proofs.Accepted
import XmlDraft.Proofs.Inheriting
import XmlDraft.Proofs.RoundTrip

/-!
# Documents that are read again

What a reader accepted can be written and read again, unless there is a double quote in a system
identifier, which is written between double quotes as it is.  Main statement: a document without a
document type is read again as it was, apart from the namespaces that elements inherit and the
fields of a declaration that were not set; and the markup of any document is the same when it is
read and written again, just if no comment and no CDATA section holds a carriage return.
-/

namespace XmlDraft

open Reading (Alphabet Declarations IsPlainName)

/-! ### Alphabets -/

namespace Reading

/-- The signs that count as letters only in sources whose characters beyond ASCII are taken one by
one, as those in UTF-16 are. -/
def latinSigns : List Char :=
  ['ª', 'µ', 'º']

/-- Characters that begin names in one medium begin names in another one, apart from those signs. -/
theorem isStart_of_medium {m m' : Medium} (hm : m.IsUsual) (hm' : m'.IsUsual) {c : Char}
    (hsigns : (m.alphabet.signs → m'.alphabet.signs) ∨ c ∉ latinSigns)
    (h : m.alphabet.isStart c) :
  m'.alphabet.isStart c
  := by
  simp only [latinSigns, List.mem_cons, List.not_mem_nil, or_false, not_or] at hsigns
  simp only [Alphabet.isStart, hm.divides, hm.isFifth, hm'.divides, hm'.isFifth] at h ⊢
  rcases hsigns with hsigns | hsigns
  · grind
  · simpa [hsigns] using h

/-- A name of one medium is a name of another one, unless there are those signs in it. -/
theorem isPlainName_of_medium {m m' : Medium} (hm : m.IsUsual) (hm' : m'.IsUsual)
    {name : List Char} (h : IsPlainName m.alphabet name)
    (hsigns : (m.alphabet.signs → m'.alphabet.signs) ∨ ∀ c ∈ name, c ∉ latinSigns) :
  IsPlainName m'.alphabet name
  := by
  have hchar {c : Char} (hc : c ∈ name) := hsigns.imp_right fun hnone => hnone c hc
  refine ⟨?_, fun c hc => ?_⟩
  · cases name with
    | nil => cases h.start
    | cons c cs =>
        have hstart : m.alphabet.isStart c := by simpa using h.start
        simpa using isStart_of_medium hm hm' (hchar List.mem_cons_self) hstart
  · have hinner := h.inner c hc
    simp only [Alphabet.isInner, hm.isFifth, hm'.isFifth, Bool.or_eq_true] at hinner ⊢
    rcases hinner with (((hstart | hdigit) | hhyphen) | hstop) | hother
    · exact .inl (.inl (.inl (.inl (isStart_of_medium hm hm' (hchar hc) hstart))))
    · exact .inl (.inl (.inl (.inr hdigit)))
    · exact .inl (.inl (.inr hhyphen))
    · exact .inl (.inr hstop)
    · exact .inr hother

end Reading

namespace Node

/-- Whether the names of a node hold none of the signs that count as letters in some sources
only. -/
def holdsNoSign : Node → Bool
  | .element name attributes _ =>
    (name.localPart :: attributes.map Prod.fst).all fun s =>
      s.toList.all fun c => c ∉ Reading.latinSigns
  | _ => true

mutual

/-- A node that can be written in one medium can be written in another one, unless there are those
signs in its names. -/
theorem IsWritable.inMedium {m m' : Reading.Medium} (hm : m.IsUsual) (hm' : m'.IsUsual)
    {d : Declarations} {scope : Option String} {n : Node} (h : n.IsWritable m.alphabet d scope)
    (hsigns : (m.alphabet.signs → m'.alphabet.signs) ∨ ∀ k ∈ n.nodes, k.holdsNoSign) :
  n.IsWritable m'.alphabet d scope
  := by
  cases n with
  | element name attributes children =>
      rw [forall_nodes_element] at hsigns
      obtain ⟨htag, hchildren⟩ := h
      have hnames := hsigns.imp_right And.left
      simp only [holdsNoSign, List.all_cons, Bool.and_eq_true, List.all_map, List.all_eq_true,
        Function.comp_apply, decide_eq_true_eq] at hnames
      refine ⟨⟨?_, ?_, htag.nodup, htag.space, htag.own⟩,
        AreWritable.inMedium hm hm' hchildren (hsigns.imp_right And.right)⟩
      · exact Reading.isPlainName_of_medium hm hm' htag.plain (hnames.imp_right And.left)
      intro p hp
      have hread := htag.read p hp
      refine ⟨Reading.isPlainName_of_medium hm hm' hread.name ?_, hread.value, hread.typed⟩
      refine hnames.imp_right fun hnames => ?_
      rw [Writing.tagAttributes, List.mem_append] at hp
      rcases hp with hp | hp
      · exact hnames.2 p hp
      · obtain ⟨uri, _, rfl⟩ := List.mem_map.mp hp
        have hletters : ∀ c ∈ "xmlns".toList, c ∉ Reading.latinSigns :=
          List.all_iff_forall_prop.mp (by decide)
        dsimp only
        exact hletters
  | text value => exact h
  | cdata value => exact h
  | comment value => exact h
  | doctype t => exact h

theorem AreWritable.inMedium {m m' : Reading.Medium} (hm : m.IsUsual) (hm' : m'.IsUsual)
    {d : Declarations} {scope : Option String} {ns : List Node}
    (h : AreWritable m.alphabet d scope ns)
    (hsigns : (m.alphabet.signs → m'.alphabet.signs) ∨ ∀ k ∈ nodesList ns, k.holdsNoSign) :
  AreWritable m'.alphabet d scope ns
  := by
  cases ns with
  | nil => trivial
  | cons n ns =>
      rw [forall_nodesList_cons] at hsigns
      exact ⟨IsWritable.inMedium hm hm' h.1 (hsigns.imp_right And.left),
        AreWritable.inMedium hm hm' h.2 (hsigns.imp_right And.right)⟩

end

end Node

/-! ### What was accepted -/

namespace Document

/-- The document as it is read again: elements without a namespace are in the one around them, and
the version and the encoding of the declaration are set. -/
def inherited (d : Document) : Document where
  declaration := d.declaration.map Declaration.filled
  children := Node.inheritList none d.children

/-- Without a document type there is no system identifier, and so no double quote in one. -/
theorem areUnquoted_of_bare {d : Document} (h : d.doctype? = none) :
  Reading.AreUnquoted d.children
  := by
  intro t s ht
  rw [doctype?, List.findSome?_eq_none_iff] at h
  cases h _ ht

/-- Without a document type there is no internal subset. -/
theorem areBare_of_doctype? {d : Document} (h : d.doctype? = none) :
  Reading.AreBare d.children
  := by
  intro t ht
  rw [doctype?, List.findSome?_eq_none_iff] at h
  cases h _ ht

section Accepted

variable {m : Reading.Medium} {declarations : Declarations} {front others : List Node}
    {d : Document} (h : d.IsAccepted m declarations front others)

include h

/-- Every node of a document that was accepted is as reading leaves it. -/
theorem IsAccepted.isAsRead :
  ∀ n ∈ d.nodes, n.IsAsRead declarations
  := by
  have hnotes {ns : List Node} (hns : ∀ n ∈ ns, n.IsNote) :
      ∀ n ∈ Node.nodesList ns, n.IsAsRead declarations := by
    intro n hn
    obtain ⟨k, hk, hn⟩ := Node.mem_nodesList.mp hn
    have hnote := hns k hk
    obtain ⟨value, rfl⟩ := hnote.exists_comment
    rw [Node.nodes, List.mem_singleton] at hn
    subst hn
    exact hnote.2.2
  rw [nodes, h.children, Node.nodesList_append, List.forall_mem_append]
  refine ⟨?_, h.others.read⟩
  cases h.front with
  | bare hns => exact hnotes hns
  | typed hbefore hafter _ _ =>
      rw [Node.nodesList_append, List.forall_mem_append, Node.forall_nodesList_cons]
      exact ⟨hnotes hbefore, by simp [Node.nodes, Node.IsAsRead], hnotes hafter⟩

/-- Without a document type only comments stand before the root, and nothing is declared. -/
theorem IsAccepted.bare (hdoctype : d.doctype? = none) :
  (∀ n ∈ front, n.IsNote)
    ∧ declarations = { standalone := d.declaration.any Declaration.standsAlone }
  := by
  rw [doctype?, List.findSome?_eq_none_iff] at hdoctype
  have hfront := h.front
  have hchildren := h.children
  generalize d.declaration.any Declaration.standsAlone = standalone at hfront ⊢
  cases hfront with
  | bare hnotes => exact ⟨hnotes, rfl⟩
  | @typed before after t _ hbefore hafter hchars hretold =>
      cases hdoctype (.doctype t) (by simp [hchildren])

/-- What stands behind the front of a document that was accepted is its root with comments around
it. -/
theorem IsAccepted.exists_root :
  ∃ before root after, others = before ++ root :: after ∧ root.isElement
    ∧ Reading.AreComments before ∧ Reading.AreComments after
  := by
  obtain ⟨n, hn, helement⟩ : ∃ n ∈ others, n.isElement := by
    have hroot := h.root
    rw [root?, List.find?_isSome] at hroot
    obtain ⟨n, hn, helement⟩ := hroot
    rw [h.children, List.mem_append] at hn
    refine ⟨n, hn.resolve_left fun hn => ?_, helement⟩
    rw [h.front.isElement_eq_false n hn] at helement
    cases helement
  have hone : (others.filter Node.isElement).length ≤ 1 := by
    have hone := h.ordered.root
    rw [h.children, List.filter_append, List.length_append] at hone
    omega
  obtain ⟨before, root, after, rfl, hroot, hothers⟩ := Node.exists_root ⟨n, hn, helement⟩ hone
  have hcomment (k : Node) (hk : k ∈ before ++ after) :
      ∃ value : String, k = .comment value ∧ isCharText value
        ∧ breaksComment value.toList = false := by
    have hmem : k ∈ before ++ root :: after := by
      rw [List.mem_append, List.mem_cons]
      exact (List.mem_append.mp hk).imp_right .inr
    obtain ⟨_, hwritable⟩ :=
      h.others.writable.nodes k (Node.mem_nodesList.mpr ⟨k, hmem, Node.mem_nodes k⟩)
    rcases h.ordered.others k (by simp [h.children, hmem]) with hk' | hk' | ⟨value, rfl⟩
    · exact absurd hk' hwritable.not_doctype
    · rw [hothers k hk] at hk'
      cases hk'
    · obtain ⟨htext, hmember⟩ := hwritable
      exact ⟨value.text, by rw [← hmember], htext⟩
  exact ⟨before, root, after, rfl, hroot, fun k hk => hcomment k (List.mem_append_left _ hk),
    fun k hk => hcomment k (List.mem_append_right _ hk)⟩

/-- A document that was accepted is written and read again wherever its nodes can be written. -/
theorem IsAccepted.isRewritable {m' : Reading.Medium} (hquotes : Reading.AreUnquoted d.children)
    (hfront : Reading.IsFront m' (d.declaration.any Declaration.standsAlone) front declarations)
    (hothers : Node.AreWritable m'.alphabet declarations none others) :
  d.IsRewritable m'
  := by
  obtain ⟨before, root, after, rfl, hroot, hbefore, hafter⟩ := h.exists_root
  have hunquoted : Reading.AreUnquoted front := fun t s ht =>
    hquotes t s (by simp [h.children, ht])
  exact ⟨h.declaration, declarations, front, before, root, after, h.children, hfront, hunquoted,
    hbefore, hroot, (Node.areWritable_append.mp hothers).2.1, hafter⟩

/-- Without a document type that is in every medium, unless there are signs in its names that are
letters in some media only. -/
theorem IsAccepted.isRewritable_bare {m' : Reading.Medium} (hm' : m'.IsUsual)
    (hdoctype : d.doctype? = none)
    (hsigns : (m.alphabet.signs → m'.alphabet.signs) ∨ ∀ n ∈ d.nodes, n.holdsNoSign) :
  d.IsRewritable m'
  := by
  obtain ⟨hnotes, hdeclarations⟩ := h.bare hdoctype
  rw [nodes, h.children, Node.nodesList_append, List.forall_mem_append] at hsigns
  exact h.isRewritable (areUnquoted_of_bare hdoctype) (hdeclarations ▸ .bare hnotes)
    (h.others.writable.inMedium h.usual hm' (hsigns.imp_right And.right))

/-- Without a document type nothing but namespaces and the fields of the declaration is brought into
normal form. -/
theorem IsAccepted.unified_normal (hdoctype : d.doctype? = none) :
  d.unified.normal = d.inherited
  := by
  have hentities : declarations.entities = [] := by rw [(h.bare hdoctype).2]
  rw [normal, unified, inherited, Node.normalList_unified_eq hentities none h.isAsRead]

end Accepted

/-- A document that was read can be written and read again, unless there is a double quote in its
system identifier.  Of a text that looks like octets in UTF-16 only documents without a document
type are considered, and names without the signs that are letters there. -/
theorem isRewritable_of_read {markup : String} {d : Document}
    (h : readDocument (.text markup) = .ok d) (hquotes : Reading.AreUnquoted d.children)
    (hwide : Reading.looksWide markup.toList →
      d.doctype? = none ∧ ∀ m ∈ d.nodes, m.holdsNoSign) :
  d.IsRewritable {}
  := by
  obtain ⟨m, declarations, front, others, haccepted, hplain, _⟩ := readDocument_ok h
  cases hlooks : Reading.looksWide markup.toList with
  | false =>
      obtain rfl := hplain markup rfl hlooks
      exact haccepted.isRewritable hquotes haccepted.front haccepted.others.writable
  | true =>
      obtain ⟨hdoctype, hsigns⟩ := hwide hlooks
      exact haccepted.isRewritable_bare Reading.Medium.isIntact_plain.toIsUsual hdoctype
        (.inr hsigns)

end Document

/-- A document without a document type is written, and read again with the namespaces that its
elements inherit, which are the ones that they had just if no element in a namespace holds an
element without one. -/
theorem documents_read_again {markup : String} {d : Document}
    (h : readDocument (.text markup) = .ok d) (hdoctype : d.doctype? = none)
    (hwide : Reading.looksWide markup.toList → ∀ m ∈ d.nodes, m.holdsNoSign) :
  ∃ text, d.render standardLayout false = .ok text ∧ readDocument (.text text) = .ok d.inherited
    ∧ (d.inherited.children = d.children ↔ ∀ m ∈ d.nodes, m.KeepsSpaces)
  := by
  obtain ⟨m, declarations, front, others, haccepted, _⟩ := readDocument_ok h
  have hread := haccepted.isAsRead
  have hrewritable := Document.isRewritable_of_read h (Document.areUnquoted_of_bare hdoctype)
    fun hlooks => ⟨hdoctype, hwide hlooks⟩
  obtain ⟨head, hhead⟩ := Writing.exists_head isStandard_standardLayout hrewritable.declaration
  refine ⟨_, (hrewritable.rewrite hhead).1, ?_, ?_⟩
  · rw [hrewritable.read_bare (Document.areBare_of_doctype? hdoctype) hhead,
      haccepted.unified_normal hdoctype]
  · exact (Node.inheritList_eq_iff none hread).trans (by simp [Document.nodes])

/-- A feed with a namespace that is declared and inherited, references, and character data of both
kinds. -/
theorem document_of_feed_read_again :
  let entry : Node := .element ⟨"entry", some "urn:x", by decide, none⟩ [("y", "\n\"")]
    [.text "<a>", .cdata "]]", .text "b"]
  let d : Document :=
    ⟨none, [.comment "head", .element ⟨"feed", some "urn:x", by decide, none⟩ [] [entry]]⟩
  ∃ text, d.render standardLayout false = .ok text ∧ readDocument (.text text) = .ok d.inherited
    ∧ d.inherited.children = d.children
  := by
  intro entry d
  have hread : readDocument (.text ("<!--head--><feed xmlns='urn:x'><entry y='&#10;&quot;'>&lt;a>"
      ++ "<![CDATA[]]]]>b</entry></feed>")) = .ok d := rfl
  obtain ⟨text, htext, hagain, hkeeps⟩ :=
    documents_read_again hread rfl (fun hlooks => absurd hlooks (by decide))
  refine ⟨text, htext, hagain, hkeeps.mpr ?_⟩
  simp [d, entry, Document.nodes, Node.nodesList, Node.nodes, Node.KeepsSpaces, Node.HasSpace]

/-- An element that resets the namespace around it is read again in that namespace, the version of a
declaration that is empty is set, and a sign that is a letter in a text that looks like octets
cannot be read again. -/
theorem documents_changed_again :
  let inner (space : Option String) : Node := .element ⟨"b", space, by decide, none⟩ [] []
  let outer (space : Option String) : Document :=
    ⟨none, [.element ⟨"a", some "u", by decide, none⟩ [] [inner space]]⟩
  let versioned (version : String) (encoding : Option Field) : Document :=
    ⟨some ⟨some (.text version), encoding, none⟩, [.element ⟨"a", none, by decide, none⟩ [] []]⟩
  let signed := (readDocument (.text "<\x00<ª\x00/\x00>\x00")).toOption
  (readDocument (.text "<a xmlns=\"u\"><b xmlns=\"\"/></a>") = .ok (outer none)
      ∧ (outer none).render standardLayout false = .ok "<a xmlns=\"u\"><b /></a>"
      ∧ readDocument (.text "<a xmlns=\"u\"><b /></a>") = .ok (outer (some "u")))
    ∧ (readDocument (.text "<?xml version=\"\"?><a/>") = .ok (versioned "" none)
      ∧ (versioned "" none).render standardLayout false
        = .ok "<?xml version=\"1.0\" encoding=\"utf-8\"?><a />"
      ∧ readDocument (.text "<?xml version=\"1.0\" encoding=\"utf-8\"?><a />")
        = .ok (versioned "1.0" (some (.text "utf-8"))))
    ∧ (signed.bind fun d => (d.render standardLayout false).toOption) = some "<숼ª />"
      ∧ (readDocument (.text "<숼ª />")).toOption.isNone
  := by
  intro inner outer versioned signed
  refine ⟨⟨rfl, rfl, rfl⟩, ⟨rfl, rfl, rfl⟩, ?_⟩
  decide +kernel

namespace Builder

/-- The builder of a document that was read holds the document, and has the settings that it was
given. -/
theorem ofSource_ok {settings : Settings} {source : Source} {b : Builder}
    (h : (ofSource settings source).2 = .ok b) :
  readDocument source = .ok b.draft.document ∧ b.settings = settings
  := by
  obtain ⟨d, hread, rfl⟩ := Reading.map_ok h
  exact ⟨hread, rfl⟩

end Builder

/-- The markup of a document that was read is read as a document again, and it is the same when that
document is written, just if no comment and no CDATA section holds a carriage return.  A document
with an internal subset may be refused instead, if the replacement texts that it declares are too
long for its markup. -/
theorem documents_rewritten {markup : String} {b : Builder}
    (hb : (Builder.ofSource {} (.text markup)).2 = .ok b)
    (hquotes : Reading.AreUnquoted b.draft.document.children)
    (hwide : Reading.looksWide markup.toList →
      b.draft.document.doctype? = none ∧ ∀ m ∈ b.draft.document.nodes, m.holdsNoSign) :
  ∃ text, (b.render false).2 = .ok text
    ∧ ((∃ b', (Builder.ofSource {} (.text text)).2 = .ok b'
        ∧ ((b'.render false).2 = .ok text ↔ b.draft.document.keepsLines))
      ∨ ¬ Reading.AreBare b.draft.document.children ∧ ∃ place,
        (Builder.ofSource {} (.text text)).2
          = .error (.unreadable (.malformed .amplification place)))
  := by
  obtain ⟨hread, hsettings⟩ := Builder.ofSource_ok hb
  have hrewritable := Document.isRewritable_of_read hread hquotes hwide
  obtain ⟨head, hhead⟩ := Writing.exists_head isStandard_standardLayout hrewritable.declaration
  obtain ⟨htext, hagain⟩ := hrewritable.rewrite hhead
  have hfirst := Builder.render_document (b := b) (by rw [hsettings]; rfl)
    (Builder.select_legible hrewritable.declaration) htext
  refine ⟨_, hfirst, (hrewritable.read hhead).imp (fun hread => ?_) fun ⟨hbare, place, hcut⟩ => ?_⟩
  swap
  · exact ⟨hbare, place, by rw [Builder.ofSource, hcut]; rfl⟩
  obtain ⟨b', hb', hsettings', hdocument⟩ := Builder.ofSource_document {} hread
  have hsecond := Builder.render_document (b := b') (by rw [hsettings'])
    (by rw [hdocument]; exact Builder.select_filled hrewritable.declaration)
    (by rw [hdocument]; exact hagain)
  refine ⟨b', hb', ?_⟩
  rw [hsecond, Except.ok.injEq, String.ofList_inj, List.append_cancel_left_eq]
  exact hrewritable.keepsLines_iff

/-- A document with a declaration of its type, of which an entity is replaced. -/
theorem document_of_note_rewritten :
  ∃ b text b', (Builder.ofSource {} (.text
      "<!DOCTYPE a PUBLIC 'p' 'u' [<!ENTITY e \"x\">]><a b='1'>&e;</a>")).2 = .ok b
    ∧ (b.render false).2 = .ok text ∧ (Builder.ofSource {} (.text text)).2 = .ok b'
    ∧ (b'.render false).2 = .ok text
  := by
  let t : Doctype := ⟨"a", some (.text "p"), some (.text "u"), some (.text "<!ENTITY e \"x\">")⟩
  let d : Document :=
    ⟨none, [.doctype t, .element ⟨"a", none, by decide, none⟩ [("b", "1")] [.text "x"]]⟩
  have hread : readDocument (.text
      "<!DOCTYPE a PUBLIC 'p' 'u' [<!ENTITY e \"x\">]><a b='1'>&e;</a>") = .ok d := rfl
  obtain ⟨b, hb, hsettings, hdocument⟩ := Builder.ofSource_document {} hread
  have hquotes : Reading.AreUnquoted b.draft.document.children := by
    rw [hdocument]
    intro u s hu hs
    obtain rfl : u = t := by simpa [d] using hu
    cases hs
    decide
  have hlayout : b.settings.layout = .checked standardLayout := by rw [hsettings]; rfl
  have hmarkup : (b.render false).2
      = .ok "<!DOCTYPE a PUBLIC \"p\" \"u\"[<!ENTITY e \"x\">]><a b=\"1\">x</a>" :=
    Builder.render_document hlayout (by rw [hdocument]; exact ⟨_, rfl⟩)
      (by rw [hdocument]; decide +kernel)
  obtain ⟨text, htext, ⟨b', hb', hagain⟩ | ⟨-, place, hcut⟩⟩ :=
    documents_rewritten hb hquotes (fun hlooks => absurd hlooks (by decide))
  · exact ⟨b, text, b', hb, htext, hb', hagain.mpr (by rw [hdocument]; rfl)⟩
  · have hread' : readDocument (.text
        "<!DOCTYPE a PUBLIC \"p\" \"u\"[<!ENTITY e \"x\">]><a b=\"1\">x</a>") = .ok d := rfl
    rw [← Except.ok.inj (hmarkup.symm.trans htext), Builder.ofSource, hread'] at hcut
    cases hcut

/-- A double quote in a system identifier, a carriage return that an entity brings into a CDATA
section, and a sign that is a letter in a text that looks like octets. -/
theorem documents_not_rewritten :
  let rewritten (markup : String) : Option String :=
    ((Builder.ofSource {} (.text markup)).2.bind fun b => (b.render false).2).toOption
  let entity := "<!DOCTYPE a[<!ENTITY e \"<![CDATA[&#13;]]>\">]>"
  (rewritten "<!DOCTYPE a SYSTEM 'x\"y'><a/>" = some "<!DOCTYPE a SYSTEM \"x\"y\"><a />"
      ∧ rewritten "<!DOCTYPE a SYSTEM \"x\"y\"><a />" = none)
    ∧ (rewritten (entity ++ "<a>&e;</a>") = some (entity ++ "<a><![CDATA[\r]]></a>")
      ∧ rewritten (entity ++ "<a><![CDATA[\r]]></a>") = some (entity ++ "<a><![CDATA[\n]]></a>"))
    ∧ rewritten "<\x00<ª\x00/\x00>\x00" = some "<숼ª />" ∧ rewritten "<숼ª />" = none
  := by
  refine ⟨⟨?_, ?_⟩, ⟨?_, ?_⟩, ?_, ?_⟩ <;> decide +kernel

end XmlDraft
