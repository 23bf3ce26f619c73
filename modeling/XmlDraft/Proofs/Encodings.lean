import XmlDraft.Proofs.Escapes
import XmlDraft.Proofs.Octets

/-!
# Encodings that are named

The declaration of a document names an encoding in its markup, and its octets are in one.  The
name is the one that the declaration sets, or else the one of the layout; the octets go by the
declaration alone.  Main statement: octets are in the encoding that the markup names, where it names
one of the two that are written, unless the name is that of UTF-16 and was taken from the layout.
-/

namespace XmlDraft

/-! ### The name in markup -/

/-- Where no ampersand is written, no special character was escaped. -/
theorem IsEscape.plain {escape : Char → List Char} {specials : List Char}
    (h : IsEscape escape specials) {cs : List Char} (hcs : '&' ∉ cs.flatMap escape) :
  ∀ c ∈ cs, c ∉ specials
  := by
  intro c hc hspecial
  rcases h.forms c with ⟨-, hplain⟩ | ⟨body, hform, -⟩
  · exact hplain hspecial
  · exact hcs (List.mem_flatMap.mpr ⟨c, hc, hform ▸ List.mem_cons_self⟩)

namespace Writing

/-- The name of the encoding in the declaration that markup begins with: what stands between the
quotes behind the version. -/
def namedEncoding? (cs : List Char) : Option (List Char) := do
  let version ← cs.dropPrefix? "<?xml version=\"".toList
  let name ← (version.dropWhile (· ≠ '"')).dropPrefix? "\" encoding=\"".toList
  some (name.takeWhile (· ≠ '"'))

/-- A value without special characters is written as it is. -/
theorem escapeValue_eq_self {cs : List Char} (hcs : ∀ c ∈ cs, c ∉ valueSpecials) :
  escapeValue cs = cs
  := by
  have hform (c : Char) (hc : c ∈ cs) : valueEscape c = [c] := by
    have hplain := hcs c hc
    simp only [valueSpecials, textSpecials, List.cons_append, List.nil_append, List.mem_cons,
      List.not_mem_nil, or_false, not_or] at hplain
    simp [valueEscape, textEscape, hplain]
  rw [escapeValue, List.flatMap_congr hform, List.flatMap_singleton']

/-- An escaped value is taken up to the quote behind it. -/
theorem escapeValue_quote (value : String) (rest : List Char) :
  (escapeValue value.toList ++ '"' :: rest).takeWhile (· ≠ '"') = escapeValue value.toList
    ∧ (escapeValue value.toList ++ '"' :: rest).dropWhile (· ≠ '"') = '"' :: rest
  := by
  have hquote : '"' ∉ escapeValue value.toList :=
    isEscape_valueEscape.notMem (by decide) (by decide) value.toList
  exact Reading.run_append (fun _ hc => decide_eq_true fun heq => hquote (heq ▸ hc)) (by simp)

/-- What a declaration names is found in its markup, whatever follows. -/
theorem namedEncoding?_headingText (version encoding : String) (standalone : Option String)
    (rest : List Char) :
  namedEncoding? ("<?xml".toList ++ headingText version encoding standalone ++ rest)
    = some (escapeValue encoding.toList)
  := by
  let after := (standalone.map (attributeText "standalone".toList)).getD [] ++ rest
  let named := escapeValue encoding.toList ++ '"' :: after
  have hform : "<?xml".toList ++ headingText version encoding standalone ++ rest
      = "<?xml version=\"".toList
        ++ (escapeValue version.toList ++ '"' :: (" encoding=\"".toList ++ named)) := by
    simp [headingText, attributeText, named, after]
  have hencoding : '"' :: (" encoding=\"".toList ++ named) = "\" encoding=\"".toList ++ named := by
    simp
  simp only [hform, namedEncoding?, List.dropPrefix?_append_of_beq _ (beq_self_eq_true _),
    Option.bind_eq_bind, Option.bind_some]
  rw [(escapeValue_quote version _).2, hencoding,
    List.dropPrefix?_append_of_beq _ (beq_self_eq_true _), Option.bind_some,
    (escapeValue_quote encoding after).1]

/-- A field that is written is the text that is set, or else the one of the layout. -/
theorem fieldOr_cases {field : Option Field} {default' : Json} {s : String}
    (h : fieldOr field default' = .ok s) :
  (field.bind Field.text? = some s ∧ s ≠ "") ∨ ((field.all fun f => !f.counts) ∧ default' = .str s)
  := by
  have hdefault (hnone : fieldOr none default' = .ok s) : default' = .str s := by
    cases default' with
    | str s' => exact congrArg Json.str (Except.ok.inj hnone)
    | _ => cases hnone
  cases field with
  | none => exact .inr ⟨rfl, hdefault h⟩
  | some f =>
      cases hf : f.counts with
      | false =>
          have hnone : fieldOr (some f) default' = fieldOr none default' := by
            simp [fieldOr, hf]
          exact .inr ⟨by simp [hf], hdefault (hnone ▸ h)⟩
      | true =>
          cases htext : f.text? with
          | none => simp [fieldOr, hf, htext] at h
          | some s' =>
              have hset : fieldOr (some f) default' = .ok s' := by
                simp [fieldOr, hf, htext]
              obtain rfl : s' = s := Except.ok.inj (hset.symm.trans h)
              exact .inl ⟨htext, (Field.counts_iff htext).mp hf⟩

/-- A declaration is written with the texts of its fields. -/
theorem declarationText_cases {layout : Layout} {d : Declaration} {head : List Char}
    (h : declarationText layout d = .ok head) :
  ∃ version encoding standalone, fieldOr d.encoding layout.encoding = .ok encoding
    ∧ head = "<?xml".toList ++ headingText version encoding standalone ++ "?>".toList
  := by
  unfold declarationText at h
  cases hversion : fieldOr d.version layout.version with
  | error fault => simp [hversion, bind, Except.bind] at h
  | ok version =>
      cases hencoding : fieldOr d.encoding layout.encoding with
      | error fault => simp [hversion, hencoding, bind, Except.bind] at h
      | ok encoding =>
          rw [hversion, hencoding] at h
          cases hstandalone : d.standalone with
          | none =>
              refine ⟨version, encoding, none, rfl, ?_⟩
              simpa [hstandalone, bind, Except.bind, pure, Except.pure, headingText] using h.symm
          | some f =>
              cases htext : f.text? with
              | none => simp [hstandalone, htext, bind, Except.bind] at h
              | some s =>
                  refine ⟨version, encoding, some s, rfl, ?_⟩
                  simpa [hstandalone, htext, bind, Except.bind, pure, Except.pure, headingText]
                    using h.symm

end Writing

/-! ### The encoding of octets -/

/-- Whether a declaration leaves the name of its encoding to a layout that calls it UTF-16. -/
def Declaration.borrowsUtf16 (d : Declaration) (layout : Layout) : Bool :=
  d.encoding.all (fun f => !f.counts)
    && layout.encoding.text?.any fun s =>
      s.toList.map Char.toLower = OutputEncoding.utf16.name.toList

namespace OutputEncoding

/-- Markup has different octets in the two encodings. -/
theorem encode_markup_inj {e e' : OutputEncoding} {cs : List Char}
    (h : e.encode ('<' :: '?' :: cs) = e'.encode ('<' :: '?' :: cs)) :
  e = e'
  := by
  have hutf8 : utf8.encode ('<' :: '?' :: cs) = 0x3C :: 0x3F :: cs.flatMap utf8Octets := rfl
  have hutf16 : utf16.encode ('<' :: '?' :: cs)
      = 0x3C :: 0x00 :: 0x3F :: 0x00 :: cs.flatMap utf16Octets := rfl
  cases e <;> cases e' <;> simp_all

/-- A name is escaped to the name of an encoding only if it is one itself. -/
theorem escapeValue_name_iff (e : OutputEncoding) (name : String) :
  (Writing.escapeValue name.toList).map Char.toLower = e.name.toList
    ↔ name.toList.map Char.toLower = e.name.toList
  := by
  have hplain : ∀ c ∈ valueSpecials, c.toLower ∉ e.name.toList :=
    List.all_iff_forall_prop.mp (by cases e <;> decide)
  have hself (h : ∀ c ∈ name.toList, c ∉ valueSpecials) :
      Writing.escapeValue name.toList = name.toList := Writing.escapeValue_eq_self h
  constructor
  · intro h
    have hamp : '&' ∉ Writing.escapeValue name.toList := fun hmem =>
      hplain '&' (by decide) (h ▸ List.mem_map_of_mem hmem)
    rwa [hself (isEscape_valueEscape.plain hamp)] at h
  · intro h
    rwa [hself fun c hc hspecial => hplain c hspecial (h ▸ List.mem_map_of_mem hc)]

/-- The encoding of a document whose declaration sets a text is UTF-16 if the text calls it so. -/
theorem select_text {d : Declaration} {name : String}
    (h : d.encoding.bind Field.text? = some name) :
  select (some d) = .ok (if name.toList.map Char.toLower = "utf-16".toList then utf16 else utf8)
  := by
  obtain ⟨version, encoding, standalone⟩ := d
  obtain ⟨f, hf, htext⟩ := Option.bind_eq_some_iff.mp h
  obtain rfl : encoding = some f := hf
  simp only [select, htext]

/-- The encoding that is selected is the one that the written name calls, if any, unless the name is
borrowed. -/
theorem select_written {layout : Layout} {d : Declaration} {name : String}
    (h : Writing.fieldOr d.encoding layout.encoding = .ok name) :
  ∃ written, select (some d) = .ok written
    ∧ (d.borrowsUtf16 layout → written = utf8 ∧ name.toList.map Char.toLower = utf16.name.toList)
    ∧ ∀ e : OutputEncoding, name.toList.map Char.toLower = e.name.toList →
      (written = e ↔ ¬ d.borrowsUtf16 layout)
  := by
  rcases Writing.fieldOr_cases h with ⟨hset, hne⟩ | ⟨hunset, hdefault⟩
  · obtain ⟨f, hf, htext⟩ := Option.bind_eq_some_iff.mp hset
    have hown : d.borrowsUtf16 layout = false := by
      simp [Declaration.borrowsUtf16, hf, (Field.counts_iff htext).mpr hne]
    refine ⟨_, select_text hset, by simp [hown], fun e he => ?_⟩
    simp only [hown, he]
    cases e <;> simp [OutputEncoding.name]
  · have hborrows : d.borrowsUtf16 layout = true
        ↔ name.toList.map Char.toLower = utf16.name.toList := by
      simp [Declaration.borrowsUtf16, hunset, hdefault, Json.text?]
    refine ⟨utf8, (select_unnamed hunset).1, fun hb => ⟨rfl, hborrows.mp hb⟩, fun e he => ?_⟩
    rw [hborrows, he]
    cases e <;> simp [OutputEncoding.name]

end OutputEncoding

/-- The markup of a document with a declaration begins with the declaration, and its octets are
those of the markup in the encoding that is selected. -/
theorem Document.render_declared {d : Document} {layout : Layout} {declaration : Declaration}
    {indented : Bool} {text : String} (hdeclaration : d.declaration = some declaration)
    (htext : d.render layout indented = .ok text) :
  (∃ version encoding standalone body,
    Writing.fieldOr declaration.encoding layout.encoding = .ok encoding
      ∧ text.toList = "<?xml".toList ++ Writing.headingText version encoding standalone ++ body)
    ∧ ∀ e, OutputEncoding.select (some declaration) = .ok e →
      d.renderOctets layout indented = .ok (e.encode text.toList)
  := by
  have hmarkup : Writing.documentText layout indented d = .ok text.toList := by
    rw [Document.render] at htext
    cases hm : Writing.documentText layout indented d with
    | error fault => rw [hm] at htext; cases htext
    | ok cs =>
        rw [hm] at htext
        rw [← Except.ok.inj htext, String.toList_ofList]
  constructor
  · unfold Writing.documentText at hmarkup
    rw [hdeclaration] at hmarkup
    cases hhead : Writing.declarationText layout declaration with
    | error fault => simp [hhead, bind, Except.bind] at hmarkup
    | ok head =>
        obtain ⟨version, encoding, standalone, hencoding, rfl⟩ :=
          Writing.declarationText_cases hhead
        simp only [hhead, bind, Except.bind] at hmarkup
        split at hmarkup
        · cases hmarkup
        · refine ⟨version, encoding, standalone, "?>".toList ++ Writing.nodesText
            (if indented then some layout else none) false true 0 none d.children, hencoding, ?_⟩
          rw [← Except.ok.inj hmarkup, List.append_assoc, Option.isSome_some]
  · intro e he
    rw [Document.renderOctets, hdeclaration, he, hmarkup]
    rfl

/-- The markup of a document with a declaration names an encoding, and its octets are in the one of
the declaration.  Where the name is that of an encoding that is written, in any letter case, the
octets are in it, unless the declaration sets no name and the layout has that of UTF-16; then they
are in UTF-8 all the same. -/
theorem octets_in_named_encoding {d : Document} {layout : Layout} {declaration : Declaration}
    {indented : Bool} {text : String} (hdeclaration : d.declaration = some declaration)
    (htext : d.render layout indented = .ok text) :
  ∃ (name : List Char) (written : OutputEncoding), Writing.namedEncoding? text.toList = some name
    ∧ d.renderOctets layout indented = .ok (written.encode text.toList)
    ∧ (∀ e : OutputEncoding, name.map Char.toLower = e.name.toList →
      (written.encode text.toList = e.encode text.toList ↔ ¬ declaration.borrowsUtf16 layout))
    ∧ (declaration.borrowsUtf16 layout →
      name.map Char.toLower = OutputEncoding.utf16.name.toList ∧ written = .utf8)
  := by
  obtain ⟨⟨version, encoding, standalone, body, hencoding, hform⟩, hoctets⟩ :=
    d.render_declared hdeclaration htext
  obtain ⟨written, hselect, hborrows, hagrees⟩ := OutputEncoding.select_written hencoding
  refine ⟨Writing.escapeValue encoding.toList, written, ?_, hoctets written hselect, ?_, ?_⟩
  · rw [hform]
    exact Writing.namedEncoding?_headingText version encoding standalone body
  · intro e he
    rw [OutputEncoding.escapeValue_name_iff] at he
    rw [← hagrees e he]
    constructor
    · intro heq
      exact OutputEncoding.encode_markup_inj (hform ▸ heq)
    · exact fun heq => heq ▸ rfl
  · intro hb
    obtain ⟨hwritten, hname⟩ := hborrows hb
    exact ⟨(OutputEncoding.escapeValue_name_iff _ _).mpr hname, hwritten⟩

/-- A declaration that sets UTF-16 itself, in a layout that has it too. -/
theorem octets_in_named_encoding_of_own :
  let layout : Layout := { encoding := .str "utf-16" }
  let declaration : Declaration := { encoding := some (.text "UTF-16") }
  let d : Document := ⟨some declaration, [.element ⟨"a", none, by decide, none⟩ [] []]⟩
  let text := "<?xml version=\"1.0\" encoding=\"UTF-16\"?><a />"
  d.declaration = some declaration ∧ d.render layout false = .ok text
    ∧ d.renderOctets layout false = .ok (OutputEncoding.utf16.encode text.toList)
  := by
  intro layout declaration d text
  have htext : d.render layout false = .ok text := by with_unfolding_all rfl
  obtain ⟨name, written, hname, hoctets, hagrees, -⟩ := octets_in_named_encoding rfl htext
  have hnamed : Writing.namedEncoding? text.toList = some "UTF-16".toList := by decide
  obtain rfl : "UTF-16".toList = name := Option.some.inj (hnamed.symm.trans hname)
  refine ⟨rfl, htext, ?_⟩
  rw [hoctets, (hagrees .utf16 (by decide)).mpr (by decide)]

/-- A declaration that sets nothing, in a layout that has UTF-16: the markup names UTF-16 and is
written in UTF-8, so that its octets cannot be read. -/
theorem utf16_named_without_being_written :
  let layout : Layout := { encoding := .str "utf-16" }
  let d : Document := ⟨some {}, [.element ⟨"a", none, by decide, none⟩ [] []]⟩
  let text := "<?xml version=\"1.0\" encoding=\"utf-16\"?><a />"
  Layout.ofMembers [("default_encoding", .str "utf-16")] = .ok layout
    ∧ d.render layout false = .ok text
    ∧ Writing.namedEncoding? text.toList = some "utf-16".toList
    ∧ ∃ octets, d.renderOctets layout false = .ok octets
      ∧ octets = OutputEncoding.utf8.encode text.toList
      ∧ octets ≠ OutputEncoding.utf16.encode text.toList
      ∧ (readDocument (.octets octets)).isOk = false
  := by
  intro layout d text
  have htext : d.render layout false = .ok text := by with_unfolding_all rfl
  exact ⟨by with_unfolding_all rfl, htext, by decide,
    OutputEncoding.utf8.encode text.toList, (d.render_declared rfl htext).2 .utf8 rfl, rfl,
    by decide, by decide⟩

end XmlDraft
