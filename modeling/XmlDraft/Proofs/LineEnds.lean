import XmlDraft.Proofs.Lines
import XmlDraft.Proofs.Rewriting

/-!
# Ends of lines in markup

Only comments and CDATA sections hold carriage returns in markup; everywhere else they are
written as references, and names hold none.  Main statement: unifying the ends of lines in the
comments and CDATA sections of a document is unifying them in its markup, and they are unified
already just if no comment and no CDATA section holds a carriage return.
-/

namespace XmlDraft

/-! ### Sections -/

namespace Node

open Text (unifyLines unifyLines_pair unifyLines_cons unifyLines_return cons_of_unifyLines)

theorem cutSections_cons {c : Char} (h : c ≠ ']') (cs : List Char) :
  cutSections (c :: cs) = (cutSections cs).modifyHead (c :: ·)
  := by
  rw [cutSections]
  exact fun _ hc => absurd hc h

/-- Sections are cut at the same places once their lines are unified. -/
theorem cutSections_unifyLines (cs : List Char) :
  cutSections (unifyLines cs) = (cutSections cs).map unifyLines
  := by
  induction cs using cutSections.induct with
  | case1 cs ih =>
      obtain ⟨first, others, hcut, _⟩ := cutSections_spec cs
      rw [unifyLines_cons (by decide), unifyLines_cons (by decide), unifyLines_cons (by decide),
        cutSections, ih, cutSections, hcut]
      simp only [List.map_cons, unifyLines_cons (by decide : ']' ≠ '\r')]
      rfl
  | case2 c cs hends ih =>
      obtain ⟨first, others, hcut, hprefix, _⟩ := cutSections_spec cs
      have hwhole : cutSections (c :: cs) = (c :: first) :: others := by
        rw [cutSections, hcut, List.modifyHead_cons]
        exact hends
      rw [hcut] at ih
      by_cases hc : c = '\r'
      · subst hc
        cases cs with
        | nil =>
            cases hcut
            rw [hwhole]
            rfl
        | cons d ds =>
            by_cases hd : d = '\n'
            · subst hd
              -- the pair is one end of a line, which stands in the first section
              obtain ⟨f, o, hds, _⟩ := cutSections_spec ds
              rw [cutSections_cons (by decide), hds, List.modifyHead_cons, List.cons.injEq] at hcut
              obtain ⟨rfl, rfl⟩ := hcut
              have hpair : unifyLines ('\r' :: '\n' :: ds) = unifyLines ('\n' :: ds) := by
                rw [unifyLines_pair, unifyLines_cons (by decide)]
              rw [hpair, ih, hwhole, List.map_cons, List.map_cons, unifyLines_pair,
                unifyLines_cons (by decide)]
            · have hnext : ∀ more, d :: ds ≠ '\n' :: more :=
                fun more hmore => hd (List.head_eq_of_cons_eq hmore)
              have hfirst : ∀ more, first ≠ '\n' :: more := by
                rintro more rfl
                exact hd (List.cons_prefix_cons.mp hprefix).1.symm
              rw [unifyLines_return hnext, cutSections_cons (by decide), ih, hwhole, List.map_cons,
                List.map_cons, List.modifyHead_cons, unifyLines_return hfirst]
      · have hkept : ∀ more, c = ']' → unifyLines cs = ']' :: '>' :: more → False := by
          intro more hbracket hmore
          obtain ⟨rest, rfl, hrest⟩ := cons_of_unifyLines hmore (by decide)
          obtain ⟨last, rfl, _⟩ := cons_of_unifyLines hrest (by decide)
          exact hends last hbracket rfl
        rw [unifyLines_cons hc, cutSections, ih, hwhole, List.map_cons, List.map_cons,
          List.modifyHead_cons, unifyLines_cons hc]
        exact hkept
  | case3 => rfl

end Node

/-! ### Where returns stand -/

/-- A node that holds no carriage return in the names of its tags. -/
def Node.NamesKeepLines : Node → Prop
  | .element name attributes _ =>
    ('\r' ∉ name.localPart.toList ∧ '\r' ∉ name.printed.toList)
      ∧ ∀ a ∈ attributes, '\r' ∉ a.1.toList
  | _ => True

theorem return_notMem_name {s : String} (h : Name.isName s) :
  '\r' ∉ s.toList
  := by
  intro hmem
  have hreturn : Name.isInner '\r' = false := by decide
  exact Bool.false_ne_true (hreturn.symm.trans (Name.isInner_of_mem h hmem))

theorem Node.namesKeepLines_of_legible {n : Node} (h : n.isLegible) (hplain : n.isPlain) :
  n.NamesKeepLines
  := by
  cases n with
  | element name attributes children =>
      simp only [isLegible, isAsciiName, Bool.and_eq_true, List.all_eq_true] at h
      have hname := return_notMem_name h.1.1.1
      have hown : name.member = none := Option.isNone_iff_eq_none.mp hplain
      refine ⟨⟨hname, ?_⟩, fun a ha => return_notMem_name (h.2 a ha).1.1⟩
      rwa [QName.printed_eq hown]
  | _ => trivial

namespace Writing

theorem return_notMem_textEscape (c : Char) :
  '\r' ∉ textEscape c
  := by
  unfold textEscape
  split_ifs with hamp hless hgreater hreturn
  · decide
  · decide
  · decide
  · decide
  · rw [List.mem_singleton]
    exact Ne.symm hreturn

theorem return_notMem_escapeText (cs : List Char) :
  '\r' ∉ escapeText cs
  := by
  intro h
  obtain ⟨c, _, hc⟩ := List.mem_flatMap.mp h
  exact return_notMem_textEscape c hc

theorem return_notMem_escapeValue (cs : List Char) :
  '\r' ∉ escapeValue cs
  := by
  intro h
  obtain ⟨c, _, hc⟩ := List.mem_flatMap.mp h
  revert hc
  unfold valueEscape
  split_ifs
  · decide
  · decide
  · decide
  · exact return_notMem_textEscape c

theorem return_notMem_attributesText {attributes : Attributes}
    (h : ∀ a ∈ attributes, '\r' ∉ a.1.toList) :
  '\r' ∉ attributesText attributes
  := by
  induction attributes with
  | nil => simp [attributesText]
  | cons a rest ih =>
      obtain ⟨name, value⟩ := a
      rw [List.forall_mem_cons] at h
      have hvalue := return_notMem_escapeValue value.toList
      simp [attributesText, attributeText, h.1, hvalue, ih h.2]

open Text (unifyLines)
open Node (unified unifiedList)

/-- The sections of a text with unified ends of lines are its sections with unified ends of
lines. -/
theorem unifyLines_cdataSections (cs after : List Char) :
  unifyLines (cdataSections cs ++ after) = cdataSections (unifyLines cs) ++ unifyLines after
  := by
  have hsection (p rest : List Char) :
      unifyLines (cdataSection p ++ rest) = cdataSection (unifyLines p) ++ unifyLines rest := by
    unfold cdataSection
    rw [List.append_assoc, List.append_assoc, Text.unifyLines_append (by decide)]
    rw [Text.unifyLines_append_end _ _ _ (by decide) (by decide), List.append_assoc,
      List.append_assoc]
  rw [cdataSections_eq, cdataSections_eq, Node.cutSections_unifyLines]
  induction Node.cutSections cs with
  | nil => rfl
  | cons p ps ih =>
      rw [List.flatMap_cons, List.append_assoc, hsection, ih, List.map_cons, List.flatMap_cons,
        List.append_assoc]

theorem compact_comment (scope : Option String) (value : Wording) (after : List Char) :
  compact scope (.comment value) ++ after
    = "<!--".toList ++ (value.printed.toList ++ ("-->".toList ++ after))
  := by
  unfold compact
  rw [List.append_assoc, List.append_assoc]

theorem return_notMem_tags (scope : Option String) {name : QName} {attributes : Attributes}
    {children : List Node} (h : (Node.element name attributes children).NamesKeepLines) :
  '\r' ∉ tagOpening scope name attributes ∧ '\r' ∉ endTag name
  := by
  obtain ⟨⟨hname, hprinted⟩, hattributes⟩ := h
  have hgiven : ∀ a ∈ tagAttributes scope name attributes, '\r' ∉ a.1.toList := by
    intro a ha
    rw [tagAttributes, List.mem_append, List.mem_map] at ha
    rcases ha with ha | ⟨uri, _, rfl⟩
    · exact hattributes a ha
    · exact (by decide : '\r' ∉ "xmlns".toList)
  constructor
  · rw [tagOpening, List.cons_append, List.mem_cons, List.mem_append, not_or, not_or]
    exact ⟨by decide, hname, return_notMem_attributesText hgiven⟩
  · rw [endTag, List.mem_append, List.mem_append, not_or, not_or]
    exact ⟨⟨by decide, hprinted⟩, by decide⟩

mutual

/-- Unifying the ends of lines of a tree is unifying those of its markup, whatever follows. -/
theorem unifyLines_compact (scope : Option String) (n : Node) (after : List Char)
    (h : ∀ m ∈ n.nodes, m.NamesKeepLines) (hd : ∀ m ∈ n.nodes, ¬ m.isDoctype) :
  unifyLines (compact scope n ++ after) = compact scope (unified n) ++ unifyLines after
  := by
  cases n with
  | element name attributes children =>
      rw [Node.forall_nodes_element] at h hd
      obtain ⟨hopening, hend⟩ := return_notMem_tags scope h.1
      cases children with
      | nil =>
          rw [unified, unifiedList, compact_empty, List.append_assoc,
            Text.unifyLines_append hopening, Text.unifyLines_append (by decide), List.append_assoc]
      | cons c cs =>
          have hinner := unifyLines_compactList (innerScope scope name) (c :: cs)
            (endTag name ++ after) h.2 hd.2
          have hne : unifiedList (c :: cs) ≠ [] := by
            rw [unifiedList]
            exact List.cons_ne_nil _ _
          rw [unified, compact_element _ _ _ (List.cons_ne_nil c cs), compact_element _ _ _ hne,
            List.append_assoc, List.cons_append,
            List.append_assoc, Text.unifyLines_append hopening, Text.unifyLines_cons (by decide),
            hinner, Text.unifyLines_append hend, List.append_assoc, List.cons_append,
            List.append_assoc]
  | text value => exact Text.unifyLines_append (return_notMem_escapeText value.toList) after
  | cdata value =>
      rw [unified, compact, compact, unifyLines_cdataSections, Node.unifiedText_toList]
  | comment value =>
      rw [unified, compact_comment, compact_comment, Text.unifyLines_append (by decide),
        Text.unifyLines_append_end _ _ _ (by decide) (by decide), Node.printed_unifiedWording,
        Node.unifiedText_toList]
  | doctype d => exact absurd rfl (hd _ (Node.mem_nodes _))

theorem unifyLines_compactList (scope : Option String) (ns : List Node) (after : List Char)
    (h : ∀ m ∈ Node.nodesList ns, m.NamesKeepLines) (hd : ∀ m ∈ Node.nodesList ns, ¬ m.isDoctype) :
  unifyLines (compactList scope ns ++ after)
    = compactList scope (unifiedList ns) ++ unifyLines after
  := by
  cases ns with
  | nil => rfl
  | cons n ns =>
      rw [Node.forall_nodesList_cons] at h hd
      rw [unifiedList, compactList, compactList, List.append_assoc,
        unifyLines_compact scope n _ h.1 hd.1, unifyLines_compactList scope ns after h.2 hd.2,
        List.append_assoc]

end

/-! ### Lines that are kept -/

theorem mem_splitCData {c : Char} {cs : List Char} (h : c ∈ cs) :
  c ∈ splitCData cs
  := by
  induction cs using splitCData.induct with
  | case1 cs ih =>
      have hbracket : ']' ∈ dividedEnd := by decide
      have hangle : '>' ∈ dividedEnd := by decide
      rw [splitCData, List.mem_append]
      simp only [List.mem_cons] at h
      rcases h with rfl | rfl | rfl | h
      · exact .inl hbracket
      · exact .inl hbracket
      · exact .inl hangle
      · exact .inr (ih h)
  | case2 d cs hends ih =>
      rw [splitCData, List.mem_cons]
      · exact (List.mem_cons.mp h).imp_right ih
      · exact hends
  | case3 => cases h

theorem mem_attributesText {c : Char} {attributes : Attributes} {p : String × String}
    (hp : p ∈ attributes) (hc : c ∈ p.1.toList) :
  c ∈ attributesText attributes
  := by
  induction attributes with
  | nil => cases hp
  | cons q attributes ih =>
      rw [attributesText, List.mem_append]
      rcases List.mem_cons.mp hp with rfl | hp
      · left
        simp [attributeText, hc]
      · exact .inr (ih hp)

/-- The characters that are written as they are: those of the names and the values of a node in
which nothing is escaped. -/
def verbatim : Node → List Char
  | .element name attributes _ =>
    name.localPart.toList ++ attributes.flatMap fun a => a.1.toList
  | .cdata value => value.toList
  | .comment value => value.printed.toList
  | _ => []

mutual

/-- Such characters stand in the markup of a node. -/
theorem mem_compact_of_verbatim {scope : Option String} {n m : Node} (hm : m ∈ n.nodes) {c : Char}
    (hc : c ∈ verbatim m) :
  c ∈ compact scope n
  := by
  cases n with
  | element name attributes children =>
      rw [Node.nodes, List.mem_cons] at hm
      rcases hm with rfl | hm
      · have hopening : c ∈ name.localPart.toList
            ++ attributesText (tagAttributes scope name attributes) := by
          rw [attributesText_tagAttributes]
          rcases List.mem_append.mp hc with hc | hc
          · exact List.mem_append_left _ hc
          · obtain ⟨p, hp, hc⟩ := List.mem_flatMap.mp hc
            exact List.mem_append_right _ (List.mem_append_left _ (mem_attributesText hp hc))
        cases children with
        | nil =>
            rw [compact_empty, tagOpening]
            exact List.mem_append_left _ (List.mem_cons_of_mem _ hopening)
        | cons n ns =>
            rw [compact_element _ _ _ (List.cons_ne_nil n ns), tagOpening]
            exact List.mem_append_left _ (List.mem_cons_of_mem _ hopening)
      · cases children with
        | nil => cases hm
        | cons n ns =>
            rw [compact_element _ _ _ (List.cons_ne_nil n ns), List.mem_append, List.mem_cons,
              List.mem_append]
            exact .inr (.inr (.inl (mem_compactList_of_verbatim hm hc)))
  | text value =>
      rw [Node.nodes, List.mem_singleton] at hm
      subst hm
      cases hc
  | cdata value =>
      rw [Node.nodes, List.mem_singleton] at hm
      subst hm
      unfold compact cdataSections
      rw [List.mem_append, List.mem_append]
      exact .inl (.inr (mem_splitCData hc))
  | comment value =>
      rw [Node.nodes, List.mem_singleton] at hm
      subst hm
      unfold compact
      rw [List.mem_append, List.mem_append]
      exact .inl (.inr hc)
  | doctype d =>
      rw [Node.nodes, List.mem_singleton] at hm
      subst hm
      cases hc

theorem mem_compactList_of_verbatim {scope : Option String} {ns : List Node} {m : Node}
    (hm : m ∈ Node.nodesList ns) {c : Char} (hc : c ∈ verbatim m) :
  c ∈ compactList scope ns
  := by
  cases ns with
  | nil => cases hm
  | cons n ns =>
      rw [Node.nodesList, List.mem_append] at hm
      rw [compactList, List.mem_append]
      exact hm.imp (fun hm => mem_compact_of_verbatim hm hc)
        fun hm => mem_compactList_of_verbatim hm hc

end

theorem keepsLines_of_compactList {scope : Option String} {ns : List Node}
    (h : '\r' ∉ compactList scope ns) :
  ∀ m ∈ Node.nodesList ns, m.keepsLines
  := by
  intro m hm
  have hreturn : '\r' ∉ verbatim m := fun hc => h (mem_compactList_of_verbatim hm hc)
  cases m with
  | cdata value => simpa [Node.keepsLines, verbatim] using hreturn
  | comment value => simpa [Node.keepsLines, verbatim] using hreturn
  | _ => rfl

end Writing

namespace Node

theorem unifiedText_eq {s : String} (h : '\r' ∉ s.toList) :
  unifiedText s = s
  := by
  rw [unifiedText, (Text.unifyLines_eq_self_iff s.toList).mpr h, String.ofList_toList]

theorem unifiedWording_eq {w : Wording} (h : '\r' ∉ w.printed.toList) :
  unifiedWording w = w
  := by
  obtain ⟨text, _ | name⟩ := w
  · exact congrArg (fun s => (⟨s, none⟩ : Wording)) (unifiedText_eq h)
  · exact congrArg (fun s => (⟨text, some s⟩ : Wording)) (unifiedText_eq h)

mutual

theorem unified_eq {n : Node} (h : ∀ m ∈ n.nodes, m.keepsLines) :
  unified n = n
  := by
  cases n with
  | element name attributes children =>
      rw [forall_nodes_element] at h
      rw [unified, unifiedList_eq h.2]
  | text value => rfl
  | cdata value =>
      have hvalue := h _ (mem_nodes _)
      rw [unified, unifiedText_eq (by simpa [keepsLines] using hvalue)]
  | comment value =>
      have hvalue := h _ (mem_nodes _)
      rw [unified, unifiedWording_eq (by simpa [keepsLines] using hvalue)]
  | doctype d => rfl

theorem unifiedList_eq {ns : List Node} (h : ∀ m ∈ nodesList ns, m.keepsLines) :
  unifiedList ns = ns
  := by
  cases ns with
  | nil => rfl
  | cons n ns =>
      rw [forall_nodesList_cons] at h
      rw [unifiedList, unified_eq h.1, unifiedList_eq h.2]

end

end Node

end XmlDraft
