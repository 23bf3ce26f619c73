import XmlDraft.Proofs.Layers
import XmlDraft.Proofs.Pieces
import XmlDraft.Proofs.Sequences

/-!
# How data is delivered

A reader may deliver the data of one event in pieces, as it comes, and other events leave nothing in
the tree.  Main statement: the document that is put together does not depend on the pieces, its texts
stand apart and are not empty, a text goes on behind what leaves nothing, and each section that is
not empty is a node of its own.
-/

namespace XmlDraft

namespace Reading

open Assembly (AreWhole Hold)

variable {es : List Event}

/-- Behind the root the only layer is that at the top level. -/
theorem Assembly.Fits.layers {a : Assembly} (h : a.Fits .behind) :
  a.layers = [a.document.children]
  := by
  rw [Assembly.layers, h.2.2.opened]
  rfl

/-- In a document that is put together texts stand apart, and every node is whole. -/
theorem areWhole_document {a : Assembly} (hrun : ({} : Assembly).run es = .ok a)
    (ha : a.Fits .behind) (hdata : HasData es) :
  a.document.children.IsChain Node.StandApart ∧ ∀ n ∈ a.document.nodes, n.IsWhole
  := by
  have hempty : AreWhole ({} : Assembly).layers := by
    simp [AreWhole, Assembly.layers, Node.nodesList]
  have hwhole := Assembly.run_layers (fun h => h.areWhole) hdata hrun hempty
  rw [ha.layers] at hwhole
  exact hwhole _ List.mem_cons_self

/-- The CDATA nodes of a document that is put together are its sections that are not empty. -/
theorem cdata_document {a : Assembly} (hes : IsWellFormed es)
    (hrun : ({} : Assembly).run es = .ok a) (ha : a.Fits .behind) (hdata : HasData es) :
  a.document.nodes.filterMap Node.cdata? = filled (sections es)
  := by
  have hcdata := Proceeds.cdataOf hes Assembly.fits_empty hdata hrun ha.2.1
  rw [ha.layers, Assembly.awaited_closed rfl] at hcdata
  simpa [Assembly.cdataOf, Assembly.layers, Document.nodes, Node.nodesList] using hcdata

/-- Events that make up a text inside an element are put together like the text itself, which stands
in one node. -/
theorem text_document {a b : Assembly} {text after : List Event} {depth : Nat} {cs : List Char}
    (ha : a.Fits (.content depth)) (htext : MakesText text cs) (hne : cs ≠ [])
    (hdata : HasData (text ++ after)) (hrun : a.run (text ++ after) = .ok b)
    (hb : b.Fits .behind) :
  a.run (.characters cs :: after) = .ok b
    ∧ ∃ before behind, .text (before ++ String.ofList cs ++ behind) ∈ b.document.nodes
  := by
  obtain ⟨hfirst, hothers⟩ := hasData_append.mp hdata
  have htaken : a.run text = .ok (a.addCharacters (String.ofList cs)) := by
    rw [htext.run ha hfirst, Assembly.withText, if_neg hne]
  rw [Assembly.run_append, htaken] at hrun
  refine ⟨hrun, ?_⟩
  obtain ⟨o, others, ho⟩ := List.exists_cons_of_length_eq_add_one ha.2.opened
  have hput : Hold (String.ofList cs) (a.addCharacters (String.ofList cs)).layers := by
    simp only [Assembly.addCharacters, ha.2.closed, ho, Assembly.layers, List.map_cons,
      List.cons_append]
    exact Assembly.hold_join _ o.children _
  have hheld := Assembly.run_layers (fun h => h.hold) hothers hrun hput
  rw [hb.layers] at hheld
  obtain ⟨_, hmem, before, behind, htext⟩ := hheld
  rw [List.mem_singleton.mp hmem] at htext
  exact ⟨before, behind, htext⟩

/-- The events of a source that is read are in the order of a well-formed document, and no character
data among them is empty.  From such events a document is put together, and it is the same one
however character data, and what is told as it is written, come in pieces that are not empty.  No
two of its texts are neighbours, and none of its texts and CDATA nodes is empty.  A text inside an
element that only instructions, other markup told as it is written and empty sections come between
is put together as if it came at once, and stands in one node.  The CDATA nodes are the sections
that are not empty, one for each of them, in their order. -/
theorem delivery_immaterial :
  (∀ source es, events {} source = .ok es → IsWellFormed es ∧ HasData es)
    ∧ ∀ es, IsWellFormed es → HasData es → ∃ d, Document.ofEvents es = .ok d
      ∧ (∀ cut, Divides es cut → Document.ofEvents cut = .ok d)
      ∧ (d.children.IsChain Node.StandApart ∧ ∀ n ∈ d.nodes, n.IsWhole)
      ∧ (∀ before text after depth cs, es = before ++ (text ++ after) →
          Proceeds .beginning before (.content depth) → MakesText text cs → cs ≠ [] →
          Document.ofEvents (before ++ .characters cs :: after) = .ok d
            ∧ ∃ front behind, .text (front ++ String.ofList cs ++ behind) ∈ d.nodes)
      ∧ d.nodes.filterMap Node.cdata? = filled (sections es)
  := by
  refine ⟨fun source es h => events_isWellFormed h, fun es hes hdata => ?_⟩
  obtain ⟨b, hrun, hb, hdocument⟩ := hes.document
  have hsame {other : List Event} (hother : ({} : Assembly).run other = .ok b) :
      Document.ofEvents other = .ok b.document := by
    rw [← hdocument, Document.ofEvents, Document.ofEvents, hother, hrun]
  refine ⟨b.document, hdocument, fun cut hcut => ?_, areWhole_document hrun hb hdata, ?_,
    cdata_document hes hrun hb hdata⟩
  · exact hsame ((hcut.run hes hdata Assembly.fits_empty).trans hrun)
  · -- the text is taken where the events before it lead, which is inside an element
    rintro before text after depth cs rfl hbefore htext hne
    obtain ⟨a, hbegun, ha⟩ := hbefore.run Assembly.fits_empty
    rw [Assembly.run_append, hbegun] at hrun
    obtain ⟨hmerged, hheld⟩ := text_document ha htext hne (hasData_append.mp hdata).2 hrun hb
    refine ⟨hsame ?_, hheld⟩
    rw [Assembly.run_append, hbegun]
    exact hmerged

/-- A text around an instruction, a reference and an empty section, before a section that is not
empty; an instruction in the document type and the first characters come in two pieces each. -/
theorem delivery_in_pieces :
  ∃ es cut d, events {} (.text
        "<!DOCTYPE a [<?i?>]><a>xz<?p?>&lt;<![CDATA[]]>w<![CDATA[d]e]]></a>") = .ok es
    ∧ Divides es cut ∧ es.length = 16 ∧ cut.length = 18
    ∧ Document.ofEvents es = .ok d ∧ Document.ofEvents cut = .ok d
    ∧ (∃ front behind, .text (front ++ "xz<w" ++ behind) ∈ d.nodes)
    ∧ d.nodes.filterMap Node.cdata? = ["d]e"]
  := by
  let tag : Tag := ⟨⟨"a", none, "a"⟩, [], [], []⟩
  let before : List Event :=
    [.doctypeStart "a" none none true, .instruction "<?i?>".toList "i" "", .doctypeEnd, .start tag]
  let text : List Event :=
    [.characters ['x', 'z'], .instruction "<?p?>".toList "p" "", .characters ['<'], .cdataStart,
      .cdataEnd, .characters ['w']]
  let after : List Event :=
    [.cdataStart, .characters ['d'], .characters [']'], .characters ['e'], .cdataEnd, .finish]
  obtain ⟨hes, hdata⟩ := delivery_immaterial.1
    (.text "<!DOCTYPE a [<?i?>]><a>xz<?p?>&lt;<![CDATA[]]>w<![CDATA[d]e]]></a>")
    (before ++ (text ++ after)) rfl
  obtain ⟨d, hd, hcut, _, htext, hcdata⟩ := delivery_immaterial.2 _ hes hdata
  have hbefore : Proceeds .beginning before (.content 0) :=
    .cons (.doctypeStart _ _ _ _ rfl) (.cons (.instruction _ _ _ rfl) (.cons (.doctypeEnd _)
      (.single (.root rfl (by decide)))))
  have hmakes : MakesText text ['x', 'z', '<', 'w'] :=
    .characters ['x', 'z'] (.written rfl (.characters ['<'] (.emptySection
      (.characters ['w'] .nil))))
  have hdivides := Divides.cons (.whole (.doctypeStart "a" none none true))
    (.cons (.written (.instruction "<?i?>".toList "i" "") ["<?".toList, "i?>".toList]
        (by decide) rfl)
      (.cons (.whole .doctypeEnd) (.cons (.whole (.start tag))
        (.cons (.characters [['x'], ['z']] (by decide)) (Divides.refl (text.tail ++ after))))))
  exact ⟨_, _, d, rfl, hdivides, rfl, rfl, hd, hcut _ hdivides,
    (htext before text after 0 _ rfl hbefore hmakes (by decide)).2, hcdata⟩

end Reading

end XmlDraft
