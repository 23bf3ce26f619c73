import XmlDraft.Proofs.RoundTrip

/-!
# Sections that are cut

A text that holds the end of a CDATA section is written as several sections, which are cut where
such an end stands in the text.  Whoever takes the sections apart again, each up to the first end
that follows its start, must find no end too early, though brackets of the text may stand next to
the marks.  Main statement: the sections are found as they were cut, there is one more of them than
there are ends in the text, and they make up the text; and they are read as so many nodes.
-/

namespace XmlDraft

namespace Writing

/-! ### Taking sections apart -/

open Node (cutSections)
open Reading.Surroundings (section_ne_end cdataSection_append)

/-- The contents of sections that stand one after another, if a text consists of nothing else; where
a section is open, its content so far is given.  A section ends at the first end behind its
start. -/
def contents? : Option (List Char) → List Char → Option (List (List Char))
  | none, '<' :: '!' :: '[' :: 'C' :: 'D' :: 'A' :: 'T' :: 'A' :: '[' :: cs =>
    contents? (some []) cs
  | none, [] => some []
  | none, _ => none
  | some content, ']' :: ']' :: '>' :: cs => (contents? none cs).map (content :: ·)
  | some content, c :: cs => contents? (some (content ++ [c])) cs
  | some _, [] => none

/-- The number of places at which the end of a section stands in a text; no two of them overlap. -/
def countEnds : List Char → Nat
  | ']' :: ']' :: '>' :: cs => countEnds cs + 1
  | _ :: cs => countEnds cs
  | [] => 0

theorem contents?_start (cs : List Char) :
  contents? none ('<' :: '!' :: '[' :: 'C' :: 'D' :: 'A' :: 'T' :: 'A' :: '[' :: cs)
    = contents? (some []) cs
  := rfl

theorem contents?_end (content cs : List Char) :
  contents? (some content) (']' :: ']' :: '>' :: cs) = (contents? none cs).map (content :: ·)
  := rfl

theorem contents?_cons (content : List Char) {c : Char} {cs : List Char}
    (h : ∀ rest, c :: cs ≠ ']' :: ']' :: '>' :: rest) :
  contents? (some content) (c :: cs) = contents? (some (content ++ [c])) cs
  := by
  rw [contents?]
  rintro rest rfl rfl
  exact h rest rfl

/-- An open section is taken up to the end behind a text that holds none. -/
theorem contents?_append (content : List Char) {cs : List Char} (h : HoldsNoEnd cs)
    (rest : List Char) :
  contents? (some content) (cs ++ ']' :: ']' :: '>' :: rest)
    = (contents? none rest).map ((content ++ cs) :: ·)
  := by
  induction cs generalizing content with
  | nil => rw [List.append_nil, List.nil_append, contents?_end]
  | cons c cs ih =>
      rw [List.cons_append, contents?_cons content (section_ne_end h rest),
        ih (content ++ [c]) (holdsNoEnd_cons.mp h).2, List.append_assoc, List.singleton_append]

/-- Sections of texts that hold no end of one are taken apart as they are. -/
theorem contents?_sections {ps : List (List Char)} (h : ∀ p ∈ ps, HoldsNoEnd p) :
  contents? none (ps.flatMap cdataSection) = some ps
  := by
  induction ps with
  | nil => rfl
  | cons p ps ih =>
      rw [List.forall_mem_cons] at h
      have hmark : "CDATA[".toList = ['C', 'D', 'A', 'T', 'A', '['] := by decide
      rw [List.flatMap_cons, cdataSection_append, hmark]
      simp only [List.cons_append, List.nil_append]
      rw [contents?_start, contents?_append [] h.1, ih h.2]
      rfl

/-- A text is cut into one section more than there are ends of one in it. -/
theorem length_cutSections (cs : List Char) :
  (cutSections cs).length = countEnds cs + 1
  := by
  induction cs using Node.cutSections.induct with
  | case1 cs ih => simp [cutSections, countEnds, ih]
  | case2 c cs hends ih =>
      rw [cutSections, List.length_modifyHead, ih, countEnds]
      · exact hends
      · exact hends
  | case3 => rfl

end Writing

/-! ### Sections among other nodes -/

namespace Node

/-- A node that is no text goes before texts that are joined. -/
theorem joinTexts_cons {n : Node} (hn : n.isText = false) (ns : List Node) :
  joinTexts (n :: ns) = n :: joinTexts ns
  := by
  rw [joinTexts]
  rintro s t more rfl rfl
  cases hn

/-- Texts are not joined across a node that is no text. -/
theorem joinTexts_append_cons {n : Node} (hn : n.isText = false) (before after : List Node) :
  joinTexts (before ++ n :: after) = joinTexts before ++ n :: joinTexts after
  := by
  induction before using joinTexts.induct with
  | case1 s t ns ih =>
      rw [List.cons_append] at ih
      rw [List.cons_append, List.cons_append, joinTexts, joinTexts, ih]
  | case2 m ns hjoin ih =>
      rw [List.cons_append, joinTexts, joinTexts, ih, List.cons_append]
      · exact hjoin
      · rintro s t more rfl hmore
        cases ns with
        | nil =>
            rw [List.nil_append, List.cons.injEq] at hmore
            rw [hmore.1] at hn
            cases hn
        | cons k ks => exact hjoin s t ks rfl (by rw [List.head_eq_of_cons_eq hmore])
  | case3 => rw [List.nil_append, joinTexts_cons hn, joinTexts, List.nil_append]

/-- Texts are not joined across nodes none of which is a text. -/
theorem joinTexts_append {ns : List Node} (hne : ns ≠ []) (hns : ∀ n ∈ ns, n.isText = false)
    (before after : List Node) :
  joinTexts (before ++ (ns ++ after)) = joinTexts before ++ (ns ++ joinTexts after)
  := by
  induction ns generalizing before with
  | nil => exact absurd rfl hne
  | cons n ns ih =>
      rw [List.forall_mem_cons] at hns
      rw [List.cons_append, joinTexts_append_cons hns.1, List.cons_append]
      cases ns with
      | nil => rfl
      | cons k ks =>
          have hothers := ih (List.cons_ne_nil k ks) hns.2 []
          rw [List.nil_append, joinTexts, List.nil_append] at hothers
          rw [hothers]

/-- The sections of a text as nodes. -/
def sections (ps : List (List Char)) : List Node :=
  ps.map fun p => .cdata (String.ofList p)

/-- The sections of a text stand apart from the texts around them. -/
theorem joinTexts_sections (scope : Option String) (before : List Node) (v : String)
    (after : List Node) :
  joinTexts (normalList scope (before ++ .cdata v :: after))
    = joinTexts (normalList scope before)
      ++ (sections (cutSections v.toList) ++ joinTexts (normalList scope after))
  := by
  rw [normalList_append, normalList, normal, ← sections, joinTexts_append]
  · obtain ⟨first, others, hcut, _⟩ := cutSections_spec v.toList
    simp [sections, hcut]
  · simp [sections, isText]

end Node

/-- A document of a root with some children. -/
abbrev Document.rooted (name : QName) (attributes : Attributes) (children : List Node) : Document :=
  { children := [.element name attributes children] }

open Writing (contents? countEnds HoldsNoEnd innerScope nodeText)

/-- The markup of a CDATA section can be taken apart into sections with contents that are not empty
and hold no end of one, of which there is one more than there are ends in its text, and which make
up the text.  Where it stands among the children of a root and no carriage return stands where it is
written as it is, the sections are read as so many nodes between what is read of the others, and the
document that is read is written the same. -/
theorem cut_sections_found {v : String} (hv : v ≠ "") :
  ∃ ps, (∀ layout mixed started level scope,
      contents? none (nodeText layout mixed started level scope (.cdata v)) = some ps)
    ∧ (∀ p ∈ ps, p ≠ [] ∧ HoldsNoEnd p) ∧ ps.length = countEnds v.toList + 1
    ∧ ps.flatten = v.toList
    ∧ ∀ name attributes before after,
      let d := Document.rooted name attributes (before ++ .cdata v :: after)
      let inner := innerScope none name
      let d' := Document.rooted { name with space := inner } attributes
        (Node.joinTexts (Node.normalList inner before)
          ++ (Node.sections ps ++ Node.joinTexts (Node.normalList inner after)))
      d.IsReadable → d.keepsLines →
        ∃ text, d.render standardLayout false = .ok text ∧ readDocument (.text text) = .ok d'
          ∧ d'.render standardLayout false = .ok text
  := by
  have hne : v.toList ≠ [] := by simpa using hv
  obtain ⟨first, others, hcut, _, hfirst, hothers⟩ := Node.cutSections_spec v.toList
  have hends : ∀ p ∈ Node.cutSections v.toList, HoldsNoEnd p :=
    hcut ▸ List.forall_mem_cons.mpr ⟨hfirst, hothers⟩
  refine ⟨Node.cutSections v.toList, ?_, ?_, Writing.length_cutSections _,
    Node.flatten_cutSections _, ?_⟩
  · intro layout mixed started level scope
    rw [nodeText, Writing.cdataSections_eq, Writing.contents?_sections hends]
  · exact fun p hp => ⟨(Node.cutSections_ne v.toList).1 hne p hp, hends p hp⟩
  · intro name attributes before after d inner d' hreadable hkeeps
    obtain ⟨head, hhead⟩ := Writing.exists_head isStandard_standardLayout hreadable.declaration
    have hchildren : Node.unifiedList d.children = d.children := by
      rw [Document.keepsLines, List.all_eq_true] at hkeeps
      exact Node.unifiedList_eq hkeeps
    have hunified : d.unified = d := by
      rw [Document.unified, hchildren]
    have hnormal : d.normal = d' := by
      simp [d, d', inner, Document.normal, Document.rooted, Node.normalList, Node.normal,
        Node.joinTexts_sections]
    have hrewritable := hreadable.isRewritable Reading.Medium.isIntact_plain.toIsUsual
    obtain ⟨htext, hagain⟩ := hrewritable.rewrite hhead
    have hread := hreadable.read hhead
    rw [hunified, hnormal] at hread
    rw [hunified, hnormal, hchildren] at hagain
    exact ⟨_, htext, hread, hagain⟩

/-- Brackets next to ends of sections, at the start, in the middle and at the end of a text that
stands between two others. -/
theorem cut_sections_found_of_brackets :
  let v := "]]>]]]>]]"
  let name : QName := ⟨"a", none, by decide, none⟩
  let d := Document.rooted name [] [.text "x", .cdata v, .text "]]>"]
  v ≠ ""
    ∧ contents? none (nodeText none false false 0 none (.cdata v))
      = some ["]]".toList, ">]]]".toList, ">]]".toList]
    ∧ ∃ text, d.render standardLayout false = .ok text
      ∧ readDocument (.text text) = .ok (Document.rooted name []
          [.text "x", .cdata "]]", .cdata ">]]]", .cdata ">]]", .text "]]>"])
  := by
  intro v name d
  have hne : v ≠ "" := by decide
  obtain ⟨ps, hfound, -, -, -, hread⟩ := cut_sections_found hne
  have hps : ps = ["]]".toList, ">]]]".toList, ">]]".toList] :=
    Option.some.inj ((hfound none false false 0 none).symm.trans (by decide))
  have hreadable : d.IsReadable := by
    refine ⟨rfl, ?_, [], _, [], rfl, rfl, by simp⟩
    have hnodes : d.nodes = [.element name [] [.text "x", .cdata v, .text "]]>"], .text "x",
        .cdata v, .text "]]>"] := rfl
    simp only [hnodes, List.forall_mem_cons]
    exact ⟨⟨⟨by decide, rfl⟩, by simp [Node.IsSound]⟩, ⟨⟨rfl, rfl⟩, (by decide : "x" ≠ "")⟩,
      ⟨⟨by decide, rfl⟩, hne⟩, ⟨⟨rfl, rfl⟩, (by decide : "]]>" ≠ "")⟩, by simp⟩
  obtain ⟨text, htext, hagain, -⟩ := hread name [] [.text "x"] [.text "]]>"] hreadable (by decide)
  refine ⟨hne, hps ▸ hfound none false false 0 none, text, htext, ?_⟩
  rw [hagain, hps]
  simp [name, innerScope, nonempty?, Node.sections, Node.normalList, Node.normal, Node.joinTexts]

end XmlDraft
