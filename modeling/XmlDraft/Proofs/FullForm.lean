import XmlDraft.Proofs.Growing
import XmlDraft.Proofs.Prefixes

/-!
# Readers into full forms

The full form is made by a reader of its own, of which only this is relied on: where it takes markup
with comments in front of the root, the nodes in front of the root are these comments with unified
ends of lines, since a document type is no node there; and the root is named in Clark notation, by
the local part of its name, if its attributes bind the prefix that the name has.  Main statement:
the reader at hand is such a reader.
-/

namespace XmlDraft

namespace Export

open Reading (AreHeading AreLeading AreTyped BindsName Event Foreword Runs Tag commentEvents level
  plainTag)

/-- A comment of an element tree, as it is read where it is written. -/
def noteLeaf (value : String) : ElementTree :=
  .leaf .comment (some (Node.unifiedText value))

/-- What is relied on of a reader of markup into full forms, wherever it takes the markup. -/
structure IsFullReader (read : FullReader) : Prop where
  /-- The nodes in front of the root are its comments, whether a document type stands among them or
  not. -/
  before {w : Foreword} (hw : w.IsLegible) {name : String} (hname : isAsciiName name)
    {rest : List Char} {t : FullTree}
    (hread : read (String.ofList (w.markup ++ '<' :: (name.toList ++ rest))) = .ok (some t)) :
    t.before = w.comments.map noteLeaf
  /-- The root is named in Clark notation, by the local part of a name whose prefix is bound. -/
  root {w : Foreword} (hw : w.IsLegible) {name : String} (hname : isAsciiName name)
    {attributes : Attributes} (hattributes : ∀ a ∈ attributes, isAsciiName a.1 ∧ isCharText a.2)
    (hnodup : (attributes.map Prod.fst).Nodup) (hbinds : BindsName attributes name)
    {isEmpty : Bool} {rest : List Char} {t : FullTree}
    (hread : read (String.ofList (w.markup ++ '<' :: (name.toList
      ++ (Writing.attributesText attributes ++ (Reading.Medium.tagEnd isEmpty ++ rest)))))
        = .ok (some t)) :
    ∃ clark, labelOf t.root = .element clark ∧ localName clark = ModelNode.localPart name

/-! ### Going back from the root -/

theorem goBack_reverse (t : ElementTree) (before : List ElementTree) :
  goBack t before.reverse = before.headD t
  := by
  have hlast (t : ElementTree) (ts : List ElementTree) : goBack t ts = ts.getLast?.getD t := by
    induction ts generalizing t with
    | nil => rfl
    | cons u ts ih => rw [goBack, ih, List.getLast?_cons, Option.getD_some]
  rw [hlast, List.getLast?_reverse]
  cases before <;> rfl

/-! ### In front of the root -/

namespace FullGrowth

/-- A full form of which only comments have been read: no element is open, no document type is being
read, and no namespace has been declared. -/
structure IsAhead (f : FullGrowth) (comments : List String) : Prop where
  growth : f.growth = ⟨[], (comments.map noteLeaf).reverse⟩
  outside : f.inDoctype = false
  scope : f.scoping.scope = ({} : Scoping).scope

variable {f : FullGrowth} {before : List String}

theorem isAhead_heading {heading : List Event} (h : AreHeading heading) :
  (heading.foldl fullStep {}).IsAhead []
  := by
  rcases h with rfl | ⟨version, encoding, standalone, rfl⟩
  · exact ⟨rfl, rfl, rfl⟩
  · refine ⟨rfl, rfl, ?_⟩
    rw [List.foldl_cons, List.foldl_nil, fullStep]
    dsimp only
    split_ifs <;> rfl

theorem IsAhead.comments (h : f.IsAhead before) (values : List String) :
  ((commentEvents values).foldl fullStep f).IsAhead (before ++ values)
  := by
  induction values generalizing f before with
  | nil => rwa [List.append_nil]
  | cons value values ih =>
      have hstep : fullStep f (Reading.commentEvent value.toList) = { f with
          growth := ⟨[], noteLeaf value :: (before.map noteLeaf).reverse⟩ } := by
        rw [Reading.commentEvent, fullStep, h.outside, h.growth]
        rfl
      have hnext : (fullStep f (Reading.commentEvent value.toList)).IsAhead (before ++ [value]) := by
        rw [hstep]
        exact ⟨by simp, h.outside, h.scope⟩
      simpa [commentEvents] using ih hnext

theorem IsAhead.typed (h : f.IsAhead before) {typed : List Event} (htyped : AreTyped typed) :
  (typed.foldl fullStep f).IsAhead before
  := by
  rcases htyped with rfl | ⟨name, systemId, publicId, rfl⟩
  · exact h
  · exact ⟨h.growth, rfl, h.scope⟩

end FullGrowth

theorem isAhead_of_leading {comments : List String} {lead : List Event}
    (h : AreLeading comments lead) :
  (lead.foldl fullStep {}).IsAhead comments
  := by
  obtain ⟨heading, before, typed, after, hheading, htyped, rfl, rfl⟩ := h
  simp only [List.foldl_append]
  exact (((FullGrowth.isAhead_heading hheading).comments before).typed htyped).comments after

/-! ### The root -/

/-- A root that begins behind comments is left at the top level behind them, under the name that its
tag has where no namespace has been declared. -/
theorem exists_fullRoot {comments : List String} {lead more : List Event} {tag : Tag}
    (h : AreLeading comments lead) (hlevel : level (lead ++ .start tag :: more).reverse = 0) :
  ∃ (s : Scoping) (root : ElementTree), s.scope = ({} : Scoping).scope
    ∧ labelOf root = .element (s.start tag).2.1
    ∧ root :: (comments.map noteLeaf).reverse
      <:+ ((lead ++ .start tag :: more).foldl fullStep {}).growth.top
  := by
  obtain ⟨hgrowth, -, hscope⟩ := isAhead_of_leading h
  rw [List.foldl_append]
  generalize lead.foldl fullStep {} = f at hgrowth hscope ⊢
  have hstate : (fullStep f (.start tag)).state
      = ([(f.scoping.start tag).2.1], (comments.map noteLeaf).reverse) := by
    rw [fullStep, FullGrowth.state, hgrowth]
    rfl
  have hruns := Runs.of_foldl fullStep_moves more (fullStep f (.start tag))
  have hclosed : (more.foldl fullStep (fullStep f (.start tag))).state.1 = [] := by
    rw [← List.length_eq_zero_iff, hruns.length_eq, hstate]
    exact h.closed hlevel
  obtain ⟨root, hroot, hsuffix⟩ := hruns.exists_root (by rw [hstate]; rfl) hclosed
  rw [hstate] at hsuffix
  refine ⟨f.scoping, root, hscope, ?_, hsuffix⟩
  unfold FullGrowth.clark? at hroot
  split at hroot
  · rename_i clark hclark
    cases hroot
    exact hclark
  · cases hroot

/-- What is left at the top level are the nodes in front of the root and the root of a full form. -/
theorem full_parts {markup : String} {es : List Event} {t : FullTree}
    (hevents : Reading.events fullManner (.text markup) = .ok es)
    (hfull : full markup = .ok (some t)) {root : ElementTree} {notes : List ElementTree}
    (hnotes : ∀ n ∈ notes, isElement n = false) (hroot : isElement root)
    (hsuffix : root :: notes.reverse <:+ (es.foldl fullStep {}).growth.top) :
  t.before = notes ∧ t.root = root
  := by
  obtain ⟨later, hlater⟩ := hsuffix
  have htop : (es.foldl fullStep {}).growth.top.reverse = notes ++ root :: later.reverse := by
    simp [← hlater]
  have hnotes' : ∀ n ∈ notes, (!isElement n) = true := by simpa using hnotes
  rw [full, hevents] at hfull
  simp only [bind, Except.bind, htop, List.takeWhile_append_of_pos hnotes',
    List.dropWhile_append_of_pos hnotes', List.takeWhile_cons, List.dropWhile_cons, hroot,
    Bool.not_true, Bool.false_eq_true, if_false, List.append_nil] at hfull
  split_ifs at hfull
  · cases hfull
  · cases hfull
    exact ⟨rfl, rfl⟩

/-- The reader at hand has the comments in front of the root, and names the root in Clark notation.
-/
theorem isFullReader_full :
  IsFullReader full
  := by
  have hnotes (w : Foreword) : ∀ n ∈ w.comments.map noteLeaf, isElement n = false := by
    simp [noteLeaf, ElementTree.leaf, isElement, labelOf]
  have hparts {markup : String} {t : FullTree} {w : Foreword} {lead more : List Event} {tag : Tag}
      (hread : full markup = .ok (some t))
      (hevents : Reading.events fullManner (.text markup) = .ok (lead ++ .start tag :: more))
      (hlead : AreLeading w.comments lead)
      (hlevel : level (lead ++ .start tag :: more).reverse = 0) :
      ∃ s : Scoping, s.scope = ({} : Scoping).scope
        ∧ labelOf t.root = .element (s.start tag).2.1 ∧ t.before = w.comments.map noteLeaf := by
    obtain ⟨s, root, hscope, hlabel, hsuffix⟩ := exists_fullRoot hlead hlevel
    have helement : isElement root := by rw [isElement, hlabel]
    obtain ⟨hbefore, rfl⟩ := full_parts hevents hread (hnotes w) helement hsuffix
    exact ⟨s, hscope, hlabel, hbefore⟩
  constructor
  · intro w hw name hname rest t hread
    obtain ⟨es, hevents, -⟩ := Reading.bind_ok hread
    obtain ⟨lead, tag, more, hlead, rfl, hlevel⟩ := Reading.events_root hw hname hevents
    obtain ⟨s, -, -, hbefore⟩ := hparts hread hevents hlead hlevel
    exact hbefore
  · intro w hw name hname attributes hattributes hnodup hbinds isEmpty rest t hread
    obtain ⟨es, hevents, -⟩ := Reading.bind_ok hread
    obtain ⟨lead, tag, more, hlead, rfl, hlevel, hresolves⟩ :=
      Reading.events_element hw hname hattributes hevents
    obtain ⟨s, hscope, hlabel, -⟩ := hparts hread hevents hlead hlevel
    have hxml : s.IsBound "xml" := by
      rw [Scoping.isBound_iff, hscope]
      exact ⟨_, rfl, by decide⟩
    cases hresolves.eq_plainTag rfl hnodup
    exact ⟨_, hlabel, Scoping.start_localName hxml (brace_notMem hname) hbinds⟩

end Export

end XmlDraft
