import XmlDraft.Proofs.Failure
import XmlDraft.Proofs.Found

/-!
# Closed documents

A document with a root is closed when none of its elements is open.  Nothing can open one again:
an element, character data and a document type are out of place behind the root, and a call finds
this out before it runs a fragment.  Main statement: whatever steps follow, a closed document
stays closed, comments are all that is added to it, and every call that would add anything else
fails before its fragment; every document that is read is closed.
-/

namespace XmlDraft

/-- A document with a root, none of whose elements is open. -/
structure Draft.IsClosed (d : Draft) : Prop where
  opened : d.opened = []
  root : d.document.root?.isSome

/-- Whether a call adds a node other than a comment, if it succeeds. -/
def Member.addsContent : Member → Bool
  | operation .comment => false
  | operation .declaration => false
  | operation _ => true
  | element => true
  | encoding => true
  | fixture => false
  | absent => false

namespace Document

/-- Behind a root only a comment has a place at the top level. -/
theorem misplacement?_of_root {d : Document} (hroot : d.root?.isSome) {n : Node}
    (hn : d.misplacement? n = none) :
  ∃ value, n = .comment value
  := by
  obtain ⟨root, hroot⟩ := Option.isSome_iff_exists.mp hroot
  cases n with
  | comment value => exact ⟨value, rfl⟩
  | element name attributes children => simp [misplacement?, hroot] at hn
  | doctype t =>
      simp only [misplacement?, hroot, Option.isSome_some, ite_true] at hn
      split_ifs at hn
  | cdata value => cases hn
  | text value => cases hn

end Document

namespace Site

variable {settings : Settings} {h : Sheet}

/-- Nothing but a comment can be added at the top behind a root. -/
theorem add_top (hroot : (Document.mk h.declaration h.children).root?.isSome) {n : Node}
    {after : Sheet} (ha : (top settings).add h n = .ok after) :
  ∃ value, n = .comment value ∧ after = { h with children := h.children ++ [.comment value] }
  := by
  obtain ⟨hplace, rfl⟩ := add_ok ha
  obtain ⟨value, rfl⟩ := Document.misplacement?_of_root hroot hplace
  exact ⟨value, rfl, rfl⟩

/-- No element begins at the top behind a root. -/
theorem startElement_top (hroot : (Document.mk h.declaration h.children).root?.isSome) {v : Value}
    {given : List Value} {named : List (String × Value)} {after : Sheet} {element : Node}
    {sequel : Builder.Sequel} :
  (top settings).startElement h v given named ≠ (after, .ok (element, sequel))
  := by
  intro hs
  obtain ⟨_, _, _, helement, hplace, _⟩ := startElement_ok hs
  obtain ⟨value, rfl⟩ := Document.misplacement?_of_root hroot hplace
  cases Builder.isElement_of_elementOf helement

/-- What steps at the top may do behind a root: comments follow. -/
def OnlyComments (s : Site) (h after : Sheet) : Prop :=
  s = top s.settings → (Document.mk h.declaration h.children).root?.isSome →
    ∃ comments : List Wording, after.children = h.children ++ comments.map Node.comment

theorem root_append {declaration other : Option Declaration} {ns : List Node}
    (h : (Document.mk declaration ns).root?.isSome) (added : List Node) :
  (Document.mk other (ns ++ added)).root?.isSome
  := by
  simp only [Document.root?, List.find?_append, Option.isSome_or] at h ⊢
  rw [h, Bool.true_or]

/-- Steps at the top add only comments behind a root. -/
theorem kept_onlyComments :
  Kept OnlyComments
  where
    same hc _ _ _ _ := ⟨[], by simp [hc]⟩
    trans hfirst hrest hs hroot := by
      obtain ⟨comments, hfirst⟩ := hfirst hs hroot
      obtain ⟨others, hrest⟩ := hrest hs (hfirst ▸ root_append hroot _)
      exact ⟨comments ++ others, by simp [hrest, hfirst]⟩
    operate s h o values hs hroot := by
      rcases operate_cases s h o values with heq | ⟨d, heq⟩ | ⟨n, ha, _⟩
      · exact ⟨[], by simp [heq]⟩
      · exact ⟨[], by simp [heq]⟩
      · rw [hs] at ha
        obtain ⟨value, _, hafter⟩ := add_top hroot ha
        exact ⟨[value], by rw [hs, hafter]; rfl⟩
    element hbegun hs hroot := absurd (hs ▸ hbegun) (startElement_top hroot)
    fragment hbegun _ hs hroot := absurd (hs ▸ hbegun) (startElement_top hroot)

/-- The top of a document whose nodes are given ones, followed by comments. -/
def AtTopBehind (settings : Settings) (ns : List Node) (s : Site) (opened : List Place)
    (h : Sheet) : Prop :=
  s = top settings ∧ opened = []
    ∧ ∃ comments : List Wording, h.children = ns ++ comments.map Node.comment

/-- Behind a root the top is never left. -/
theorem lasts_atTopBehind {declaration : Option Declaration} {ns : List Node}
    (hroot : (Document.mk declaration ns).root?.isSome) :
  Lasts OnlyComments (AtTopBehind settings ns)
  where
    kept := kept_onlyComments
    along := by
      rintro s opened h after _ ⟨rfl, rfl, comments, hns⟩ hadded
      obtain ⟨others, hothers⟩ := hadded rfl (hns ▸ root_append hroot _)
      exact ⟨rfl, rfl, comments ++ others, by simp [hothers, hns]⟩
    enter := by
      rintro s opened h records v given named element takesBuilder _ ⟨rfl, rfl, comments, hns⟩ hbegun
      exact absurd hbegun (startElement_top (hns ▸ root_append hroot _))

/-! ### Calls -/

theorem change_fails {r : Except Fault Sheet} (hr : ∀ after, r ≠ .ok after) :
  ∃ f, (h.change r).2 = .error f
  := by
  cases r with
  | ok after => exact absurd rfl (hr after)
  | error f => exact ⟨f, rfl⟩

/-- An operation other than a comment and a declaration fails at the top behind a root. -/
theorem operate_top (hroot : (Document.mk h.declaration h.children).root?.isSome) {o : Operation}
    (ho : (Member.operation o).addsContent) (values : List Value) :
  ∃ f, ((top settings).operate h o values).2 = .error f
  := by
  have hplace {n : Node} (hn : ∀ value, n ≠ .comment value) (after : Sheet) :
      (top settings).add h n ≠ .ok after := by
    intro ha
    obtain ⟨value, hvalue, _⟩ := add_top hroot ha
    exact hn value hvalue
  unfold operate
  split
  · cases ho
  · rename_i v
    apply change_fails
    cases v.requireText "text" with
    | error f => exact fun after => nofun
    | ok t => exact hplace (n := .cdata t.text) (by simp)
  · rename_i v
    apply change_fails
    cases v.requireText "text" with
    | error f => exact fun after => nofun
    | ok t => exact hplace (n := .text t.text) (by simp)
  · cases ho
  · rename_i name publicId systemId subset
    apply change_fails
    cases Builder.doctypeOf (top settings).settings name publicId systemId subset with
    | error f => exact fun after => nofun
    | ok d => exact hplace (n := .doctype d) (by simp)
  · exact ⟨.badCall, rfl⟩

/-- A call that is to add anything but a comment fails at the top behind a root, and it fails
before its fragment runs. -/
theorem call_top (hroot : (Document.mk h.declaration h.children).root?.isSome)
    (frame : Option Frame) {name : String} (hname : (Member.ofName name).addsContent)
    (arguments : List Value) (named : List (String × Value)) :
  (∃ f, (Run.step ((top settings).run [] h) frame (.call name arguments named)).2 = .error f)
    ∧ ((top settings).run [] h).FailsBefore frame name arguments named
  := by
  have fits := top_fits settings
  cases hcall : ((top settings).run [] h).builder.elementCall? name arguments with
  | some found =>
      obtain ⟨v, given⟩ := found
      rcases hs : ((top settings).run [] h).builder.startElement v given named
        with ⟨b, f | ⟨place, fragment⟩⟩
      · refine ⟨⟨f, ?_⟩, Run.failsBefore_of_startElement fits hcall hs⟩
        rw [Run.step_call, hcall]
        simp only [hs, Run.callElement]
      · obtain ⟨_, _, hbegun, _⟩ := fits.startElement_begun hs
        exact absurd hbegun (startElement_top hroot)
  | none =>
      have hfails : ∃ f,
          (Run.step ((top settings).run [] h) frame (.call name arguments named)).2 = .error f := by
        rw [Run.step_call, hcall]
        unfold Run.callOther
        cases hmember : Member.ofName name with
        | operation o =>
            rw [hmember] at hname
            dsimp only
            cases o.bind arguments named with
            | error f => exact ⟨f, rfl⟩
            | ok values =>
                simp only [fits.operate]
                exact operate_top hroot hname values
        | fixture => exact ⟨.badCall, rfl⟩
        | encoding => exact ⟨.badCall, rfl⟩
        | element => exact ⟨.badCall, rfl⟩
        | absent => exact ⟨.noAttribute, rfl⟩
      obtain ⟨f, hf⟩ := hfails
      exact ⟨⟨f, hf⟩, Run.failsBefore_of_callOther hcall hf⟩

end Site

/-- Reading gives a closed document. -/
theorem Builder.ofSource_isClosed {settings : Settings} {source : Source} {b : Builder}
    (h : (ofSource settings source).2 = .ok b) :
  b.draft.IsClosed
  := by
  obtain ⟨d, hread, rfl⟩ := Reading.map_ok h
  obtain ⟨es, _, hread⟩ := Reading.bind_ok hread
  obtain ⟨a, _, hread⟩ := Reading.bind_ok hread
  split_ifs at hread with hroot
  exact ⟨rfl, Except.ok.inj hread ▸ hroot⟩

/-- A state after a closed one: it is closed with the same settings, its nodes are the earlier
ones, followed by comments, and every call that is to add anything else fails before its fragment
runs and leaves the document as it is. -/
structure Run.IsFrozenSince (r later : Run) : Prop where
  closed : later.builder.draft.IsClosed
  settings : later.builder.settings = r.builder.settings
  children : ∃ comments : List Wording, later.builder.draft.document.children
    = r.builder.draft.document.children ++ comments.map Node.comment
  fails : ∀ frame name arguments named, (Member.ofName name).addsContent →
    (∃ f, (Run.step later frame (.call name arguments named)).2 = .error f)
      ∧ later.FailsBefore frame name arguments named

open Site in
/-- A closed document is frozen: whatever steps follow with whatever arguments and fragments, only
comments are added and only the declaration is replaced.  What is read is closed. -/
theorem closed_document_frozen :
  (∀ settings source b, (Builder.ofSource settings source).2 = .ok b → b.draft.IsClosed)
    ∧ ∀ r later : Run, r.builder.draft.IsClosed → r.LeadsTo later → r.IsFrozenSince later
  := by
  refine ⟨fun _ _ _ => Builder.ofSource_isClosed, ?_⟩
  intro r later hclosed hleads
  obtain ⟨⟨settings, ⟨⟨declaration, ns⟩, opened⟩, records⟩, entries⟩ := r
  obtain ⟨rfl, hroot⟩ := hclosed
  have hstart : Holds (AtTopBehind settings ns)
      ⟨⟨settings, ⟨⟨declaration, ns⟩, []⟩, records⟩, entries⟩ :=
    ⟨top settings, [], ⟨declaration, ns, records, entries⟩, top_fits settings, rfl, rfl, rfl, [],
      by simp⟩
  obtain ⟨s, opened, h, _, rfl, rfl, rfl, comments, hns⟩ :=
    (lasts_atTopBehind hroot).holds hstart hleads
  have hlater : (Document.mk h.declaration h.children).root?.isSome := hns ▸ root_append hroot _
  exact ⟨⟨rfl, hlater⟩, rfl, ⟨comments, hns⟩,
    fun frame name arguments named hname => call_top hlater frame hname arguments named⟩

/-- A document that was read: a comment is added to it, and an element with a fragment is not. -/
theorem read_document_frozen :
  let source := Source.text "<a b='1'>t</a>"
  let root := Node.element ⟨"a", none, by decide, none⟩ [("b", "1")] [.text "t"]
  let fragment := Value.function [] [.call "Text" [.str "in"] []]
  ∃ b, (Builder.ofSource {} source).2 = .ok b ∧ b.draft.IsClosed
    ∧ let later := (Run.step ⟨b, []⟩ none (.call "Comment" [.str "end"] [])).1
      Run.IsFrozenSince ⟨b, []⟩ later
        ∧ later.builder.draft.document.children = [root, .comment "end"]
        ∧ (∃ f, (Run.step later none (.call "c" [fragment] [])).2 = .error f)
        ∧ later.FailsBefore none "c" [fragment] []
  := by
  intro source root fragment
  let b := Builder.ofDocument ⟨none, [root]⟩ {} (Builder.ofSource {} source).1
  have hb : (Builder.ofSource {} source).2 = .ok b := rfl
  have hclosed := closed_document_frozen.1 {} source b hb
  have hleads : Run.LeadsTo ⟨b, []⟩ (Run.step ⟨b, []⟩ none (.call "Comment" [.str "end"] [])).1 :=
    .step none _ .refl
  have hfrozen := closed_document_frozen.2 ⟨b, []⟩ _ hclosed hleads
  have hname : (Member.ofName "c").addsContent := by decide
  exact ⟨b, hb, hclosed, hfrozen, rfl, hfrozen.fails none "c" [fragment] [] hname⟩

end XmlDraft
