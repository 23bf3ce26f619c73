import XmlDraft.Proofs.Assembling
import XmlDraft.Proofs.TopLevel

/-!
# Events that are handled

Handling an event relies on more than its node fitting into the document: on stacks that are not
empty, on a root that comes once, on comments that break nothing.  Main statement: inside the root
every tag, comment, section and run of characters can be handled, before the root comments and the
parts of one document type, and behind it comments.
-/

namespace XmlDraft

namespace Reading

namespace Assembly

/-! ### Handling events -/

/-- Whether an event finds what handling it relies on: an end tag finds an element that is open, the
stack of namespaces is not empty, no root begins behind another one, and a comment that becomes a
node breaks nothing. -/
def Allows (a : Assembly) : Event → Prop
  | .start _ => a.spaces ≠ [] ∧ (a.opened = [] → a.document.root? = none)
  | .finish => a.opened ≠ [] ∧ a.spaces ≠ []
  | .comment text => a.subset = none → breaksComment text.toList = false
  | _ => True

/-- Whether an event can be handled: it finds what it relies on, and its node fits into the
document. -/
def Takes (a : Assembly) (e : Event) : Prop :=
  a.Allows e ∧ ∃ b, a.step e = .ok b

/-- Events that are handled one after another, from one assembly to another. -/
inductive Handles : Assembly → List Event → Assembly → Prop
  | nil (a : Assembly) : Handles a [] a
  | cons {a b c : Assembly} {e : Event} {es : List Event} :
      a.Takes e → a.step e = .ok b → Handles b es c → Handles a (e :: es) c

theorem Handles.append {a b c : Assembly} {before after : List Event} (h : Handles a before b)
    (hafter : Handles b after c) :
  Handles a (before ++ after) c
  := by
  induction h with
  | nil a => exact hafter
  | cons htakes hstep _ ih => exact .cons htakes hstep (ih hafter)

theorem Handles.run {a b : Assembly} {es : List Event} (h : Handles a es b) :
  a.run es = .ok b
  := by
  induction h with
  | nil a => rfl
  | cons _ hstep _ ih =>
      rw [Assembly.run, hstep]
      exact ih

/-- Each event is taken where those before it lead to. -/
theorem Handles.takes {a c : Assembly} {before after : List Event} {e : Event}
    (h : Handles a (before ++ e :: after) c) :
  ∃ b, a.run before = .ok b ∧ b.Takes e
  := by
  induction before generalizing a with
  | nil =>
      cases h with
      | cons htakes _ _ => exact ⟨a, rfl, htakes⟩
  | cons d before ih =>
      cases h with
      | cons _ hstep hrest =>
          obtain ⟨b, hrun, htakes⟩ := ih hrest
          refine ⟨b, ?_, htakes⟩
          rw [Assembly.run, hstep]
          exact hrun

/-- An event that is taken and leads to an assembly of some kind. -/
def LeadsBy (a : Assembly) (e : Event) (P : Assembly → Prop) : Prop :=
  a.Allows e ∧ ∃ b, a.step e = .ok b ∧ P b

theorem leadsBy_of_step {a b : Assembly} {e : Event} {P : Assembly → Prop}
    (hstep : a.step e = .ok b) (hallows : a.Allows e) (h : P b) :
  a.LeadsBy e P
  := ⟨hallows, b, hstep, h⟩

/-! ### Events that are taken -/

/-- An assembly before the end of the root, with a number of open elements. -/
structure IsInside (a : Assembly) (n : Nat) : Prop where
  opened : a.opened.length = n
  spaces : a.spaces.length = n + 1
  closed : a.openSection = none
  root : a.document.root? = none

/-- An assembly in the middle of a CDATA section. -/
structure IsInSection (a : Assembly) (n : Nat) : Prop where
  opened : a.opened.length = n
  spaces : a.spaces.length = n + 1
  section_ : a.openSection.isSome
  root : a.document.root? = none

/-- An assembly behind the end of the root. -/
structure IsDone (a : Assembly) : Prop where
  opened : a.opened = []
  root : a.document.root?.isSome

theorem isInside_empty :
  ({} : Assembly).IsInside 0
  := ⟨rfl, rfl, rfl, rfl⟩

section Steps

variable {a : Assembly} {n : Nat}

theorem root?_append_of_not_element {d : Document} {m : Node} (hm : m.isElement = false) :
  (Document.mk d.declaration (d.children ++ [m])).root? = d.root?
  := by
  simp [Document.root?, List.find?_append, hm]

/-- A node that is no element can be attached inside the root. -/
theorem IsInside.attach (h : a.IsInside (n + 1)) (m : Node) :
  ∃ b, a.attach m = .ok b ∧ b.IsInside (n + 1)
  := by
  obtain ⟨o, others, ho⟩ := List.exists_cons_of_length_eq_add_one h.opened
  refine ⟨{ a with opened := { o with children := o.children ++ [m] } :: others }, ?_, ?_⟩
  · simp only [Assembly.attach, ho]
  · exact ⟨by simpa [ho] using h.opened, h.spaces, h.closed, h.root⟩

theorem IsInside.start (h : a.IsInside n) {t : Tag} (ht : t.name.raw ≠ "") :
  a.LeadsBy (.start t) (·.IsInside (n + 1))
  := by
  obtain ⟨attributes, space, hattributes⟩ :
      ∃ attributes space, attributesOf (a.spaces.headD none) t.given [] = (attributes, space) :=
    ⟨_, _, rfl⟩
  have hstep : a.step (.start t) = .ok { a with
      opened := ⟨⟨t.name.raw, space, ht, none⟩, attributes, []⟩ :: a.opened
      spaces := space :: a.spaces } := by
    simp only [step, openTag, hattributes, QName.of?, dif_pos ht]
  refine leadsBy_of_step hstep ⟨?_, fun _ => h.root⟩ ?_
  · exact List.ne_nil_of_length_eq_add_one h.spaces
  · exact ⟨congrArg (· + 1) h.opened, congrArg (· + 1) h.spaces, h.closed, h.root⟩

/-- An end tag closes an element that is open, and the root at last. -/
theorem IsInside.finish (h : a.IsInside (n + 1)) :
  a.LeadsBy .finish fun b => if n = 0 then b.IsDone else b.IsInside n
  := by
  obtain ⟨o, others, ho⟩ := List.exists_cons_of_length_eq_add_one h.opened
  obtain ⟨space, spaces, hs⟩ := List.exists_cons_of_length_eq_add_one h.spaces
  have hlength : others.length = n := by simpa [ho] using h.opened
  have hspaces : spaces.length = n + 1 := by simpa [hs] using h.spaces
  have hallows : a.Allows .finish := by simp [Allows, ho, hs]
  cases others with
  | nil =>
      have happend : a.document.append (.element o.name o.attributes o.children) = .ok
          { a.document with
            children := a.document.children ++ [.element o.name o.attributes o.children] } := by
        simp [Document.append, Document.misplacement?, h.root]
      have hstep : a.step .finish = .ok { a with
          opened := []
          spaces := spaces
          document := { a.document with
            children := a.document.children ++ [.element o.name o.attributes o.children] } } := by
        simp [step, closeTag, Assembly.attach, ho, hs, happend, Except.map, Except.mapError]
      refine leadsBy_of_step hstep hallows ?_
      rw [if_pos (hlength.symm.trans List.length_nil)]
      refine ⟨rfl, ?_⟩
      simp [Document.root?, List.find?_append, Node.isElement]
  | cons o' others =>
      have hstep : a.step .finish = .ok { a with
          opened := { o' with
            children := o'.children ++ [.element o.name o.attributes o.children] } :: others
          spaces := spaces } := by
        simp [step, closeTag, Assembly.attach, ho, hs]
      refine leadsBy_of_step hstep hallows ?_
      rw [if_neg (by rw [← hlength]; exact Nat.succ_ne_zero _)]
      exact ⟨hlength, hspaces, h.closed, h.root⟩

theorem IsInside.characters (h : a.IsInside n) (cs : List Char) :
  a.LeadsBy (.characters cs) (·.IsInside n)
  := by
  refine leadsBy_of_step rfl trivial ?_
  unfold addCharacters
  rw [h.closed]
  dsimp only
  split
  · rename_i o others ho
    exact ⟨by simpa [ho] using h.opened, h.spaces, rfl, h.root⟩
  · exact ⟨h.opened, h.spaces, h.closed, h.root⟩

theorem step_comment_subset (hsubset : a.subset.isSome) (text : String) :
  a.step (.comment text) = .ok (a.addToSubset ("<!--" ++ text ++ "-->"))
  := by
  simp [step, addComment, hsubset]

theorem IsInside.comment (h : a.IsInside n) {text : String}
    (htext : breaksComment text.toList = false) :
  a.LeadsBy (.comment text) (·.IsInside n)
  := by
  cases hsubset : a.subset.isSome with
  | true =>
      refine leadsBy_of_step (step_comment_subset hsubset text) (fun _ => htext) ?_
      exact ⟨h.opened, h.spaces, h.closed, h.root⟩
  | false =>
      have hstep : a.step (.comment text) = a.attach (.comment text) := by
        simp [step, addComment, hsubset]
      cases n with
      | zero =>
          have ho : a.opened = [] := List.eq_nil_of_length_eq_zero h.opened
          have hattach : a.attach (.comment text) = .ok { a with document := { a.document with
              children := a.document.children ++ [.comment text] } } := by
            simp [Assembly.attach, ho, Document.append, Document.misplacement?, Except.map,
              Except.mapError]
          refine leadsBy_of_step (hstep.trans hattach) (fun _ => htext) ?_
          exact ⟨h.opened, h.spaces, h.closed, (root?_append_of_not_element rfl).trans h.root⟩
      | succ n =>
          obtain ⟨b, hattach, hb⟩ := h.attach (.comment text)
          exact leadsBy_of_step (hstep.trans hattach) (fun _ => htext) hb

theorem IsInside.addToSubset (h : a.IsInside n) (s : String) :
  (a.addToSubset s).IsInside n
  := ⟨h.opened, h.spaces, h.closed, h.root⟩

theorem IsInside.sectionStart (h : a.IsInside n) :
  a.LeadsBy .cdataStart (·.IsInSection n)
  := leadsBy_of_step rfl trivial ⟨h.opened, h.spaces, rfl, h.root⟩

theorem IsInSection.characters (h : a.IsInSection n) (cs : List Char) :
  a.LeadsBy (.characters cs) (·.IsInSection n)
  := by
  refine leadsBy_of_step rfl trivial ?_
  obtain ⟨before, hbefore⟩ := Option.isSome_iff_exists.mp h.section_
  simp only [addCharacters, hbefore]
  exact ⟨h.opened, h.spaces, rfl, h.root⟩

/-- A section ends inside the root. -/
theorem IsInSection.finish (h : a.IsInSection (n + 1)) :
  a.LeadsBy .cdataEnd (·.IsInside (n + 1))
  := by
  obtain ⟨s, hs⟩ := Option.isSome_iff_exists.mp h.section_
  have hinside : IsInside { a with openSection := none } (n + 1) :=
    ⟨h.opened, h.spaces, rfl, h.root⟩
  by_cases hempty : s = ""
  · have hstep : a.step .cdataEnd = .ok { a with openSection := none } := by
      simp [step, closeSection, hs, hempty]
    exact leadsBy_of_step hstep trivial hinside
  · obtain ⟨b, hattach, hb⟩ := hinside.attach (.cdata s)
    have hstep : a.step .cdataEnd = .ok b := by
      simpa [step, closeSection, hs, hempty] using hattach
    exact leadsBy_of_step hstep trivial hb

theorem IsDone.comment (h : a.IsDone) {text : String}
    (htext : breaksComment text.toList = false) :
  a.LeadsBy (.comment text) IsDone
  := by
  cases hsubset : a.subset.isSome with
  | true =>
      exact leadsBy_of_step (step_comment_subset hsubset text) (fun _ => htext) ⟨h.opened, h.root⟩
  | false =>
      have hstep : a.step (.comment text) = .ok { a with document := { a.document with
          children := a.document.children ++ [.comment text] } } := by
        simp [step, addComment, hsubset, Assembly.attach, h.opened, Document.append,
          Document.misplacement?, Except.map, Except.mapError]
      refine leadsBy_of_step hstep (fun _ => htext) ⟨h.opened, ?_⟩
      exact (congrArg Option.isSome (root?_append_of_not_element rfl)).trans h.root

theorem IsDone.addToSubset (h : a.IsDone) (s : String) :
  (a.addToSubset s).IsDone
  := ⟨h.opened, h.root⟩

/-! ### Document types -/

/-- An assembly before the root, where a document type may have its end. -/
structure IsBeforeRoot (a : Assembly) (mayType : Prop) : Prop extends a.IsInside 0 where
  doctype : mayType → a.document.doctype? = none

variable {mayType : Prop}

theorem doctype?_append_comment (d : Document) (text : String) :
  (Document.mk d.declaration (d.children ++ [.comment text])).doctype? = d.doctype?
  := by
  simp [Document.doctype?]

theorem IsBeforeRoot.addToSubset (h : a.IsBeforeRoot mayType) (s : String) :
  (a.addToSubset s).IsBeforeRoot mayType
  := ⟨h.toIsInside.addToSubset s, h.doctype⟩

theorem IsBeforeRoot.comment (h : a.IsBeforeRoot mayType) {text : String}
    (htext : breaksComment text.toList = false) :
  a.LeadsBy (.comment text) (·.IsBeforeRoot mayType)
  := by
  obtain ⟨hallows, b, hstep, hb⟩ := h.toIsInside.comment htext
  refine ⟨hallows, b, hstep, hb, fun hmay => ?_⟩
  have ho : a.opened = [] := List.eq_nil_of_length_eq_zero h.opened
  cases hsubset : a.subset.isSome with
  | true =>
      rw [step_comment_subset hsubset] at hstep
      cases hstep
      exact h.doctype hmay
  | false =>
      simp only [step, addComment, hsubset, Bool.false_eq_true, ite_false, Assembly.attach, ho,
        Document.append, Document.misplacement?, Except.map, Except.mapError,
        Except.ok.injEq] at hstep
      rw [← hstep]
      exact (doctype?_append_comment a.document text).trans (h.doctype hmay)

theorem IsBeforeRoot.doctypeStart (h : a.IsBeforeRoot mayType) (name : String)
    (systemId publicId : Option String) (hasSubset : Bool) :
  a.LeadsBy (.doctypeStart name systemId publicId hasSubset) (·.IsBeforeRoot mayType)
  := leadsBy_of_step rfl trivial ⟨⟨h.opened, h.spaces, h.closed, h.root⟩, h.doctype⟩

/-- A document type that ends is the only one. -/
theorem IsBeforeRoot.doctypeEnd (h : a.IsBeforeRoot True) :
  a.LeadsBy .doctypeEnd (·.IsBeforeRoot False)
  := by
  have ho : a.opened = [] := List.eq_nil_of_length_eq_zero h.opened
  cases hd : a.doctype with
  | none =>
      have hstep : a.step .doctypeEnd = .ok a := by simp [step, closeDoctype, hd]
      exact leadsBy_of_step hstep trivial ⟨h.toIsInside, False.elim⟩
  | some d =>
      have hplace (t : Doctype) : a.document.misplacement? (.doctype t) = none := by
        simp [Document.misplacement?, h.doctype trivial, h.root]
      obtain ⟨t, hstep⟩ : ∃ t, a.step .doctypeEnd = .ok { a with
          doctype := none
          subset := none
          document := { a.document with children := a.document.children ++ [.doctype t] } } := by
        simp only [step, closeDoctype, hd, Assembly.attach, ho, Document.append, hplace,
          Except.mapError, Except.map]
        exact ⟨_, rfl⟩
      refine leadsBy_of_step hstep trivial ⟨⟨h.opened, h.spaces, h.closed, ?_⟩, False.elim⟩
      exact (root?_append_of_not_element rfl).trans h.root

end Steps

end Assembly

end Reading

end XmlDraft
