import XmlDraft.Proofs.Found
import XmlDraft.Proofs.Handling

/-!
# Phases of a document

The events of a well-formed document come in an order: first its declaration, then comments and
instructions around one document type at most, then the root with what is well nested in it, and
behind it comments and instructions again.  Each event leads from one phase of the document to
another.  Main statement: events in this order are handled one after another, and give a document
with a root.
-/

namespace XmlDraft

namespace Reading

/-- How far the events of a document have come. -/
inductive Phase where
  /-- Nothing has come yet. -/
  | beginning
  /-- Before the root, where a document type may still come, or none any more. -/
  | front (mayType : Bool)
  /-- Inside the document type, which has an internal subset or none. -/
  | doctype (hasSubset : Bool)
  /-- Inside the root, and inside so many elements of it. -/
  | content (depth : Nat)
  /-- In a CDATA section there. -/
  | cdata (depth : Nat)
  /-- Behind the root. -/
  | behind
deriving DecidableEq, Repr

namespace Phase

/-- The phase once the place of the declaration is left. -/
def begun : Phase → Phase
  | beginning => front true
  | p => p

/-- Whether comments and instructions may come in a phase. -/
def allowsAsides : Phase → Bool
  | front _ => true
  | doctype hasSubset => hasSubset
  | content _ => true
  | behind => true
  | _ => false

/-- The phase inside so many elements, which is behind the root inside none. -/
def within : Nat → Phase
  | 0 => behind
  | depth + 1 => content depth

end Phase

/-- The order of events: an event may come in a phase, and leads to another one. -/
inductive Follows : Phase → Event → Phase → Prop
  | declaration (version : String) (encoding : Option String) (standalone : Option Bool) :
      Follows .beginning (.declaration version encoding standalone) (.front true)
  | comment {p : Phase} {text : String} (hp : p.begun.allowsAsides)
      (whole : breaksComment text.toList = false) : Follows p (.comment text) p.begun
  | instruction {p : Phase} (raw : List Char) (target data : String) (hp : p.begun.allowsAsides) :
      Follows p (.instruction raw target data) p.begun
  | plain {p : Phase} (raw : List Char) (hp : p.begun.allowsAsides) : Follows p (.plain raw) p.begun
  | doctypeStart {p : Phase} (name : String) (systemId publicId : Option String) (hasSubset : Bool)
      (hp : p.begun = .front true) :
      Follows p (.doctypeStart name systemId publicId hasSubset) (.doctype hasSubset)
  | doctypeEnd (hasSubset : Bool) : Follows (.doctype hasSubset) .doctypeEnd (.front false)
  | root {p : Phase} {mayType : Bool} {tag : Tag} (hp : p.begun = .front mayType)
      (named : tag.name.raw ≠ "") : Follows p (.start tag) (.content 0)
  | start (depth : Nat) {tag : Tag} (named : tag.name.raw ≠ "") :
      Follows (.content depth) (.start tag) (.content (depth + 1))
  | finish (depth : Nat) : Follows (.content depth) .finish (.within depth)
  | characters (depth : Nat) (cs : List Char) :
      Follows (.content depth) (.characters cs) (.content depth)
  | unresolved (depth : Nat) (name : String) :
      Follows (.content depth) (.unresolved name) (.content depth)
  | sectionStart (depth : Nat) : Follows (.content depth) .cdataStart (.cdata depth)
  | sectionCharacters (depth : Nat) (cs : List Char) :
      Follows (.cdata depth) (.characters cs) (.cdata depth)
  | sectionEnd (depth : Nat) : Follows (.cdata depth) .cdataEnd (.content depth)

/-- Events that come one after another, from one phase to another. -/
inductive Proceeds : Phase → List Event → Phase → Prop
  | nil (p : Phase) : Proceeds p [] p
  | cons {p q r : Phase} {e : Event} {es : List Event} :
      Follows p e q → Proceeds q es r → Proceeds p (e :: es) r

/-- Events in the order of a well-formed document, from its beginning to its end. -/
def IsWellFormed (es : List Event) : Prop :=
  Proceeds .beginning es .behind

/-- Events whose character data is not empty. -/
def HasData (es : List Event) : Prop :=
  ∀ cs, .characters cs ∈ es → cs ≠ []

theorem Proceeds.append {p q r : Phase} {before after : List Event} (h : Proceeds p before q)
    (hafter : Proceeds q after r) :
  Proceeds p (before ++ after) r
  := by
  induction h with
  | nil p => exact hafter
  | cons hfollows _ ih => exact .cons hfollows (ih hafter)

theorem Proceeds.single {p q : Phase} {e : Event} (h : Follows p e q) :
  Proceeds p [e] q
  := .cons h (.nil q)

theorem hasData_cons {e : Event} {es : List Event} :
  HasData (e :: es) ↔ (∀ cs, e = .characters cs → cs ≠ []) ∧ HasData es
  := by
  simp only [HasData, List.mem_cons, or_imp, forall_and, eq_comm]

theorem hasData_append {before after : List Event} :
  HasData (before ++ after) ↔ HasData before ∧ HasData after
  := by
  simp only [HasData, List.mem_append, or_imp, forall_and]

/-! ### Assemblies in a phase -/

namespace Assembly

variable {a b : Assembly} {e : Event}

/-- Attaching a node concerns the tree only. -/
theorem attach_ok {n : Node} (h : a.attach n = .ok b) :
  b.subset = a.subset ∧ b.doctype = a.doctype ∧ b.openSection = a.openSection
  := by
  unfold attach at h
  split at h
  · cases h
    exact ⟨rfl, rfl, rfl⟩
  · obtain ⟨d, _, rfl⟩ := map_ok h
    exact ⟨rfl, rfl, rfl⟩

/-- Outside the subset nothing is kept as it is written. -/
theorem addToSubset_outside (hsubset : a.subset = none) (s : String) :
  a.addToSubset s = a
  := by
  rw [addToSubset, hsubset, Option.map_none, ← hsubset]

/-- No subset is begun but by a document type. -/
theorem step_outside (hsubset : a.subset = none) (h : a.step e = .ok b)
    (he : ∀ name systemId publicId hasSubset, e ≠ .doctypeStart name systemId publicId hasSubset) :
  b.subset = none
  := by
  cases e with
  | doctypeStart name systemId publicId hasSubset => exact absurd rfl (he _ _ _ _)
  | doctypeEnd =>
      simp only [step, closeDoctype, hsubset] at h
      split at h
      · cases h
        exact hsubset
      · exact (attach_ok h).1
  | start tag =>
      simp only [step, openTag] at h
      split at h
      · cases h
      · cases h
        exact hsubset
  | finish =>
      simp only [step, closeTag] at h
      split at h
      · exact (attach_ok h).1.trans hsubset
      · cases h
        exact hsubset
  | characters cs =>
      cases h
      unfold addCharacters
      split
      · exact hsubset
      · split
        · exact hsubset
        · exact hsubset
  | comment text =>
      simp only [step, addComment, hsubset] at h
      exact (attach_ok h).1.trans hsubset
  | instruction | plain =>
      cases h
      rw [addToSubset_outside hsubset]
      exact hsubset
  | cdataEnd =>
      simp only [step, closeSection] at h
      split at h
      · split_ifs at h
        · cases h
          exact hsubset
        · exact (attach_ok h).1.trans hsubset
      · cases h
        exact hsubset
  | declaration | cdataStart | unresolved =>
      cases h
      exact hsubset

/-- What an assembly is like in a phase. -/
def Fits (a : Assembly) : Phase → Prop
  | .beginning => a.subset = none ∧ a.IsBeforeRoot True
  | .front mayType => a.subset = none ∧ a.IsBeforeRoot mayType
  | .doctype hasSubset => a.subset.isSome = hasSubset ∧ a.doctype.isSome ∧ a.IsBeforeRoot True
  | .content depth => a.subset = none ∧ a.IsInside (depth + 1)
  | .cdata depth => a.subset = none ∧ a.IsInSection (depth + 1)
  | .behind => a.subset = none ∧ a.openSection = none ∧ a.IsDone

theorem Fits.begun {p : Phase} (h : a.Fits p) :
  a.Fits p.begun
  := by
  cases p with
  | beginning => exact ⟨h.1, h.2.toIsInside, fun _ => h.2.doctype trivial⟩
  | _ => exact h

/-- An event that is taken outside the subset leads outside of it again. -/
theorem LeadsBy.outside {P : Assembly → Prop} (h : a.LeadsBy e P) (hsubset : a.subset = none)
    (he : ∀ name systemId publicId hasSubset, e ≠ .doctypeStart name systemId publicId hasSubset) :
  ∃ b, a.step e = .ok b ∧ b.subset = none ∧ P b
  := by
  obtain ⟨_, b, hstep, hb⟩ := h
  exact ⟨b, hstep, step_outside hsubset hstep he, hb⟩

/-- What is written in a phase goes to the subset, if there is one, and changes nothing else. -/
theorem Fits.addToSubset {p : Phase} (h : a.Fits p) (s : String) :
  (a.addToSubset s).Fits p
  := by
  cases p with
  | doctype hasSubset =>
      obtain ⟨hsubset, hdoctype, hfront⟩ := h
      exact ⟨by simpa [Assembly.addToSubset] using hsubset, hdoctype, hfront.addToSubset s⟩
  | _ =>
      rw [addToSubset_outside h.1]
      exact h

/-- A comment is taken wherever comments may come. -/
theorem Fits.comment {p : Phase} (h : a.Fits p) (hp : p.allowsAsides) {text : String}
    (whole : breaksComment text.toList = false) :
  ∃ b, a.step (.comment text) = .ok b ∧ b.Fits p
  := by
  cases p with
  | beginning => cases hp
  | front mayType => exact (h.2.comment whole).outside h.1 (by simp)
  | doctype hasSubset =>
      cases hasSubset with
      | false => cases hp
      | true => exact ⟨_, step_comment_subset h.1 text, h.addToSubset _⟩
  | content depth => exact (h.2.comment whole).outside h.1 (by simp)
  | cdata depth => cases hp
  | behind =>
      obtain ⟨b, hstep, hsubset, hdone⟩ := (h.2.2.comment whole).outside h.1 (by simp)
      refine ⟨b, hstep, hsubset, ?_, hdone⟩
      simp only [step, addComment, h.1] at hstep
      exact (attach_ok hstep).2.2.trans h.2.1

/-- An end tag leads outside the innermost element. -/
theorem Fits.finish {depth : Nat} (h : a.Fits (.content depth)) :
  ∃ b, a.step .finish = .ok b ∧ b.Fits (.within depth)
  := by
  obtain ⟨b, hstep, hsubset, hb⟩ := h.2.finish.outside h.1 (by simp)
  refine ⟨b, hstep, ?_⟩
  cases depth with
  | succ depth => exact ⟨hsubset, by simpa using hb⟩
  | zero =>
      refine ⟨hsubset, ?_, by simpa using hb⟩
      simp only [step, closeTag] at hstep
      split at hstep
      · exact (attach_ok hstep).2.2.trans h.2.closed
      · cases hstep
        exact h.2.closed

end Assembly

open Assembly (Fits)

variable {a b : Assembly} {p q : Phase} {e : Event} {es : List Event}

/-- An event that comes next is taken, and leads to an assembly as it is in the next phase. -/
theorem Follows.step (h : Follows p e q) (ha : a.Fits p) :
  ∃ b, a.step e = .ok b ∧ b.Fits q
  := by
  cases h with
  | declaration version encoding standalone =>
      obtain ⟨hsubset, hfront⟩ := ha
      exact ⟨_, rfl, hsubset, ⟨hfront.opened, hfront.spaces, hfront.closed, hfront.root⟩,
        fun _ => hfront.doctype trivial⟩
  | comment hp whole => exact ha.begun.comment hp whole
  | instruction raw target data hp => exact ⟨_, rfl, ha.begun.addToSubset _⟩
  | plain raw hp => exact ⟨_, rfl, ha.begun.addToSubset _⟩
  | doctypeStart name systemId publicId hasSubset hp =>
      obtain ⟨hsubset, hfront⟩ : a.Fits (.front true) := hp ▸ ha.begun
      refine ⟨_, rfl, by cases hasSubset <;> rfl, rfl, ?_⟩
      exact ⟨⟨hfront.opened, hfront.spaces, hfront.closed, hfront.root⟩,
        fun _ => hfront.doctype rfl⟩
  | doctypeEnd hasSubset =>
      obtain ⟨_, hdoctype, hfront⟩ := ha
      obtain ⟨_, b, hstep, hb⟩ := hfront.doctypeEnd
      obtain ⟨d, hd⟩ := Option.isSome_iff_exists.mp hdoctype
      refine ⟨b, hstep, ?_, hb.toIsInside, fun h => Bool.noConfusion h⟩
      simp only [Assembly.step, Assembly.closeDoctype, hd] at hstep
      exact (Assembly.attach_ok hstep).1
  | @root _ mayType tag hp named =>
      obtain ⟨hsubset, hfront⟩ : a.Fits (.front mayType) := hp ▸ ha.begun
      exact (hfront.toIsInside.start named).outside hsubset (by simp)
  | start depth named => exact (ha.2.start named).outside ha.1 (by simp)
  | finish depth => exact ha.finish
  | characters depth cs => exact (ha.2.characters cs).outside ha.1 (by simp)
  | unresolved depth name => exact ⟨a, rfl, ha⟩
  | sectionStart depth => exact ha.2.sectionStart.outside ha.1 (by simp)
  | sectionCharacters depth cs => exact (ha.2.characters cs).outside ha.1 (by simp)
  | sectionEnd depth => exact ha.2.finish.outside ha.1 (by simp)

/-- Events in order are handled one after another. -/
theorem Proceeds.run (h : Proceeds p es q) (ha : a.Fits p) :
  ∃ b, a.run es = .ok b ∧ b.Fits q
  := by
  induction h generalizing a with
  | nil p => exact ⟨a, rfl, ha⟩
  | cons hfollows _ ih =>
      obtain ⟨b, hstep, hb⟩ := hfollows.step ha
      rw [Assembly.run, hstep]
      exact ih hb

theorem Assembly.fits_empty :
  ({} : Assembly).Fits .beginning
  := ⟨rfl, isInside_empty, fun _ => rfl⟩

/-- The events of a well-formed document give a document with a root, which is what was put together
from them. -/
theorem IsWellFormed.document (h : IsWellFormed es) :
  ∃ b, ({} : Assembly).run es = .ok b ∧ b.Fits .behind ∧ Document.ofEvents es = .ok b.document
  := by
  obtain ⟨b, hrun, hb⟩ := Proceeds.run h Assembly.fits_empty
  refine ⟨b, hrun, hb, ?_⟩
  rw [Document.ofEvents, hrun]
  simp only [bind, Except.bind, hb.2.2.root, if_true]

end Reading

end XmlDraft
