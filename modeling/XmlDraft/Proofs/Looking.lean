import XmlDraft.Building.Session
import Mathlib.Tactic.SplitIfs

/-!
# Looking at a document

Views write markup and record it; they depend on the settings and the document alone and
change nothing but the records.  In particular they do not see which elements are open, and none
of their records tells that an element was created.
-/

namespace XmlDraft

namespace Log

/-- Whether a record tells that an element was created. -/
def Record.tellsCreation (r : Record) : Bool :=
  r.message = "Created element"

/-- The records that tell that an element was created. -/
def creations (records : List Record) : List Record :=
  records.filter Record.tellsCreation

end Log

/-- The builder with other elements open. -/
def Builder.withOpened (b : Builder) (opened : List Place) : Builder :=
  { b with draft.opened := opened }

/-- A look at a builder gives the same result whichever elements are open, and changes nothing
but the records, where it adds none of a creation. -/
structure Looks {α : Type} (look : Builder → Builder × α) : Prop where
  eq : ∀ b opened,
    look (b.withOpened opened)
      = ({ b.withOpened opened with records := (look b).1.records }, (look b).2)
  creations : ∀ b, Log.creations (look b).1.records = Log.creations b.records

namespace Builder

/-- The record of writing markup is no record of a creation. -/
theorem written_tellsCreation {layout : LayoutSection} {correlation : Json} {d : Document}
    {indented : Bool} {text : String} {record : Log.Record}
    (h : written layout correlation d indented = .ok (text, record)) :
  record.tellsCreation = false
  := by
  simp only [written, bind, Except.bind] at h
  split at h
  · cases h
  · split at h
    · cases h
    · split at h
      · cases h
      · cases h
        rfl

theorem looks_render (indented : Bool) :
  Looks fun b => b.render indented
  := by
  constructor
  · intro b opened
    simp only [render, withOpened]
    cases written b.settings.layout b.settings.correlation b.draft.document indented <;> rfl
  · intro b
    rw [render]
    cases hw : written b.settings.layout b.settings.correlation b.draft.document indented with
    | error f => rfl
    | ok result =>
        obtain ⟨text, record⟩ := result
        have hother : record.tellsCreation = false := written_tellsCreation hw
        simp [note, Log.creations, hother]

/-- A result that is changed afterwards is still a look. -/
theorem looks_map {α β : Type} {look : Builder → Builder × α} (h : Looks look) (f : α → β) :
  Looks fun b => ((look b).1, f (look b).2)
  := by
  constructor
  · intro b opened
    simp only [h.eq]
  · exact h.creations

theorem looks_renderOctets (indented : Bool) :
  Looks fun b => b.renderOctets indented
  := by
  constructor
  · intro b opened
    have hr := (looks_render indented).eq b opened
    simp only [renderOctets, encoding, withOpened] at hr ⊢
    cases (OutputEncoding.select b.draft.document.declaration).mapError Fault.ofRender with
    | error f => rfl
    | ok e => simp [hr]
  · intro b
    rw [renderOctets]
    cases b.encoding with
    | error f => rfl
    | ok e => exact (looks_render indented).creations b

theorem looks_exported {α : Type} (nothing : α) (f : String → Except Fault α) :
  Looks fun b => b.exported nothing f
  := by
  constructor
  · intro b opened
    have hr := (looks_render false).eq b opened
    simp only [exported, withOpened] at hr ⊢
    by_cases hroot : b.draft.document.root?.isNone
    · simp only [hroot, ite_true]
    · simp only [hroot, hr]
      cases b.render false with
      | mk b' text => cases text <;> rfl
  · intro b
    have hr := (looks_render false).creations b
    rw [exported]
    split_ifs
    · rfl
    · cases hrender : b.render false with
      | mk b' text =>
          rw [hrender] at hr
          cases text <;> exact hr

/-- A view is a look. -/
theorem looks_view (v : View) :
  Looks fun b => b.view v
  := by
  cases v with
  | markup indented => exact looks_map (looks_render indented) _
  | octets indented => exact looks_map (looks_renderOctets indented) _
  | plainTree => exact looks_map (looks_exported none _) _
  | fullTree => exact looks_map (looks_exported none _) _
  | fullRoot => exact looks_map (looks_exported none _) _
  | fullFirstNode => exact looks_map (looks_exported none _) _
  | objectModel => exact looks_map (looks_exported [] _) _
  | modelFirstNode => exact looks_map (looks_exported [] _) _
  | modelRoot => exact looks_map (looks_exported [] _) _
  | _ => exact ⟨fun _ _ => rfl, fun _ => rfl⟩

end Builder

/-- A view of a name does not see which elements are open, nor what was reported. -/
theorem Run.look_withOpened (b : Builder) (opened : List Place) (entries : List Entry)
    (name : String) :
  Run.look ⟨b.withOpened opened, entries⟩ name
    = (⟨{ b.withOpened opened with records := (Run.look ⟨b, []⟩ name).1.builder.records },
        entries⟩, (Run.look ⟨b, []⟩ name).2)
  := by
  simp only [look]
  cases viewOf? name with
  | none => rfl
  | some v => simp only [(Builder.looks_view v).eq]

theorem Run.look_creations (r : Run) (name : String) :
  Log.creations (r.look name).1.builder.records = Log.creations r.builder.records
  := by
  simp only [look]
  cases viewOf? name with
  | none => rfl
  | some v => exact (Builder.looks_view v).creations r.builder

end XmlDraft
