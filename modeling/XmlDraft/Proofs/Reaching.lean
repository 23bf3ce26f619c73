import XmlDraft.Proofs.Simulation

/-!
# What a state leads to

The states that the steps of a session lead to from a given one: those after a step, after a
report and after the markup was written, and those inside the fragment of a new element.  Main
statement: what holds at a site at the beginning holds at the site of every later state, if steps
keep it and if it goes over to the fragments of new elements.
-/

namespace XmlDraft

/-- A state that steps lead to from the state `start`. -/
inductive Run.LeadsTo (start : Run) : Run → Prop
  | refl : LeadsTo start start
  | step {r : Run} (frame : Option Frame) (p : Step) :
      LeadsTo start r → LeadsTo start (Run.step r frame p).1
  | report {r : Run} (e : Entry) : LeadsTo start r → LeadsTo start (r.report e)
  | render {r : Run} :
      LeadsTo start r → LeadsTo start ⟨(r.builder.render false).1, []⟩
  | enter {r inner : Run} {v : Value} {given : List Value} {named : List (String × Value)}
      {b : Builder} {place : Place} {takesBuilder : Bool} :
      LeadsTo start r →
      r.builder.startElement v given named = (b, .ok (place, .fragment takesBuilder)) →
      Run.enter { r with builder := b } place = .ok inner → LeadsTo start inner

namespace Site

/-- What holds at every moment once it holds: at a site it is kept along a relation that steps
keep, and it holds in the fragment of a new element if it holds around it. -/
structure Lasts (R : Site → Sheet → Sheet → Prop) (P : Site → List Place → Sheet → Prop) :
    Prop where
  kept : Kept R
  along {s : Site} {opened : List Place} {h after : Sheet} :
    s.Fits opened → P s opened h → R s h after → P s opened after
  enter {s : Site} {opened : List Place} {h : Sheet} {records : List Log.Record} {v : Value}
    {given : List Value} {named : List (String × Value)} {element : Node} {takesBuilder : Bool} :
    s.Fits opened → P s opened h →
    s.startElement h v given named
      = ({ h with records := records }, .ok (element, .fragment takesBuilder)) →
    P (s.inside h.children element) ((opened.headD [] ++ [h.children.length]) :: opened)
      { h with records := records, children := element.children }

/-- A state that stands at a site where something holds. -/
def Holds (P : Site → List Place → Sheet → Prop) (r : Run) : Prop :=
  ∃ s opened h, Fits s opened ∧ r = s.run opened h ∧ P s opened h

/-- What lasts holds in every state that steps lead to, if it holds in the first one. -/
theorem Lasts.holds {R : Site → Sheet → Sheet → Prop} {P : Site → List Place → Sheet → Prop}
    (lasts : Lasts R P) {start r : Run} (hstart : Holds P start) (h : start.LeadsTo r) :
  Holds P r
  := by
  induction h with
  | refl => exact hstart
  | step frame p _ ih =>
      obtain ⟨s, opened, sheet, fits, rfl, hp⟩ := ih
      refine ⟨s, opened, (s.step sheet frame p).1, fits, ?_, ?_⟩
      · exact congrArg Prod.fst (fits.step sheet frame p)
      · exact lasts.along fits hp (lasts.kept.step s sheet frame p)
  | report e _ ih =>
      obtain ⟨s, opened, sheet, fits, rfl, hp⟩ := ih
      exact ⟨s, opened, sheet.report e, fits, rfl, lasts.along fits hp (lasts.kept.same rfl rfl rfl)⟩
  | render _ ih =>
      obtain ⟨s, opened, sheet, fits, rfl, hp⟩ := ih
      rw [Site.render_run]
      refine ⟨s, opened, { sheet with
        records := ((s.builder sheet).render false).1.records, entries := [] }, fits, rfl, ?_⟩
      have hwritten := (Builder.looks_render false).creations (s.builder sheet)
      exact lasts.along fits hp (lasts.kept.same rfl rfl hwritten)
  | enter _ hs henter ih =>
      obtain ⟨s, opened, sheet, fits, rfl, hp⟩ := ih
      obtain ⟨records, element, hsite, rfl, hb⟩ := fits.startElement_begun hs
      obtain ⟨_, _, _, helement, _⟩ := Site.startElement_ok hsite
      have hinner := Site.enter_run s opened { sheet with records := records } element
      rw [hb] at henter
      cases hinner.symm.trans henter
      exact ⟨_, _, _, fits.inside sheet.children (Builder.isElement_of_elementOf helement), rfl,
        lasts.enter fits hp hsite⟩

theorem lasts_trivial :
  Lasts (fun _ _ _ => True) fun _ _ _ => True
  where
    kept := by constructor <;> intros <;> trivial
    along _ _ _ := trivial
    enter _ _ _ := trivial

end Site

end XmlDraft
