import XmlDraft.Proofs.Keeping
import XmlDraft.Proofs.Nesting

/-!
# Steps do what their nesting says

A step that keeps the places of open elements and a step at a site are taken side by side: what
one does to the builder, the other does to the children at the site, and they end and report
alike.  A fragment is entered with one more open element and left without it, however it ends.
Main statement: a session has the results that its nesting says, no element fails to be
opened, and a step leaves the same elements open as before it.
-/

namespace XmlDraft

/-! ### Fragments -/

namespace Site

/-- The element that was just added is a child of the innermost open one and can be opened. -/
theorem enter_run (s : Site) (opened : List Place) (h : Sheet) (element : Node) :
  (s.run opened { h with children := h.children ++ [element] }).enter
      (opened.headD [] ++ [h.children.length])
    = .ok ((s.inside h.children element).run ((opened.headD [] ++ [h.children.length]) :: opened)
        { h with children := element.children })
  := by
  simp [Run.enter, Draft.push, Draft.current, Site.run, Site.document, Site.inside, Except.map]

/-- Closing the element gives back the ones around it, with what the fragment added. -/
theorem leave_run (s : Site) (opened : List Place) (before : List Node) (element : Node)
    (place : Place) (inner : Sheet) :
  ((s.inside before element).run (place :: opened) inner).leave
    = s.run opened
        { inner with children := before ++ [element.withChildren inner.children] }
  := rfl

/-- An element that a builder begins is begun at the site. -/
theorem Fits.startElement_begun {s : Site} {opened : List Place} (fits : s.Fits opened) {h : Sheet}
    {v : Value} {given : List Value} {named : List (String × Value)} {b : Builder}
    {place : Place} {sequel : Builder.Sequel}
    (hs : (s.run opened h).builder.startElement v given named = (b, .ok (place, sequel))) :
  ∃ records element, s.startElement h v given named
      = ({ h with records := records }, .ok (element, sequel))
    ∧ place = opened.headD [] ++ [h.children.length]
    ∧ { s.run opened h with builder := b }
        = s.run opened { h with records := records, children := h.children ++ [element] }
  := by
  rw [fits.startElement] at hs
  rcases hsite : s.startElement h v given named with ⟨h', f | ⟨element, found⟩⟩
  · simp [hsite] at hs
  · obtain ⟨_, records, _, _, _, rfl⟩ := Site.startElement_ok hsite
    simp only [hsite, Prod.mk.injEq, Except.ok.injEq] at hs
    obtain ⟨rfl, rfl, rfl⟩ := hs
    exact ⟨records, element, rfl, rfl, rfl⟩

theorem Fits.startElement_fails {s : Site} {opened : List Place} (fits : s.Fits opened)
    {h : Sheet} {v : Value} {given : List Value} {named : List (String × Value)} {b : Builder}
    {f : Fault}
    (hs : (s.run opened h).builder.startElement v given named = (b, .error f)) :
  b.draft = (s.run opened h).builder.draft
  := by
  rw [fits.startElement] at hs
  rcases hsite : s.startElement h v given named with ⟨h', g | ⟨element, found⟩⟩
  · obtain ⟨records, rfl, _⟩ := Site.startElement_error hsite
    simp only [hsite, Prod.mk.injEq] at hs
    rw [← hs.1]
    rfl
  · simp [hsite] at hs

theorem look_run (s : Site) (opened : List Place) (h : Sheet) (name : String) :
  (s.run opened h).look name
    = (s.run opened
          { h with records := (Run.look ⟨s.builder h, []⟩ name).1.builder.records },
        (Run.look ⟨s.builder h, []⟩ name).2)
  := Run.look_withOpened (s.builder h) opened h.entries name

/-- A fragment that runs only if it takes the arguments that it is given. -/
theorem guarded_run (s : Site) (opened : List Place) (h : Sheet) {p : Prop} [Decidable p]
    {after : Outcome} {placed : Sheet × Except Fault Unit}
    (heq : after = Prod.map (s.run opened) id placed) :
  (if p then after else (s.run opened h, .error .badCall))
    = Prod.map (s.run opened) id (if p then placed else (h, .error .badCall))
  := by
  split_ifs
  · exact heq
  · rfl

theorem Fits.depth_run {s : Site} {opened : List Place} (fits : s.Fits opened) (h : Sheet) :
  (s.run opened h).builder.draft.depth = s.depth
  := fits.depth.symm

theorem Fits.callOther {s : Site} {opened : List Place} (fits : s.Fits opened) (h : Sheet)
    (name : String) (arguments : List Value) (named : List (String × Value)) :
  (s.run opened h).callOther name arguments named
    = Prod.map (s.run opened) id (s.operateNamed h name arguments named)
  := by
  unfold Run.callOther Site.operateNamed
  cases Member.ofName name with
  | operation o =>
      dsimp only
      cases o.bind arguments named with
      | error f => rfl
      | ok values => exact fits.operate h o values
  | _ => rfl

/-! ### Runs -/

mutual

theorem Fits.step {s : Site} {opened : List Place} (fits : s.Fits opened) (h : Sheet)
    (frame : Option Frame) (p : Step) :
  Run.step (s.run opened h) frame p = Prod.map (s.run opened) id (s.step h frame p)
  := by
  cases p with
  | call name arguments named =>
      rw [Run.step_call, Site.step]
      have hcall : (s.run opened h).builder.elementCall? name arguments
          = (s.builder h).elementCall? name arguments := rfl
      rw [hcall]
      cases (s.builder h).elementCall? name arguments with
      | none => exact fits.callOther h name arguments named
      | some found =>
          obtain ⟨v, given⟩ := found
          dsimp only
          rw [fits.startElement]
          cases hs : s.startElement h v given named with
          | mk h' started =>
              cases started with
              | error f =>
                  obtain ⟨records, rfl, _⟩ := startElement_error hs
                  rfl
              | ok built =>
                  obtain ⟨element, sequel⟩ := built
                  obtain ⟨_, records, _, hbuilt, _, rfl⟩ := startElement_ok hs
                  cases sequel with
                  | nothing => rfl
                  | failure f => rfl
                  | fragment takesBuilder =>
                      have he := Builder.isElement_of_elementOf hbuilt
                      have hinner := (fits.inside h.children he).runLast
                        { h with records := records, children := element.children }
                        takesBuilder arguments
                      have henter := enter_run s opened { h with records := records } element
                      simp only [Site.run] at henter hinner ⊢
                      simp only [Run.callElement, henter, hinner]
                      exact Prod.ext (leave_run s opened h.children element _ _) rfl
  | has name => rfl
  | view name => rw [Run.step, look_run]; rfl
  | depth => rw [Run.step, fits.depth_run]; rfl
  | attempt steps => rw [Run.step, fits.attempt]; rfl
  | raise message => rfl
  | interrupt => rfl
  | arguments => cases frame <;> rfl

theorem Fits.steps {s : Site} {opened : List Place} (fits : s.Fits opened) (h : Sheet)
    (frame : Option Frame) (ps : List Step) :
  Run.steps (s.run opened h) frame ps = Prod.map (s.run opened) id (s.steps h frame ps)
  := by
  cases ps with
  | nil => rfl
  | cons p ps =>
      rw [Run.steps, Site.steps, fits.step]
      rcases s.step h frame p with ⟨h', f | u⟩
      · rfl
      · exact fits.steps h' frame ps

theorem Fits.attempt {s : Site} {opened : List Place} (fits : s.Fits opened) (h : Sheet)
    (frame : Option Frame) (ps : List Step) :
  Run.attempt (s.run opened h) frame ps = s.run opened (s.attempt h frame ps)
  := by
  cases ps with
  | nil => rfl
  | cons p ps =>
      rw [Run.attempt, Site.attempt, fits.step]
      rcases s.step h frame p with ⟨h', f | u⟩
      · exact fits.attempt (h'.report (.fault f)) frame ps
      · exact fits.attempt h' frame ps

theorem Fits.runLast {s : Site} {opened : List Place} (fits : s.Fits opened) (h : Sheet)
    (takesBuilder : Bool) (vs : List Value) :
  Run.runLast (s.run opened h) takesBuilder vs
    = Prod.map (s.run opened) id (s.runLast h takesBuilder vs)
  := by
  cases vs with
  | nil => rfl
  | cons v vs =>
      rw [Run.runLast, Site.runLast]
      split_ifs
      · exact fits.runLast h takesBuilder vs
      · exact fits.invoke h takesBuilder v

theorem Fits.invoke {s : Site} {opened : List Place} (fits : s.Fits opened) (h : Sheet)
    (takesBuilder : Bool) (v : Value) :
  Run.invoke (s.run opened h) takesBuilder v
    = Prod.map (s.run opened) id (s.invoke h takesBuilder v)
  := by
  cases v with
  | function ps body => exact guarded_run s opened h (fits.steps h _ body)
  | bound ps given body => exact guarded_run s opened h (fits.steps h _ body)
  | callable ps fields body flag => exact guarded_run s opened h (fits.steps h _ body)
  | _ => rfl

end

/-! ### Sessions -/

theorem render_run (s : Site) (opened : List Place) (h : Sheet) (indented : Bool) :
  (s.run opened h).builder.render indented
    = ((s.run opened { h with records := ((s.builder h).render indented).1.records }).builder,
        ((s.builder h).render indented).2)
  := (Builder.looks_render indented).eq (s.builder h) opened

theorem runSteps_eq (s : Site) (fits : s.Fits []) (h : Sheet) (ps : List Step) :
  (s.builder h).runSteps ps = Prod.map s.builder id (s.session h ps)
  := by
  induction ps generalizing h with
  | nil => rfl
  | cons p ps ih =>
      have hstep : Run.step ⟨s.builder h, []⟩ none p
          = Prod.map (s.run []) id (s.step { h with entries := [] } none p) :=
        fits.step { h with entries := [] } none p
      simp only [Builder.runSteps, Builder.runStep, Site.session, hstep]
      rcases s.step { h with entries := [] } none p with ⟨after, outcome⟩
      have hrender := render_run s [] after false
      simp only [Prod.map, id]
      rw [hrender]
      have hrest := ih { after with records := ((s.builder after).render false).1.records }
      simp only [Site.builder, Site.run, Site.document] at hrest ⊢
      rw [hrest]
      rfl

end Site

/-- Sessions follow the nesting of their steps.  On a builder of any document the steps of a
session leave the document, and end, fail and report, as they do by recursion on their nesting;
the element that a call begins can always be opened; and a step leaves the same elements open
as before it, however it ends. -/
theorem sessions_follow_nesting (d : Document) (settings : Settings)
    (records : List Log.Record) (steps : List Step) :
  (Builder.ofDocument d settings records).runSteps steps
      = Prod.map (Site.top settings).builder id
          ((Site.top settings).session ⟨d.declaration, d.children, records, []⟩ steps)
    ∧ (∀ (b : Builder) (v : Value) (given : List Value) (named : List (String × Value)),
        (b.startElement v given named).2.toOption.all fun started =>
          ((b.startElement v given named).1.draft.push started.1).toOption.isSome)
    ∧ ∀ (r : Run) (frame : Option Frame) (p : Step),
        (Run.step r frame p).1.builder.draft.opened = r.builder.draft.opened
  := by
  refine ⟨?_, ?_, Run.step_opened⟩
  · exact (Site.top settings).runSteps_eq (Site.top_fits settings)
      ⟨d.declaration, d.children, records, []⟩ steps
  · intro b v given named
    have hstart := b.startElement_opened v given named
    rcases hs : b.startElement v given named with ⟨b', f | ⟨place, fragment⟩⟩
    · rfl
    · rw [hs] at hstart
      obtain ⟨hopened, hplace⟩ := hstart
      obtain ⟨width, hwidth⟩ := hplace place fragment rfl
      have hcurrent : b'.draft.current = b.draft.current := congrArg (·.headD []) hopened
      rw [← hcurrent] at hwidth
      simp [Except.toOption, hwidth, Draft.push_nextPlace]

/-- The number of open elements that was reported. -/
def Entry.depth? : Entry → Option Nat
  | depth n => some n
  | _ => none

/-- A fragment that fails within another one, which goes on after it: the element of the one keeps
what was added before the failure, and what follows is added to the element of the other. -/
theorem sessions_follow_nesting_of_failure :
  let inner : Value := .function [] [.call "Text" [.str "t"] [], .depth, .raise "stop"]
  let outer : Value :=
    .function [] [.attempt [.call "b" [inner] []], .depth, .call "c" [] []]
  let results := ((Builder.ofDocument {} {} []).runSteps [.call "a" [outer] [], .depth]).2
  results.map StepResult.state = [some "<a><b>t</b><c /></a>", some "<a><b>t</b><c /></a>"]
    ∧ results.map (fun r => r.entries.filterMap Entry.depth?) = [[2, 1], [0]]
    ∧ results.all (fun r => r.outcome.isOk)
  := by
  intro inner outer results
  have hsession := (sessions_follow_nesting {} {} [] [.call "a" [outer] [], .depth]).1
  have hresults : results = ((Site.top {}).session {} [.call "a" [outer] [], .depth]).2 := by
    simp only [results, hsession, Prod.map_snd, id]
  rw [hresults]
  decide +kernel

end XmlDraft
