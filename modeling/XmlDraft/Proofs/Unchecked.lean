import XmlDraft.Proofs.Found
import XmlDraft.Proofs.Keeping
import XmlDraft.Proofs.Taking

/-!
# Names that are not checked

The checks of names only refuse.  A builder that checks names runs beside one in the same state
that may do without: where the checks refuse nothing, both do the same.  Main statement: if all
calls of a session return where names are checked, the session goes the same way where they are
not.
-/

namespace XmlDraft

/-! ### What the checks let through -/

/-- The settings with another word on the checks of names. -/
def Settings.withChecks (s : Settings) (checks : Json) : Settings :=
  { s with checkNames := checks }

@[simp]
theorem Settings.withChecks_escapeMark (s : Settings) (checks : Json) :
  (s.withChecks checks).escapeMark = s.escapeMark
  := rfl

namespace Prepared

theorem one_unchecked {name : FieldName} {v : Value} {p : FieldName × Option String}
    (h : one true name v = .ok p) (checked : Bool) :
  one checked name v = .ok p
  := by
  cases checked with
  | true => exact h
  | false =>
      simp only [one, bind, ite_true] at h
      obtain ⟨name', _, h⟩ := Reading.bind_ok h
      simpa [one] using h

/-- Attributes whose names pass the checks get the same texts without them. -/
theorem ofFields_unchecked {bag : List (FieldName × Value)} {ps : Prepared}
    (h : ofFields true bag = .ok ps) (checked : Bool) :
  ofFields checked bag = .ok ps
  := by
  induction bag generalizing ps with
  | nil => exact h
  | cons a rest ih =>
      obtain ⟨name, v⟩ := a
      obtain ⟨p, hp, h⟩ := Reading.bind_ok h
      obtain ⟨others, hrest, h⟩ := Reading.bind_ok h
      simp only [ofFields, bind, Except.bind, one_unchecked hp, ih hrest]
      exact h

end Prepared

namespace Builder

section

variable {settings : Settings} (hchecks : settings.checkNames.counts) (checks : Json)

include hchecks

theorem tagName_withChecks {v : Value} {name : Wording} (h : tagName settings v = .ok name) :
  tagName (settings.withChecks checks) v = .ok name
  := by
  obtain ⟨text, htext, h⟩ := Reading.bind_ok h
  obtain ⟨found, hfound, h⟩ := Reading.bind_ok h
  simp only [hchecks, ite_true] at h
  simp only [tagName, bind, Except.bind, htext, Settings.withChecks_escapeMark, hfound]
  split_ifs at h with hempty
  rw [if_neg hempty, h, (Site.check_ok h).2, ite_self]

theorem elementOf_withChecks {name : Wording} {given : List Value} {named : List (String × Value)}
    {begun : Node × Sequel} (h : elementOf settings name given named = .ok begun) :
  elementOf (settings.withChecks checks) name given named = .ok begun
  := by
  obtain ⟨classified, prepared, q, hclassify, hprepared, hq, helement, hsequel⟩ := elementOf_ok h
  rw [hchecks] at hprepared
  simp only [elementOf, bind, Except.bind, hclassify, hq,
    Prepared.ofFields_unchecked hprepared (settings.withChecks checks).checkNames.counts]
  rw [← helement, ← hsequel]

theorem doctypeOf_withChecks {name publicId systemId subset : Value} {d : Doctype}
    (h : doctypeOf settings name publicId systemId subset = .ok d) :
  doctypeOf (settings.withChecks checks) name publicId systemId subset = .ok d
  := by
  obtain ⟨text, htext, h⟩ := Reading.bind_ok h
  simp only [hchecks, ite_true] at h
  obtain ⟨name', hname, h⟩ := Reading.bind_ok h
  simp only [doctypeOf, bind, Except.bind, htext, hname, ite_self]
  exact h

end

end Builder

/-! ### A builder beside one with other checks -/

/-- The builder with another word on the checks of names. -/
def Builder.withChecks (b : Builder) (checks : Json) : Builder :=
  { b with settings := b.settings.withChecks checks }

@[simp]
theorem Builder.withChecks_settings (b : Builder) (checks : Json) :
  (b.withChecks checks).settings = b.settings.withChecks checks
  := rfl

@[simp]
theorem Builder.withChecks_draft (b : Builder) (checks : Json) :
  (b.withChecks checks).draft = b.draft
  := rfl

/-- A builder that checks names, and one in the same state with another word on the checks. -/
structure Builder.IsBeside (checks : Json) (b other : Builder) : Prop where
  checked : b.settings.checkNames.counts
  eq : other = b.withChecks checks

namespace Builder

variable {checks : Json} {b other : Builder}

theorem IsBeside.withDraft (beside : b.IsBeside checks other) (draft : Draft) :
  IsBeside checks { b with draft := draft } { other with draft := draft }
  := by
  obtain ⟨hchecks, rfl⟩ := beside
  exact ⟨hchecks, rfl⟩

/-- An element that begins under the checks begins without them. -/
theorem IsBeside.startElement (beside : b.IsBeside checks other) {v : Value} {given : List Value}
    {named : List (String × Value)} {after : Builder} {begun : Place × Sequel}
    (h : b.startElement v given named = (after, .ok begun)) :
  ∃ after', other.startElement v given named = (after', .ok begun) ∧ after.IsBeside checks after'
  := by
  obtain ⟨hchecks, rfl⟩ := beside
  rw [Builder.startElement, warn_eq] at h
  rw [Builder.startElement, warn_eq]
  cases hname : tagName b.settings v with
  | error f => simp [hname] at h
  | ok name =>
      rw [withChecks_settings, tagName_withChecks hchecks checks hname]
      simp only [hname] at h ⊢
      cases helement : elementOf b.settings name given named with
      | error f => simp [helement] at h
      | ok built =>
          rw [elementOf_withChecks hchecks checks helement]
          obtain ⟨element, sequel⟩ := built
          simp only [helement, withChecks_draft] at h ⊢
          cases hdraft : b.draft.append element with
          | error f => simp [hdraft] at h
          | ok draft =>
              simp only [hdraft] at h ⊢
              cases h
              exact ⟨_, rfl, hchecks, rfl⟩

end Builder

/-! ### Views -/

namespace Builder

/-- A look at a builder leaves its settings as they are. -/
theorem settings_of_looks {α : Type} {look : Builder → Builder × α} (h : Looks look)
    (b : Builder) :
  (look b).1.settings = b.settings
  := congrArg (fun seen => seen.1.settings) (h.eq b b.draft.opened)

/-- A look at a builder does not see whether names are checked. -/
def Overlooks {α : Type} (checks : Json) (look : Builder → Builder × α) : Prop :=
  ∀ b, look (b.withChecks checks) = ((look b).1.withChecks checks, (look b).2)

variable {checks : Json}

theorem overlooks_render (indented : Bool) :
  Overlooks checks fun b => b.render indented
  := by
  intro b
  simp only [render, withChecks, Settings.withChecks]
  cases written b.settings.layout b.settings.correlation b.draft.document indented <;> rfl

/-- A result that is changed afterwards overlooks the same. -/
theorem Overlooks.map {α β : Type} {look : Builder → Builder × α} (h : Overlooks checks look)
    (f : α → β) :
  Overlooks checks fun b => ((look b).1, f (look b).2)
  := by
  intro b
  dsimp only
  rw [h b]

theorem overlooks_renderOctets (indented : Bool) :
  Overlooks checks fun b => b.renderOctets indented
  := by
  intro b
  have hrender : (b.withChecks checks).render indented
      = ((b.render indented).1.withChecks checks, (b.render indented).2) :=
    overlooks_render indented b
  simp only [renderOctets, show (b.withChecks checks).encoding = b.encoding from rfl, hrender]
  cases b.encoding <;> rfl

theorem overlooks_exported {α : Type} (nothing : α) (f : String → Except Fault α) :
  Overlooks checks fun b => b.exported nothing f
  := by
  intro b
  have hrender : (b.withChecks checks).render false
      = ((b.render false).1.withChecks checks, (b.render false).2) :=
    overlooks_render false b
  simp only [exported, withChecks_draft, hrender]
  split_ifs
  · rfl
  · rcases b.render false with ⟨after, f | text⟩ <;> rfl

/-- No view sees whether names are checked. -/
theorem overlooks_view (v : View) :
  Overlooks checks fun b => b.view v
  := by
  cases v with
  | markup indented => exact (overlooks_render indented).map _
  | octets indented => exact (overlooks_renderOctets indented).map _
  | plainTree => exact (overlooks_exported none _).map _
  | fullTree => exact (overlooks_exported none _).map _
  | fullRoot => exact (overlooks_exported none _).map _
  | fullFirstNode => exact (overlooks_exported none _).map _
  | objectModel => exact (overlooks_exported [] _).map _
  | modelFirstNode => exact (overlooks_exported [] _).map _
  | modelRoot => exact (overlooks_exported [] _).map _
  | _ => exact fun _ => rfl

/-- A look shows the same in two builders that differ in the checks of names. -/
theorem IsBeside.look {α : Type} {look : Builder → Builder × α} {b other : Builder}
    (beside : b.IsBeside checks other) (hlooks : Looks look) (hover : Overlooks checks look) :
  (look b).1.IsBeside checks (look other).1 ∧ (look other).2 = (look b).2
  := by
  obtain ⟨hchecks, rfl⟩ := beside
  rw [hover b]
  refine ⟨⟨?_, rfl⟩, rfl⟩
  rw [settings_of_looks hlooks]
  exact hchecks

end Builder

/-! ### Operations -/

namespace Builder

variable {checks : Json} {b other : Builder}

theorem IsBeside.draft_eq (beside : b.IsBeside checks other) :
  other.draft = b.draft
  := by
  rw [beside.eq]
  rfl

/-- A change that succeeds under the checks has a counterpart that succeeds as well. -/
def CarriesOver (checks : Json) (x y : Except Fault Builder) : Prop :=
  ∀ after, x = .ok after → ∃ after', y = .ok after' ∧ after.IsBeside checks after'

theorem CarriesOver.bind {α : Type} {x : Except Fault α} {f g : α → Except Fault Builder}
    (h : ∀ a, CarriesOver checks (f a) (g a)) :
  CarriesOver checks (x.bind f) (x.bind g)
  := by
  intro after hafter
  obtain ⟨a, rfl, hafter⟩ := Reading.bind_ok hafter
  exact h a after hafter

theorem IsBeside.addNode (beside : b.IsBeside checks other) (n : Node) :
  CarriesOver checks (b.addNode n) (other.addNode n)
  := by
  intro after h
  obtain ⟨hchecks, rfl⟩ := beside
  obtain ⟨draft, hdraft, rfl⟩ := Reading.map_ok h
  refine ⟨_, ?_, hchecks, rfl⟩
  rw [Builder.addNode, withChecks_draft, hdraft]
  rfl

theorem IsBeside.addDoctype (beside : b.IsBeside checks other)
    (name publicId systemId subset : Value) :
  CarriesOver checks (b.addDoctype name publicId systemId subset)
    (other.addDoctype name publicId systemId subset)
  := by
  intro after h
  obtain ⟨hchecks, rfl⟩ := beside
  rw [addDoctype_eq] at h
  obtain ⟨d, hd, h⟩ := Reading.bind_ok h
  obtain ⟨document, hdocument, rfl⟩ := Reading.map_ok h
  refine ⟨_, ?_, hchecks, rfl⟩
  rw [addDoctype_eq, withChecks_settings, doctypeOf_withChecks hchecks checks hd]
  simp only [Except.bind, withChecks_draft, hdocument]
  rfl

theorem IsBeside.setDeclaration (beside : b.IsBeside checks other)
    (version encoding standalone : Value) :
  CarriesOver checks (.ok (b.setDeclaration version encoding standalone))
    (.ok (other.setDeclaration version encoding standalone))
  := by
  intro after h
  obtain ⟨hchecks, rfl⟩ := beside
  cases h
  exact ⟨_, rfl, hchecks, rfl⟩

/-- The element that a call begins, if it begins one, does not depend on the checks. -/
theorem IsBeside.elementCall? (beside : b.IsBeside checks other) (name : String)
    (arguments : List Value) :
  other.elementCall? name arguments = b.elementCall? name arguments
  := by
  rw [beside.eq]
  rfl

end Builder

namespace Run

/-- A run that checks names, and one in the same state with another word on the checks. -/
structure IsBeside (checks : Json) (r other : Run) : Prop where
  builder : r.builder.IsBeside checks other.builder
  entries : other.entries = r.entries

/-- Steps that end in the same way, in states beside each other. -/
structure EndBeside (checks : Json) (o other : Outcome) : Prop where
  state : o.1.IsBeside checks other.1
  outcome : other.2 = o.2

variable {checks : Json} {r other : Run}

theorem IsBeside.report (beside : r.IsBeside checks other) (e : Entry) :
  (r.report e).IsBeside checks (other.report e)
  := by
  constructor
  · exact beside.builder
  · exact congrArg (e :: ·) beside.entries

theorem IsBeside.endBeside (beside : r.IsBeside checks other) (outcome : Except Fault Unit) :
  EndBeside checks (r, outcome) (other, outcome)
  := ⟨beside, rfl⟩

/-- Steps that end in the same way either all succeed or fail with the same fault. -/
theorem EndBeside.cases {o o' : Outcome} (h : EndBeside checks o o') :
  ∃ after after', after.IsBeside checks after'
    ∧ ((o = (after, .ok ()) ∧ o' = (after', .ok ()))
      ∨ ∃ f, o = (after, .error f) ∧ o' = (after', .error f))
  := by
  obtain ⟨after, outcome⟩ := o
  obtain ⟨after', outcome'⟩ := o'
  obtain ⟨hstate, rfl⟩ := h
  refine ⟨after, after', hstate, ?_⟩
  cases outcome' with
  | error f => exact .inr ⟨f, rfl, rfl⟩
  | ok u => exact .inl ⟨rfl, rfl⟩

theorem IsBeside.change (beside : r.IsBeside checks other) {x y : Except Fault Builder}
    (hxy : Builder.CarriesOver checks x y) (h : (r.change x).2 = .ok ()) :
  EndBeside checks (r.change x) (other.change y)
  := by
  cases x with
  | error f => cases h
  | ok after =>
      obtain ⟨after', rfl, hafter⟩ := hxy after rfl
      exact ⟨⟨hafter, beside.entries⟩, rfl⟩

/-- An operation that succeeds under the checks does the same without them. -/
theorem IsBeside.operate (beside : r.IsBeside checks other) {o : Operation} {values : List Value}
    (h : (r.operate o values).2 = .ok ()) :
  EndBeside checks (r.operate o values) (other.operate o values)
  := by
  have hadd := beside.builder.addNode
  -- the names of document types alone are checked; a comment has another check, which stays
  unfold Run.operate at h ⊢
  split at h
  · apply beside.change _ h
    exact .bind fun _ => .bind hadd
  · apply beside.change _ h
    exact .bind fun s => hadd (.cdata s.text)
  · apply beside.change _ h
    exact .bind fun s => hadd (.text s.text)
  · apply beside.change _ h
    apply beside.builder.setDeclaration
  · apply beside.change _ h
    apply beside.builder.addDoctype
  · cases h

theorem IsBeside.callOther (beside : r.IsBeside checks other) {name : String}
    {arguments : List Value} {named : List (String × Value)}
    (h : (r.callOther name arguments named).2 = .ok ()) :
  EndBeside checks (r.callOther name arguments named) (other.callOther name arguments named)
  := by
  unfold Run.callOther at h ⊢
  cases hmember : Member.ofName name with
  | operation o =>
      simp only [hmember] at h ⊢
      cases hvalues : o.bind arguments named with
      | error f => simp [hvalues] at h
      | ok values =>
          simp only [hvalues] at h ⊢
          exact beside.operate h
  | _ => simp [hmember] at h

theorem IsBeside.look (beside : r.IsBeside checks other) (name : String) :
  (r.look name).1.IsBeside checks (other.look name).1 ∧ (other.look name).2 = (r.look name).2
  := by
  simp only [Run.look]
  cases viewOf? name with
  | none => exact ⟨beside, rfl⟩
  | some v =>
      obtain ⟨hbuilder, hshown⟩ :=
        beside.builder.look (Builder.looks_view v) (Builder.overlooks_view v)
      exact ⟨⟨hbuilder, beside.entries⟩, hshown⟩

/-! ### Fragments -/

theorem IsBeside.enter (beside : r.IsBeside checks other) {place : Place} {inner : Run}
    (h : enter r place = .ok inner) :
  ∃ inner', Run.enter other place = .ok inner' ∧ inner.IsBeside checks inner'
  := by
  obtain ⟨draft, hdraft, rfl⟩ := Reading.map_ok h
  refine ⟨{ other with builder.draft := draft }, ?_, beside.builder.withDraft draft, beside.entries⟩
  rw [Run.enter, beside.builder.draft_eq, hdraft]
  rfl

theorem IsBeside.leave (beside : r.IsBeside checks other) :
  r.leave.IsBeside checks other.leave
  := by
  unfold Run.leave
  rw [beside.builder.draft_eq]
  cases r.builder.draft.pop with
  | error f => exact beside
  | ok draft => exact ⟨beside.builder.withDraft draft, beside.entries⟩

/-- A call that begins an element with a fragment runs the fragment inside. -/
theorem fragment?_started {v : Value} {given arguments : List Value} {name : String}
    {named : List (String × Value)} {b : Builder} {place : Place} {takesBuilder : Bool}
    {inner : Run} (hcall : r.builder.elementCall? name arguments = some (v, given))
    (hstart : r.builder.startElement v given named = (b, .ok (place, .fragment takesBuilder)))
    (hinner : enter { r with builder := b } place = .ok inner) (frame : Option Frame) :
  r.fragment? name arguments named = some (inner, takesBuilder)
    ∧ step r frame (.call name arguments named)
      = ((runLast inner takesBuilder arguments).1.leave, (runLast inner takesBuilder arguments).2)
  := by
  constructor
  · simp only [fragment?, hcall, hstart, hinner, Except.toOption, Option.map_some]
  · simp only [step_call, hcall, hstart, callElement, hinner]

/-- A call that returns under the checks runs a fragment in both runs, or it runs none and ends
in the same way. -/
theorem IsBeside.call_cases (beside : r.IsBeside checks other) (frame : Option Frame)
    {name : String} {arguments : List Value} {named : List (String × Value)}
    (h : (step r frame (.call name arguments named)).2 = .ok ()) :
  (r.fragment? name arguments named = none ∧ other.fragment? name arguments named = none
    ∧ EndBeside checks (step r frame (.call name arguments named))
        (step other frame (.call name arguments named)))
  ∨ ∃ inner inner' takesBuilder, r.fragment? name arguments named = some (inner, takesBuilder)
    ∧ other.fragment? name arguments named = some (inner', takesBuilder)
    ∧ inner.IsBeside checks inner'
    ∧ step r frame (.call name arguments named)
      = ((runLast inner takesBuilder arguments).1.leave, (runLast inner takesBuilder arguments).2)
    ∧ step other frame (.call name arguments named)
      = ((runLast inner' takesBuilder arguments).1.leave,
          (runLast inner' takesBuilder arguments).2)
  := by
  have hcall' := beside.builder.elementCall? name arguments
  cases hcall : r.builder.elementCall? name arguments with
  | none =>
      rw [hcall] at hcall'
      simp only [step_call, hcall, hcall', fragment?] at h ⊢
      exact .inl ⟨trivial, trivial, beside.callOther h⟩
  | some found =>
      obtain ⟨v, given⟩ := found
      rw [hcall] at hcall'
      rcases hstart : r.builder.startElement v given named with ⟨b, f | ⟨place, sequel⟩⟩
      · simp [step_call, hcall, hstart, callElement] at h
      · obtain ⟨b', hstart', hb⟩ := beside.builder.startElement hstart
        have hbegun : IsBeside checks { r with builder := b } { other with builder := b' } :=
          ⟨hb, beside.entries⟩
        cases sequel with
        | nothing =>
            simp only [step_call, hcall, hcall', hstart, hstart', callElement, fragment?]
            exact .inl ⟨trivial, trivial, hbegun.endBeside _⟩
        | failure f => simp [step_call, hcall, hstart, callElement] at h
        | fragment takesBuilder =>
            cases hinner : Run.enter { r with builder := b } place with
            | error f => simp [step_call, hcall, hstart, callElement, hinner] at h
            | ok inner =>
                obtain ⟨inner', hinner', hin⟩ := hbegun.enter hinner
                obtain ⟨hfragment, hstep⟩ := fragment?_started hcall hstart hinner frame
                obtain ⟨hfragment', hstep'⟩ := fragment?_started hcall' hstart' hinner' frame
                exact .inr ⟨inner, inner', takesBuilder, hfragment, hfragment', hin, hstep, hstep'⟩

/-! ### Steps -/

theorem take_eq {frame : Option Frame} {p : Step}
    (h : EndBeside checks (step r frame p) (step other frame p)) :
  other.take frame p = r.take frame p
  := by
  simp only [take, h.outcome, h.state.builder.draft_eq]

/-- A step that takes no other steps. -/
theorem endBeside_single {frame : Option Frame} {p : Step}
    (hr : taken r frame p = [r.take frame p]) (hother : taken other frame p = [other.take frame p])
    (h : EndBeside checks (step r frame p) (step other frame p)) :
  EndBeside checks (step r frame p) (step other frame p) ∧ taken other frame p = taken r frame p
  := by
  rw [hr, hother, take_eq h]
  exact ⟨h, rfl⟩

theorem guarded_beside {p : Prop} [Decidable p] {o o' : Outcome} {ts ts' : List Taken}
    (beside : r.IsBeside checks other)
    (h : (∀ t ∈ ts, t.Returns) → EndBeside checks o o' ∧ ts' = ts)
    (hreturns : ∀ t ∈ (if p then ts else []), t.Returns) :
  EndBeside checks (if p then o else (r, .error .badCall))
      (if p then o' else (other, .error .badCall))
    ∧ (if p then ts' else []) = (if p then ts else [])
  := by
  split_ifs with hp
  · rw [if_pos hp] at hreturns
    exact h hreturns
  · exact ⟨beside.endBeside _, rfl⟩

mutual

/-- A step whose calls return under the checks takes the same steps without them. -/
theorem IsBeside.step {r other : Run} (beside : r.IsBeside checks other) (frame : Option Frame)
    (p : Step) (hreturns : ∀ t ∈ taken r frame p, t.Returns) :
  EndBeside checks (Run.step r frame p) (Run.step other frame p)
    ∧ taken other frame p = taken r frame p
  := by
  cases p with
  | call name arguments named =>
      have hown := hreturns _ (take_mem r frame _) rfl
      rcases beside.call_cases frame hown with ⟨hnone, hnone', hend⟩
        | ⟨inner, inner', takesBuilder, hsome, hsome', hin, hstep, hstep'⟩
      · apply endBeside_single _ _ hend
        · simp [taken, hnone]
        · simp [taken, hnone']
      · simp only [taken, hsome, List.mem_append] at hreturns
        obtain ⟨hend, htaken⟩ :=
          hin.runLast takesBuilder arguments (fun t ht => hreturns t (.inl ht))
        have hcall : EndBeside checks (Run.step r frame (.call name arguments named))
            (Run.step other frame (.call name arguments named)) := by
          rw [hstep, hstep']
          exact ⟨hend.state.leave, hend.outcome⟩
        refine ⟨hcall, ?_⟩
        simp only [taken, hsome, hsome', htaken, take_eq hcall]
  | attempt steps =>
      simp only [taken, List.mem_append] at hreturns
      obtain ⟨hafter, htaken⟩ := beside.attempt frame steps (fun t ht => hreturns t (.inl ht))
      have hend : EndBeside checks (Run.step r frame (.attempt steps))
          (Run.step other frame (.attempt steps)) := hafter.endBeside (.ok ())
      refine ⟨hend, ?_⟩
      simp only [taken, htaken, take_eq hend]
  | has name => exact endBeside_single rfl rfl ((beside.report _).endBeside _)
  | view name =>
      obtain ⟨hafter, hshown⟩ := beside.look name
      apply endBeside_single rfl rfl
      simp only [Run.step, hshown]
      exact (hafter.report _).endBeside _
  | depth =>
      apply endBeside_single rfl rfl
      simp only [Run.step, beside.builder.draft_eq]
      exact (beside.report _).endBeside _
  | raise message => exact endBeside_single rfl rfl (beside.endBeside _)
  | interrupt => exact endBeside_single rfl rfl (beside.endBeside _)
  | arguments =>
      apply endBeside_single rfl rfl
      cases frame with
      | none => exact beside.endBeside _
      | some f => exact (beside.report _).endBeside _

theorem IsBeside.steps {r other : Run} (beside : r.IsBeside checks other) (frame : Option Frame)
    (ps : List Step) (hreturns : ∀ t ∈ takenSteps r frame ps, t.Returns) :
  EndBeside checks (Run.steps r frame ps) (Run.steps other frame ps)
    ∧ takenSteps other frame ps = takenSteps r frame ps
  := by
  cases ps with
  | nil => exact ⟨beside.endBeside _, rfl⟩
  | cons p ps =>
      simp only [takenSteps, List.mem_append] at hreturns
      obtain ⟨hend, htaken⟩ := beside.step frame p (fun t ht => hreturns t (.inl ht))
      rw [Run.steps, Run.steps, takenSteps, takenSteps, htaken]
      rcases hend.cases with ⟨after, after', hafter, ⟨hs, hs'⟩ | ⟨f, hs, hs'⟩⟩
      · rw [hs] at hreturns
        rw [hs, hs']
        obtain ⟨hrest, htakenRest⟩ := hafter.steps frame ps (fun t ht => hreturns t (.inr ht))
        exact ⟨hrest, congrArg (taken r frame p ++ ·) htakenRest⟩
      · rw [hs, hs']
        exact ⟨hafter.endBeside _, rfl⟩

theorem IsBeside.attempt {r other : Run} (beside : r.IsBeside checks other) (frame : Option Frame)
    (ps : List Step) (hreturns : ∀ t ∈ takenAttempt r frame ps, t.Returns) :
  (Run.attempt r frame ps).IsBeside checks (Run.attempt other frame ps)
    ∧ takenAttempt other frame ps = takenAttempt r frame ps
  := by
  cases ps with
  | nil => exact ⟨beside, rfl⟩
  | cons p ps =>
      simp only [takenAttempt, List.mem_append] at hreturns
      obtain ⟨hend, htaken⟩ := beside.step frame p (fun t ht => hreturns t (.inl ht))
      rw [Run.attempt, Run.attempt, takenAttempt, takenAttempt, htaken]
      simp only [stepOn] at hreturns ⊢
      rcases hend.cases with ⟨after, after', hafter, ⟨hs, hs'⟩ | ⟨f, hs, hs'⟩⟩
      · rw [hs] at hreturns
        rw [hs, hs']
        obtain ⟨hrest, htakenRest⟩ := hafter.attempt frame ps (fun t ht => hreturns t (.inr ht))
        exact ⟨hrest, congrArg (taken r frame p ++ ·) htakenRest⟩
      · rw [hs] at hreturns
        rw [hs, hs']
        obtain ⟨hrest, htakenRest⟩ := (hafter.report (.fault f)).attempt frame ps
          (fun t ht => hreturns t (.inr ht))
        exact ⟨hrest, congrArg (taken r frame p ++ ·) htakenRest⟩

theorem IsBeside.runLast {r other : Run} (beside : r.IsBeside checks other) (takesBuilder : Bool)
    (vs : List Value) (hreturns : ∀ t ∈ takenLast r takesBuilder vs, t.Returns) :
  EndBeside checks (Run.runLast r takesBuilder vs) (Run.runLast other takesBuilder vs)
    ∧ takenLast other takesBuilder vs = takenLast r takesBuilder vs
  := by
  cases vs with
  | nil => exact ⟨beside.endBeside _, rfl⟩
  | cons v vs =>
      rw [takenLast] at hreturns
      rw [Run.runLast, Run.runLast, takenLast, takenLast]
      split_ifs with hany
      · rw [if_pos hany] at hreturns
        exact beside.runLast takesBuilder vs hreturns
      · rw [if_neg hany] at hreturns
        exact beside.invoke takesBuilder v hreturns

theorem IsBeside.invoke {r other : Run} (beside : r.IsBeside checks other) (takesBuilder : Bool)
    (v : Value) (hreturns : ∀ t ∈ takenInvoke r takesBuilder v, t.Returns) :
  EndBeside checks (Run.invoke r takesBuilder v) (Run.invoke other takesBuilder v)
    ∧ takenInvoke other takesBuilder v = takenInvoke r takesBuilder v
  := by
  cases v with
  | function ps body => exact guarded_beside beside (beside.steps _ body) hreturns
  | bound ps given body => exact guarded_beside beside (beside.steps _ body) hreturns
  | callable ps fields body isText => exact guarded_beside beside (beside.steps _ body) hreturns
  | _ => exact ⟨beside.endBeside _, rfl⟩

end

end Run

/-! ### Sessions -/

namespace Builder

variable {checks : Json} {b other : Builder}

theorem IsBeside.runStep (beside : b.IsBeside checks other) (p : Step)
    (hreturns : ∀ t ∈ Run.taken ⟨b, []⟩ none p, t.Returns) :
  (b.runStep p).1.IsBeside checks (other.runStep p).1 ∧ (other.runStep p).2 = (b.runStep p).2
    ∧ Run.taken ⟨other, []⟩ none p = Run.taken ⟨b, []⟩ none p
  := by
  have hrun : Run.IsBeside checks ⟨b, []⟩ ⟨other, []⟩ := ⟨beside, rfl⟩
  obtain ⟨⟨hstate, houtcome⟩, htaken⟩ := hrun.step none p hreturns
  obtain ⟨hafter, htext⟩ := hstate.builder.look (looks_render false) (overlooks_render false)
  refine ⟨hafter, ?_, htaken⟩
  simp only [Builder.runStep, houtcome, hstate.entries, htext]

theorem IsBeside.runSteps (beside : b.IsBeside checks other) (steps : List Step)
    (hreturns : ∀ t ∈ b.taken steps, t.Returns) :
  (b.runSteps steps).1.IsBeside checks (other.runSteps steps).1
    ∧ (other.runSteps steps).2 = (b.runSteps steps).2 ∧ other.taken steps = b.taken steps
  := by
  induction steps generalizing b other with
  | nil => exact ⟨beside, rfl, rfl⟩
  | cons p ps ih =>
      simp only [taken, List.mem_append] at hreturns
      obtain ⟨hafter, hresult, htaken⟩ := beside.runStep p (fun t ht => hreturns t (.inl ht))
      obtain ⟨hlast, hresults, htakenRest⟩ := ih hafter (fun t ht => hreturns t (.inr ht))
      refine ⟨hlast, ?_, ?_⟩
      · simp only [Builder.runSteps, hresult, hresults]
      · simp only [taken, htaken, htakenRest]

theorem IsBeside.views (beside : b.IsBeside checks other) (names : List String) :
  (b.views names).1.IsBeside checks (other.views names).1
    ∧ (other.views names).2 = (b.views names).2
  := by
  induction names generalizing b other with
  | nil => exact ⟨beside, rfl⟩
  | cons name names ih =>
      have hrun : Run.IsBeside checks ⟨b, []⟩ ⟨other, []⟩ := ⟨beside, rfl⟩
      obtain ⟨hafter, hshown⟩ := hrun.look name
      obtain ⟨hlast, hothers⟩ := ih hafter.builder
      refine ⟨hlast, ?_⟩
      simp only [Builder.views, hshown, hothers]

/-- Two builders go alike through steps and the views of given names: they take the same steps,
which end in the same way with the same document behind them, they report and show the same, and
what is built and what is recorded in the end is the same. -/
structure GoAlike (steps : List Step) (names : List String) (b other : Builder) : Prop where
  taken : other.taken steps = b.taken steps
  results : (other.runSteps steps).2 = (b.runSteps steps).2
  shown : ((other.runSteps steps).1.views names).2 = ((b.runSteps steps).1.views names).2
  draft : ((other.runSteps steps).1.views names).1.draft
    = ((b.runSteps steps).1.views names).1.draft
  records : ((other.runSteps steps).1.views names).1.records
    = ((b.runSteps steps).1.views names).1.records

end Builder

/-- If all calls of a session return where names are checked, they return and the session goes
alike with another word on the checks, so also where names are not checked. -/
theorem unchecked_sessions {b : Builder} (hchecks : b.settings.checkNames.counts) (checks : Json)
    (steps : List Step) (names : List String) (hreturns : ∀ t ∈ b.taken steps, t.Returns) :
  b.GoAlike steps names { b with settings.checkNames := checks }
    ∧ ∀ t ∈ ({ b with settings.checkNames := checks } : Builder).taken steps, t.Returns
  := by
  have beside : b.IsBeside checks { b with settings.checkNames := checks } := ⟨hchecks, rfl⟩
  obtain ⟨hafter, hresults, htaken⟩ := beside.runSteps steps hreturns
  obtain ⟨hlast, hshown⟩ := hafter.views names
  constructor
  · constructor
    · exact htaken
    · exact hresults
    · exact hshown
    · exact hlast.draft_eq
    · rw [hlast.eq]
      rfl
  · rw [htaken]
    exact hreturns

/-- A document type, attributes, and elements in fragments and in steps that may fail. -/
theorem unchecked_session_of_feed :
  let inner : List Step := [.call "Text" [.str "x"] [], .attempt [.call "e" [.int 1] []],
    .call "_Tag" [.mapping [(.str "xmlns", .str "urn:x")], .function [] [.depth]] []]
  let steps : List Step := [.call "DocumentType" [.str "feed"] [],
    .call "feed" [.mapping [(.str "y", .int 7)], .function [] inner] [], .view "bytes"]
  ({} : Builder).GoAlike steps ["string", "etree"]
    ({ settings := { checkNames := .bool false } } : Builder)
  := by
  intro inner steps
  exact (unchecked_sessions (b := {}) rfl (.bool false) steps ["string", "etree"]
    (by decide +kernel)).1

end XmlDraft
