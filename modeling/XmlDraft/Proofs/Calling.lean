import XmlDraft.Proofs.Lexical
import XmlDraft.Proofs.Looking
import Mathlib.Tactic.SplitIfs

/-!
# Calls and open elements

A call begins an element and runs a fragment inside it, or it carries out another operation.
The element that a call begins is a child of the innermost open one, so that it can always be
opened.  Main statement: a step leaves the same elements open, however it ends.
-/

namespace XmlDraft

/-! ### Operations of a builder -/

namespace Builder

/-- Adding a document type is finding it and appending it at the top level. -/
theorem addDoctype_eq (b : Builder) (name publicId systemId subset : Value) :
  b.addDoctype name publicId systemId subset
    = (doctypeOf b.settings name publicId systemId subset).bind fun d =>
        ((b.draft.document.append (.doctype d)).mapError Fault.misplaced).map fun document =>
          { b with draft.document := document }
  := by
  simp only [addDoctype, doctypeOf, bind, Except.bind]
  cases name.requireText "name" with
  | error f => rfl
  | ok t =>
      dsimp only
      split_ifs
      · cases Name.check t "name" <;> rfl
      · rfl

/-- Warnings are records and change nothing else. -/
theorem warn_eq (b : Builder) (mentions : List String) :
  b.warn mentions
    = { b with records := (mentions.map (warning b.source)).reverse ++ b.records }
  := by
  unfold warn
  induction mentions generalizing b with
  | nil => rfl
  | cons m rest ih =>
      rw [List.foldl_cons, ih]
      simp [note, source]

/-- Warnings are no records of a creation. -/
theorem warn_creations (b : Builder) (mentions : List String) :
  Log.creations (b.warn mentions).records = Log.creations b.records
  := by
  have hnone : ((mentions.map (warning b.source)).reverse).filter Log.Record.tellsCreation = [] := by
    rw [List.filter_eq_nil_iff]
    intro r hr
    obtain ⟨m, _, rfl⟩ := List.mem_map.mp (List.mem_reverse.mp hr)
    exact Bool.false_ne_true
  rw [warn_eq, Log.creations, List.filter_append, hnone]
  rfl

/-- What is known of a new element: its arguments are classified, its attributes have their
texts, and its tag has a name. -/
theorem elementOf_ok {settings : Settings} {name : Wording} {given : List Value}
    {named : List (String × Value)} {element : Node} {sequel : Sequel}
    (h : elementOf settings name given named = .ok (element, sequel)) :
  ∃ classified prepared q, Arguments.classify given named = .ok classified
    ∧ Prepared.ofFields settings.checkNames.counts (classified.attributes.getD []) = .ok prepared
    ∧ QName.of? name.text none name.member = some q
    ∧ element = newElement q classified.content prepared
    ∧ sequel = .of (prepared.copy q []).2 classified.fragment
  := by
  simp only [elementOf, bind, Except.bind] at h
  cases hc : Arguments.classify given named with
  | error f => simp [hc] at h
  | ok classified =>
      cases hp : Prepared.ofFields settings.checkNames.counts (classified.attributes.getD []) with
      | error f => simp [hc, hp] at h
      | ok prepared =>
          cases hq : QName.of? name.text none name.member with
          | none => simp [hc, hp, hq] at h
          | some q =>
              simp only [hc, hp, hq, Except.ok.injEq, Prod.mk.injEq] at h
              exact ⟨classified, prepared, q, rfl, hp, rfl, h.1.symm, h.2.symm⟩

theorem isElement_of_elementOf {settings : Settings} {name : Wording} {given : List Value}
    {named : List (String × Value)} {element : Node} {sequel : Sequel}
    (h : elementOf settings name given named = .ok (element, sequel)) :
  element.isElement
  := by
  obtain ⟨classified, prepared, q, _, _, _, rfl, _⟩ := elementOf_ok h
  rfl

end Builder

/-! ### Calls -/

namespace Run

/-- What a call does once its element is begun: its fragment runs inside the element, if there
is one. -/
def callElement (r : Run) (arguments : List Value) :
    Builder × Except Fault (Place × Builder.Sequel) → Outcome
  | (b, .error f) => ({ r with builder := b }, .error f)
  | (b, .ok (_, .nothing)) => ({ r with builder := b }, .ok ())
  | (b, .ok (_, .failure f)) => ({ r with builder := b }, .error f)
  | (b, .ok (place, .fragment takesBuilder)) =>
    match enter { r with builder := b } place with
    | .error f => ({ r with builder := b }, .error f)
    | .ok inner =>
      let (after, outcome) := runLast inner takesBuilder arguments
      (after.leave, outcome)

/-- What a call does that builds no element. -/
def callOther (r : Run) (name : String) (arguments : List Value)
    (named : List (String × Value)) : Outcome :=
  match Member.ofName name with
  | .operation o =>
    match o.bind arguments named with
    | .ok values => r.operate o values
    | .error f => (r, .error f)
  | .absent => (r, .error .noAttribute)
  | _ => (r, .error .badCall)

theorem step_call (r : Run) (frame : Option Frame) (name : String) (arguments : List Value)
    (named : List (String × Value)) :
  Run.step r frame (.call name arguments named)
    = match r.builder.elementCall? name arguments with
      | some (v, given) => r.callElement arguments (r.builder.startElement v given named)
      | none => r.callOther name arguments named
  := by
  simp only [Run.step, Builder.elementCall?, callOther]
  cases Member.ofName name with
  | element =>
      dsimp only
      rcases r.builder.startElement (.str name) arguments named
        with ⟨b, f | ⟨place, _ | takesBuilder | f⟩⟩ <;> rfl
  | encoding =>
      dsimp only
      split_ifs
      · dsimp only
        rcases r.builder.startElement (.str name) arguments named
          with ⟨b, f | ⟨place, _ | takesBuilder | f⟩⟩ <;> rfl
      · rfl
  | operation o =>
      cases o with
      | tag =>
          cases arguments with
          | nil => rfl
          | cons v given =>
              dsimp only
              rcases r.builder.startElement v given named
                with ⟨b, f | ⟨place, _ | takesBuilder | f⟩⟩ <;> rfl
      | _ => rfl
  | _ => rfl

end Run

/-! ### Open elements -/

namespace Draft

/-- The child that was just added can be opened. -/
theorem push_nextPlace (d : Draft) (width : Nat) :
  d.push (d.current ++ [width]) = .ok { d with opened := (d.current ++ [width]) :: d.opened }
  := by
  simp [push]

end Draft

namespace Builder

theorem append_opened {d after : Draft} {n : Node} (h : d.append n = .ok after) :
  after.opened = d.opened
  := by
  unfold Draft.append at h
  split at h
  · cases hd : d.document.append n with
    | error m => simp [hd, Except.map, Except.mapError] at h
    | ok doc =>
        simp only [hd, Except.map, Except.mapError, Except.ok.injEq] at h
        rw [← h]
  · simp only [Except.ok.injEq] at h
    rw [← h]

theorem addNode_opened {b after : Builder} {n : Node} (h : b.addNode n = .ok after) :
  after.draft.opened = b.draft.opened
  := by
  unfold addNode at h
  cases hd : b.draft.append n with
  | error f => simp [hd, Except.map] at h
  | ok d =>
      simp only [hd, Except.map, Except.ok.injEq] at h
      rw [← h]
      exact append_opened hd

theorem addDoctype_opened {b after : Builder} {name publicId systemId subset : Value}
    (h : b.addDoctype name publicId systemId subset = .ok after) :
  after.draft.opened = b.draft.opened
  := by
  rw [addDoctype_eq] at h
  cases hd : doctypeOf b.settings name publicId systemId subset with
  | error f => simp [hd, Except.bind] at h
  | ok d =>
      cases ha : b.draft.document.append (.doctype d) with
      | error m => simp [hd, ha, Except.bind, Except.map, Except.mapError] at h
      | ok document =>
          simp only [hd, ha, Except.bind, Except.map, Except.mapError, Except.ok.injEq] at h
          rw [← h]

/-- The beginning of an element opens nothing yet; the place that it gives is that of a child of
the innermost open element. -/
theorem startElement_opened (b : Builder) (v : Value) (given : List Value)
    (named : List (String × Value)) :
  (b.startElement v given named).1.draft.opened = b.draft.opened
    ∧ ∀ place sequel, (b.startElement v given named).2 = .ok (place, sequel) →
        ∃ width, place = b.draft.current ++ [width]
  := by
  rw [startElement, warn_eq]
  cases tagName b.settings v with
  | error f => simp
  | ok name =>
      dsimp only
      cases elementOf b.settings name given named with
      | error f => simp
      | ok built =>
          obtain ⟨element, sequel⟩ := built
          dsimp only
          cases hd : b.draft.append element with
          | error f => simp
          | ok d =>
              simp [note, append_opened hd, Draft.nextPlace]

end Builder

namespace Run

theorem change_opened {r : Run} {b : Except Fault Builder}
    (h : ∀ after, b = .ok after → after.draft.opened = r.builder.draft.opened) :
  (r.change b).1.builder.draft.opened = r.builder.draft.opened
  := by
  cases b with
  | error f => rfl
  | ok after => exact h after rfl

theorem operate_opened (r : Run) (o : Operation) (values : List Value) :
  (r.operate o values).1.builder.draft.opened = r.builder.draft.opened
  := by
  unfold operate
  split
  · rename_i v
    apply change_opened
    intro after h
    simp only [Builder.addComment, bind, Except.bind] at h
    cases ht : v.requireText "text" with
    | error f => simp [ht] at h
    | ok t =>
        cases hn : Builder.commentOf t with
        | error f => simp [ht, hn] at h
        | ok n => exact Builder.addNode_opened (n := n) (by simpa [ht, hn] using h)
  · rename_i v
    apply change_opened
    intro after h
    simp only [Builder.addCData, bind, Except.bind] at h
    cases ht : v.requireText "text" with
    | error f => simp [ht] at h
    | ok t => exact Builder.addNode_opened (n := .cdata t.text) (by simpa [ht] using h)
  · rename_i v
    apply change_opened
    intro after h
    simp only [Builder.addText, bind, Except.bind] at h
    cases ht : v.requireText "text" with
    | error f => simp [ht] at h
    | ok t => exact Builder.addNode_opened (n := .text t.text) (by simpa [ht] using h)
  · rfl
  · apply change_opened
    intro after h
    exact Builder.addDoctype_opened h
  · rfl

theorem callOther_opened (r : Run) (name : String) (arguments : List Value)
    (named : List (String × Value)) :
  (r.callOther name arguments named).1.builder.draft.opened = r.builder.draft.opened
  := by
  unfold callOther
  cases Member.ofName name with
  | operation o =>
      dsimp only
      cases o.bind arguments named with
      | error f => rfl
      | ok values => exact operate_opened r o values
  | _ => rfl

theorem look_opened (r : Run) (name : String) :
  (r.look name).1.builder.draft.opened = r.builder.draft.opened
  := by
  rw [show r.look name = _ from look_withOpened r.builder r.builder.draft.opened r.entries name]
  rfl

theorem guarded_opened {r : Run} {after : Outcome} {p : Prop} [Decidable p]
    (h : after.1.builder.draft.opened = r.builder.draft.opened) :
  (if p then after else (r, .error .badCall)).1.builder.draft.opened = r.builder.draft.opened
  := by
  split_ifs
  · exact h
  · rfl

theorem leave_opened {r : Run} {place : Place} {rest : List Place}
    (h : r.builder.draft.opened = place :: rest) :
  r.leave.builder.draft.opened = rest
  := by
  simp [leave, Draft.pop, h]

theorem callElement_opened {r : Run} {arguments : List Value}
    {started : Builder × Except Fault (Place × Builder.Sequel)}
    (hrest : ∀ inner takesBuilder,
      (runLast inner takesBuilder arguments).1.builder.draft.opened = inner.builder.draft.opened)
    (hstart : started.1.draft.opened = r.builder.draft.opened
      ∧ ∀ place sequel, started.2 = .ok (place, sequel) →
          ∃ width, place = r.builder.draft.current ++ [width]) :
  (r.callElement arguments started).1.builder.draft.opened = r.builder.draft.opened
  := by
  rcases started with ⟨b, f | ⟨place, _ | takesBuilder | f⟩⟩
  · exact hstart.1
  · exact hstart.1
  · obtain ⟨width, hplace⟩ := hstart.2 place (.fragment takesBuilder) rfl
    have hcurrent : b.draft.current = r.builder.draft.current := congrArg (·.headD []) hstart.1
    rw [← hcurrent] at hplace
    subst hplace
    simp only [callElement, enter, Draft.push_nextPlace, Except.map]
    rw [leave_opened (hrest _ _), hstart.1]
  · exact hstart.1

mutual

/-- A step leaves the same elements open, however it ends. -/
theorem step_opened (r : Run) (frame : Option Frame) (p : Step) :
  (step r frame p).1.builder.draft.opened = r.builder.draft.opened
  := by
  cases p with
  | call name arguments named =>
      rw [step_call]
      cases r.builder.elementCall? name arguments with
      | none => exact callOther_opened r name arguments named
      | some found =>
          obtain ⟨v, given⟩ := found
          dsimp only
          apply callElement_opened
          · exact fun inner takesBuilder => runLast_opened inner takesBuilder arguments
          · exact Builder.startElement_opened _ v given named
  | has name => rfl
  | view name => exact look_opened r name
  | depth => rfl
  | attempt steps => exact attempt_opened r frame steps
  | raise message => rfl
  | interrupt => rfl
  | arguments => cases frame <;> rfl

theorem steps_opened (r : Run) (frame : Option Frame) (ps : List Step) :
  (steps r frame ps).1.builder.draft.opened = r.builder.draft.opened
  := by
  cases ps with
  | nil => rfl
  | cons p ps =>
      have hp := step_opened r frame p
      rw [steps]
      rcases hs : step r frame p with ⟨after, f | u⟩ <;> rw [hs] at hp
      · exact hp
      · exact (steps_opened after frame ps).trans hp

theorem attempt_opened (r : Run) (frame : Option Frame) (ps : List Step) :
  (attempt r frame ps).builder.draft.opened = r.builder.draft.opened
  := by
  cases ps with
  | nil => rfl
  | cons p ps =>
      have hp := step_opened r frame p
      rw [attempt]
      rcases hs : step r frame p with ⟨after, f | u⟩ <;> rw [hs] at hp
      · exact (attempt_opened (after.report (.fault f)) frame ps).trans hp
      · exact (attempt_opened after frame ps).trans hp

theorem runLast_opened (r : Run) (takesBuilder : Bool) (vs : List Value) :
  (runLast r takesBuilder vs).1.builder.draft.opened = r.builder.draft.opened
  := by
  cases vs with
  | nil => rfl
  | cons v vs =>
      rw [runLast]
      split_ifs
      · exact runLast_opened r takesBuilder vs
      · exact invoke_opened r takesBuilder v

theorem invoke_opened (r : Run) (takesBuilder : Bool) (v : Value) :
  (invoke r takesBuilder v).1.builder.draft.opened = r.builder.draft.opened
  := by
  cases v with
  | function ps body => exact guarded_opened (steps_opened r _ body)
  | bound ps given body => exact guarded_opened (steps_opened r _ body)
  | callable ps fields body flag => exact guarded_opened (steps_opened r _ body)
  | _ => rfl

end

end Run

end XmlDraft
