import XmlDraft.Proofs.Reaching

/-!
# Steps that are taken

A session takes steps inside steps: those of a fragment inside the call that it is given to, and
those that may fail inside the attempt.  All of them are told here in the order in which they end,
each with its end and with the document behind it.  Main statement: each of them is a step of a
state that the session leads to, with that end and that document.
-/

namespace XmlDraft

/-- Whether a step is a call. -/
def Step.isCall : Step → Bool
  | .call _ _ _ => true
  | _ => false

/-- A step that was taken. -/
structure Taken where
  /-- The step. -/
  step : Step
  /-- How it ended. -/
  outcome : Except Fault Unit
  /-- The document behind it. -/
  document : Document

/-- Whether a step that was taken is no call, or one that returned. -/
def Taken.Returns (t : Taken) : Prop :=
  t.step.isCall → t.outcome = .ok ()

theorem Taken.returns_iff (t : Taken) :
  t.Returns ↔ (t.step.isCall → t.outcome.toOption.isSome)
  := by
  unfold Returns
  cases t.outcome <;> simp [Except.toOption]

instance (t : Taken) : Decidable t.Returns :=
  decidable_of_iff _ t.returns_iff.symm

namespace Run

/-- The state in the fragment of a call, and whether the fragment takes the builder, if the call
begins an element with a fragment. -/
def fragment? (r : Run) (name : String) (arguments : List Value) (named : List (String × Value)) :
    Option (Run × Bool) :=
  match r.builder.elementCall? name arguments with
  | none => none
  | some (v, given) =>
    match r.builder.startElement v given named with
    | (b, .ok (place, .fragment takesBuilder)) =>
      (enter { r with builder := b } place).toOption.map fun inner => (inner, takesBuilder)
    | _ => none

/-- A step as one that was taken. -/
def take (r : Run) (frame : Option Frame) (p : Step) : Taken :=
  ⟨p, (r.step frame p).2, (r.step frame p).1.builder.draft.document⟩

/-- The state behind a step that may fail. -/
def stepOn (r : Run) (frame : Option Frame) (p : Step) : Run :=
  match r.step frame p with
  | (after, .ok _) => after
  | (after, .error f) => after.report (.fault f)

mutual

/-- The steps that are taken with a step, itself last. -/
def taken (r : Run) (frame : Option Frame) : Step → List Taken
  | .call name arguments named =>
    (match r.fragment? name arguments named with
      | some (inner, takesBuilder) => takenLast inner takesBuilder arguments
      | none => [])
      ++ [r.take frame (.call name arguments named)]
  | .attempt steps => takenAttempt r frame steps ++ [r.take frame (.attempt steps)]
  | .has name => [r.take frame (.has name)]
  | .view name => [r.take frame (.view name)]
  | .depth => [r.take frame .depth]
  | .raise message => [r.take frame (.raise message)]
  | .interrupt => [r.take frame .interrupt]
  | .arguments => [r.take frame .arguments]

/-- The steps that are taken with steps up to the first one that fails. -/
def takenSteps (r : Run) (frame : Option Frame) : List Step → List Taken
  | [] => []
  | p :: ps =>
    taken r frame p
      ++ match r.step frame p with
        | (after, .ok _) => takenSteps after frame ps
        | (_, .error _) => []

/-- The steps that are taken with steps each of which may fail. -/
def takenAttempt (r : Run) (frame : Option Frame) : List Step → List Taken
  | [] => []
  | p :: ps => taken r frame p ++ takenAttempt (r.stepOn frame p) frame ps

/-- The steps that are taken in the last fragment among the arguments of a call. -/
def takenLast (r : Run) (takesBuilder : Bool) : List Value → List Taken
  | [] => []
  | v :: vs =>
    if vs.any Value.isFragment then takenLast r takesBuilder vs else takenInvoke r takesBuilder v

/-- The steps that are taken when a value is called with the builder or with nothing. -/
def takenInvoke (r : Run) (takesBuilder : Bool) : Value → List Taken
  | .function ps body =>
    if Signature.binds ps (if takesBuilder then 1 else 0) then
      takenSteps r (some (frameOf ps 0 takesBuilder)) body
    else []
  | .bound ps given body =>
    if Signature.binds ps (given + if takesBuilder then 1 else 0) then
      takenSteps r (some (frameOf ps given takesBuilder)) body
    else []
  | .callable ps _ body _ =>
    if Signature.binds ps (if takesBuilder then 1 else 0) then
      takenSteps r (some (frameOf ps 0 takesBuilder)) body
    else []
  | _ => []

end

/-- A step is the last of those that are taken with it. -/
theorem take_mem (r : Run) (frame : Option Frame) (p : Step) :
  r.take frame p ∈ taken r frame p
  := by
  cases p <;> simp [taken]

theorem fragment?_reached {start r inner : Run} (h : start.LeadsTo r) {name : String}
    {arguments : List Value} {named : List (String × Value)} {takesBuilder : Bool}
    (hfragment : r.fragment? name arguments named = some (inner, takesBuilder)) :
  start.LeadsTo inner
  := by
  unfold fragment? at hfragment
  split at hfragment
  · cases hfragment
  · split at hfragment
    · rename_i v given _ _ b place takes hstart
      cases hinner : Run.enter { r with builder := b } place with
      | error f => simp [hinner, Except.toOption] at hfragment
      | ok inner' =>
          simp only [hinner, Except.toOption, Option.map_some, Option.some.injEq,
            Prod.mk.injEq] at hfragment
          rw [← hfragment.1]
          exact .enter h hstart hinner
    · cases hfragment

/-- The step `t` was taken in a state that `start` leads to. -/
def IsReached (start : Run) (t : Taken) : Prop :=
  ∃ r frame, start.LeadsTo r ∧ t = r.take frame t.step

theorem isReached_take {start r : Run} (h : start.LeadsTo r) (frame : Option Frame) (p : Step) :
  start.IsReached (r.take frame p)
  := ⟨r, frame, h, rfl⟩

theorem guarded_reached {start : Run} {p : Prop} [Decidable p] {ts : List Taken}
    (h : ∀ t ∈ ts, start.IsReached t) :
  ∀ t ∈ (if p then ts else []), start.IsReached t
  := by
  split_ifs
  · exact h
  · simp

mutual

/-- The steps that are taken with a step are steps of states that come after its beginning. -/
theorem taken_reached {start r : Run} (h : start.LeadsTo r) (frame : Option Frame) (p : Step) :
  ∀ t ∈ taken r frame p, start.IsReached t
  := by
  have hown := isReached_take h frame p
  cases p with
  | call name arguments named =>
      simp only [taken, List.forall_mem_append, List.forall_mem_singleton]
      refine ⟨?_, hown⟩
      cases hfragment : r.fragment? name arguments named with
      | none => simp
      | some found =>
          obtain ⟨inner, takesBuilder⟩ := found
          exact takenLast_reached (fragment?_reached h hfragment) takesBuilder arguments
  | attempt steps =>
      simp only [taken, List.forall_mem_append, List.forall_mem_singleton]
      exact ⟨takenAttempt_reached h frame steps, hown⟩
  | _ =>
      simp only [taken, List.forall_mem_singleton]
      exact hown

theorem takenSteps_reached {start r : Run} (h : start.LeadsTo r) (frame : Option Frame)
    (ps : List Step) :
  ∀ t ∈ takenSteps r frame ps, start.IsReached t
  := by
  cases ps with
  | nil => simp [takenSteps]
  | cons p ps =>
      have hafter := h.step frame p
      rw [takenSteps, List.forall_mem_append]
      refine ⟨taken_reached h frame p, ?_⟩
      rcases hs : step r frame p with ⟨after, f | u⟩
      · simp
      · rw [hs] at hafter
        exact takenSteps_reached hafter frame ps

theorem takenAttempt_reached {start r : Run} (h : start.LeadsTo r) (frame : Option Frame)
    (ps : List Step) :
  ∀ t ∈ takenAttempt r frame ps, start.IsReached t
  := by
  cases ps with
  | nil => simp [takenAttempt]
  | cons p ps =>
      have hafter := h.step frame p
      rw [takenAttempt, List.forall_mem_append]
      refine ⟨taken_reached h frame p, ?_⟩
      apply takenAttempt_reached
      unfold stepOn
      rcases hs : step r frame p with ⟨after, f | u⟩ <;> rw [hs] at hafter
      · exact hafter.report (.fault f)
      · exact hafter

theorem takenLast_reached {start r : Run} (h : start.LeadsTo r) (takesBuilder : Bool)
    (vs : List Value) :
  ∀ t ∈ takenLast r takesBuilder vs, start.IsReached t
  := by
  cases vs with
  | nil => simp [takenLast]
  | cons v vs =>
      rw [takenLast]
      split_ifs
      · exact takenLast_reached h takesBuilder vs
      · exact takenInvoke_reached h takesBuilder v

theorem takenInvoke_reached {start r : Run} (h : start.LeadsTo r) (takesBuilder : Bool)
    (v : Value) :
  ∀ t ∈ takenInvoke r takesBuilder v, start.IsReached t
  := by
  cases v with
  | function ps body => exact guarded_reached (takenSteps_reached h _ body)
  | bound ps given body => exact guarded_reached (takenSteps_reached h _ body)
  | callable ps fields body isText => exact guarded_reached (takenSteps_reached h _ body)
  | _ => simp [takenInvoke]

end

end Run

/-- The steps that a session takes. -/
def Builder.taken (b : Builder) : List Step → List Taken
  | [] => []
  | p :: ps => Run.taken ⟨b, []⟩ none p ++ (b.runStep p).1.taken ps

/-- The steps that a session takes are steps of states that it leads to. -/
theorem Builder.taken_reached {start : Run} {b : Builder} (h : start.LeadsTo ⟨b, []⟩)
    (steps : List Step) :
  ∀ t ∈ b.taken steps, start.IsReached t
  := by
  induction steps generalizing b with
  | nil => simp [taken]
  | cons p ps ih =>
      rw [taken, List.forall_mem_append]
      exact ⟨Run.taken_reached h none p, ih (h.step none p).render⟩

end XmlDraft
