import XmlDraft.Proofs.Content
import XmlDraft.Proofs.Prolog

/-!
# How deep events are

The start tags and the end tags among events tell how many elements are open behind them.  Main
statements: reading adds events to those before it, in whatever manner markup is read, and as many
elements are open as the events tell, so that none is when the root has been read.
-/

namespace XmlDraft

namespace Reading

/-- The number of open elements behind an event. -/
def Event.level : Event → Nat → Nat
  | start _, n => n + 1
  | finish, n => n - 1
  | _, n => n

/-- The number of open elements behind events, the latest of which comes first. -/
def level (es : List Event) : Nat :=
  es.foldr Event.level 0

namespace Flow

/-- A state with as many open elements as its events tell. -/
def IsLevel (f : Flow) : Prop :=
  f.opened.length = Reading.level f.events

/-- A state that has gone on to another one: events were added to its own, and it is still level if
it was. -/
structure GoesOn (f g : Flow) : Prop where
  events : f.events <:+ g.events
  level : f.IsLevel → g.IsLevel

variable {f g h : Flow}

theorem GoesOn.refl (f : Flow) :
  f.GoesOn f
  := ⟨List.suffix_rfl, id⟩

theorem GoesOn.trans (hfirst : f.GoesOn g) (hnext : g.GoesOn h) :
  f.GoesOn h
  := ⟨hfirst.events.trans hnext.events, hnext.level ∘ hfirst.level⟩

/-- An event that is no tag leaves the open elements as they are. -/
theorem GoesOn.emit {e : Event} (he : ∀ n, e.level n = n) (f : Flow) :
  f.GoesOn (f.emit e)
  where
    events := List.suffix_cons e f.events
    level hf := hf.trans (he _).symm

end Flow

/-- A way to expand references that only goes on. -/
def Expands (expand : Expanding) : Prop :=
  ∀ name start f g, expand name start f = .ok g → f.GoesOn g

namespace Surroundings

variable {x : Surroundings} {expand : Expanding} {cs rest : List Char} {f g : Flow}

/-! ### Content -/

theorem Begins.goesOn {start : List Char} (h : x.Begins start cs f g rest) :
  f.GoesOn g
  := by
  cases h with
  | opens => exact ⟨⟨[.start _], rfl⟩, fun hf => congrArg (· + 1) hf⟩
  | whole => exact ⟨⟨[.finish, .start _], rfl⟩, fun hf => hf⟩

theorem sectionBody_goesOn {fuel : Nat} (h : x.sectionBody fuel cs f = .ok (g, rest)) :
  f.GoesOn g
  := by
  induction fuel generalizing cs f with
  | zero => cases h
  | succ fuel ih =>
      rw [sectionBody_succ] at h
      obtain ⟨⟨piece?, more⟩, _, h⟩ := bind_ok h
      cases piece? with
      | none =>
          cases h
          exact .emit (fun _ => rfl) f
      | some piece => exact .trans (.emit (fun _ => rfl) f) (ih h)

theorem Moves.goesOn (hexpand : Expands expand) (h : x.Moves expand f cs g rest) :
  f.GoesOn g
  := by
  cases h with
  | startTag begins => exact begins.goesOn
  | @endTag _ _ _ _ others _ opened =>
      refine ⟨⟨[.finish], rfl⟩, fun hf => ?_⟩
      have hlevel : others.length + 1 = level f.events := by
        rw [← hf, opened, List.length_cons]
      exact congrArg (· - 1) hlevel
  | comment => exact .emit (fun _ => rfl) f
  | cdata body => exact .trans (.emit (fun _ => rfl) f) (sectionBody_goesOn body)
  | instruction => exact .emit (fun _ => rfl) f
  | characters => exact .emit (fun _ => rfl) f
  | kept => exact .emit (fun _ => rfl) f
  | replaced _ expands => exact hexpand _ _ _ _ expands

/-- Content goes on to its end; where no elements are open around it, none is open then. -/
theorem content_goesOn (hexpand : Expands expand) {fuel : Nat}
    (h : x.content expand fuel cs f = .ok (g, rest)) :
  f.GoesOn g ∧ (x.base = 0 → g.opened = [])
  := by
  rcases content_leads (P := f.GoesOn) (Q := f.GoesOn)
      (fun hf hmoves => hf.trans (hmoves.goesOn hexpand)) (fun hg _ => hg) (.refl f) h with
    ⟨hgoes, hbase⟩ | ⟨hgoes, hopened⟩
  · exact ⟨hgoes, fun h => absurd h hbase⟩
  · exact ⟨hgoes, fun _ => hopened⟩

theorem expandAt_goesOn (x : Surroundings) (depth : Nat) (opened : List (List Char)) :
  Expands (expandAt x depth opened)
  := by
  induction depth generalizing opened with
  | zero =>
      intro name start f g h
      cases h
  | succ depth ih =>
      intro name start f g h
      obtain ⟨text, _, rest, _, hcontent⟩ := expandAt_ok h
      have hinner := (content_goesOn (ih (name :: opened)) hcontent).1
      exact ⟨hinner.events, hinner.level⟩

/-- A root adds events to those before it, behind which no element is open if none was before
it. -/
theorem rootElement_goesOn {es : List Event} {spent : Nat} (hbase : x.base = 0)
    (hlevel : level es = 0) (h : x.rootElement cs { events := es, spent := spent } = .ok (g, rest)) :
  es <:+ g.events ∧ level g.events = 0
  := by
  obtain ⟨hgoes, hopened⟩ := content_goesOn (expandAt_goesOn x _ []) h
  refine ⟨hgoes.events, ?_⟩
  rw [← hgoes.level hlevel.symm, hopened hbase, List.length_nil]

end Surroundings

/-! ### Before and after the root -/

namespace Prolog

variable {m : Medium} {account : Account} {p q : Prolog} {t : Token} {raw cs : List Char}

theorem Leads.suffix (h : p.Leads q) :
  p.events <:+ q.events
  := by
  cases h with
  | begins => exact List.suffix_rfl
  | goesOn _ _ events => exact events ▸ List.suffix_rfl
  | opens => exact List.suffix_cons _ _
  | ends => exact (List.suffix_cons _ _).trans (List.suffix_cons _ _)
  | closes => exact List.suffix_cons _ _

theorem entityStep_suffix (h : entityStep m p t cs = .ok q) :
  p.events <:+ q.events
  := by
  unfold entityStep at h
  split at h
  case h_6 =>
    obtain ⟨_, _, h⟩ := bind_ok h
    cases h
    exact List.suffix_rfl
  case h_13 =>
    obtain ⟨_, _, h⟩ := bind_ok h
    cases h
    exact List.suffix_rfl
  all_goals grind [declareText, declare, goTo]

theorem formatStep_suffix (h : p.formatStep t cs = .ok q) :
  p.events <:+ q.events
  := by
  unfold formatStep at h
  split at h
  case h_3 =>
    obtain ⟨_, _, h⟩ := bind_ok h
    cases h
    exact List.suffix_rfl
  all_goals grind [goTo]

theorem attributeStep_suffix (h : attributeStep m account p t cs = .ok q) :
  p.events <:+ q.events
  := by
  unfold attributeStep at h
  split at h
  all_goals grind [declareDefault, declareAttribute, goTo]

theorem elementStep_suffix (h : p.elementStep t cs = .ok q) :
  p.events <:+ q.events
  := by
  unfold elementStep at h
  split at h
  all_goals grind [goTo, openGroup, closeGroup, closeContent, connect]

theorem subsetStep_suffix (h : p.subsetStep t cs = .ok q) :
  p.events <:+ q.events
  := by
  unfold subsetStep at h
  split at h
  all_goals grind [goTo, partly]

theorem partStep_suffix (h : partStep m account p t cs = .ok q) :
  p.events <:+ q.events
  := by
  cases hinner : p.stage.isInner with
  | false => exact (partStep_leads hinner h).suffix
  | true =>
      unfold partStep at h
      split at h
      all_goals first
        | exact entityStep_suffix h
        | exact formatStep_suffix h
        | exact attributeStep_suffix h
        | exact elementStep_suffix h
        | exact subsetStep_suffix h
        | grind [goTo, Stage.isInner]

theorem keepText_suffix (p : Prolog) (raw : List Char) :
  p.events <:+ (p.keepText raw).events
  := by
  unfold keepText
  split_ifs
  · exact List.suffix_cons _ _
  · exact List.suffix_rfl

/-- A step adds events to those before it. -/
theorem step_suffix (h : p.step m account t raw cs = .ok q) :
  p.events <:+ q.events
  := by
  have hleave : p.leaveBeginning.events = p.events := by
    unfold leaveBeginning
    split_ifs <;> rfl
  unfold step at h
  split at h
  · cases h
    exact hleave ▸ keepText_suffix _ raw
  · split_ifs at h
    · cases h
      exact hleave ▸ List.suffix_cons _ _
    · grind
  · split_ifs at h
    · cases h
      exact hleave ▸ List.suffix_cons _ _
    · grind
  · obtain ⟨next, hnext, h⟩ := bind_ok h
    cases h
    split_ifs
    · exact (partStep_suffix hnext).trans (keepText_suffix _ _)
    · exact partStep_suffix hnext

end Prolog

/-- Coming to the root adds events to those before it. -/
theorem beforeRoot_suffix {m : Medium} {account : Account} {fuel : Nat} {cs rest : List Char}
    {p q : Prolog}
    (h : beforeRoot m account fuel cs p = .ok (q, rest)) :
  p.events <:+ q.events
  := by
  induction fuel generalizing m cs p with
  | zero => cases h
  | succ fuel ih =>
      cases cs with
      | nil => cases h
      | cons c more =>
          unfold beforeRoot at h
          split at h
          · cases h
          · split_ifs at h
            cases h
            exact List.suffix_rfl
          · obtain ⟨next, hnext, h⟩ := bind_ok h
            exact (Prolog.step_suffix hnext).trans (ih h)

/-- What stands after the root adds events to those before it, and leaves the open elements as they
are. -/
theorem afterRoot_goesOn {m : Medium} {fuel : Nat} {cs : List Char} {es last : List Event}
    (h : afterRoot m fuel cs es = .ok last) :
  es <:+ last ∧ level last = level es
  := by
  induction fuel generalizing cs es with
  | zero =>
      cases h
      exact ⟨List.suffix_rfl, rfl⟩
  | succ fuel ih =>
      cases cs with
      | nil =>
          rw [afterRoot] at h
          · split_ifs at h
            cases h
            exact ⟨List.suffix_rfl, rfl⟩
          · simp
      | cons c more =>
          rw [afterRoot] at h
          split at h
          · cases h
          · split_ifs at h
            · cases h
              exact ⟨List.suffix_rfl, rfl⟩
            · exact ih h
          · obtain ⟨hsuffix, hlevel⟩ := ih h
            exact ⟨(List.suffix_cons _ _).trans hsuffix, hlevel⟩
          · obtain ⟨hsuffix, hlevel⟩ := ih h
            exact ⟨(List.suffix_cons _ _).trans hsuffix, hlevel⟩
          · cases h

end Reading

end XmlDraft
