import XmlDraft.Proofs.Found
import XmlDraft.Reading.Assembly

/-!
# Events that are delivered

A reader delivers its events as it goes, so that some of them have been delivered when it finds
that markup is malformed.  Reading is told again here with the events that come before a failure:
those of the pieces of an unclosed section, of a replacement text that is wrong further on, of all
tokens before the one that is refused.  Main statement: told in this way reading ends as before,
with the same events or the same failure.
-/

namespace XmlDraft

namespace Reading

/-- A failure, and the events that were delivered before it, the latest first. -/
abbrev Halt := Failure × List Event

/-- What fails, if it fails, before it delivers anything behind given events. -/
def undelivered {α : Type} (es : List Event) (r : Except Failure α) : Except Halt α :=
  r.mapError fun e => (e, es)

/-- An outcome without the events that were delivered before a failure. -/
def forgetting {α : Type} (r : Except Halt α) : Except Failure α :=
  r.mapError Prod.fst

@[simp]
theorem forgetting_ok {α : Type} (x : α) :
  forgetting (.ok x) = .ok x
  := rfl

@[simp]
theorem forgetting_error {α : Type} (e : Failure) (es : List Event) :
  forgetting (.error (e, es) : Except Halt α) = .error e
  := rfl

@[simp]
theorem forgetting_undelivered {α : Type} (es : List Event) (r : Except Failure α) :
  forgetting (undelivered es r) = r
  := by
  cases r <;> rfl

@[simp]
theorem forgetting_bind {α β : Type} (r : Except Halt α) (f : α → Except Halt β) :
  forgetting (r.bind f) = (forgetting r).bind fun x => forgetting (f x)
  := by
  cases r <;> rfl

@[simp]
theorem forgetting_map {α β : Type} (r : Except Halt α) (f : α → β) :
  forgetting (r.map f) = (forgetting r).map f
  := by
  cases r <;> rfl

namespace Surroundings

/-! ### Sections -/

/-- One piece of a CDATA section, or its end, and what follows. -/
def sectionPiece (x : Surroundings) (cs : List Char) :
    Except Failure (Option (List Char) × List Char) :=
  match cs with
  | [] =>
    match x.medium.ending with
    | .malformed => .error (.invalidToken, cs)
    | .broken => .error (.invalidToken, cs)
    | .truncated => .error (.partialCharacter, cs)
    | _ => .error (.unclosedCData, cs)
  | ']' :: ']' :: '>' :: rest => .ok (none, rest)
  | ']' :: more =>
    if (more = [] || more = [']']) && x.medium.endsSoftly then .error (.unclosedCData, cs)
    else .ok (some [']'], more)
  | '\r' :: more =>
    if !x.medium.unifies then .ok (some ['\r'], more)
    else
      match more with
      | '\n' :: more => .ok (some ['\n'], more)
      | more =>
        if more = [] && x.medium.endsSoftly then .error (.unclosedCData, cs)
        else .ok (some ['\n'], more)
  | c :: more =>
    if isSectionChar c then
      .ok (some (c :: more.takeWhile isSectionChar), more.dropWhile isSectionChar)
    else .error (.invalidToken, cs)

/-- The rest of a CDATA section, told with its events. -/
def sectionTold (x : Surroundings) : Nat → List Char → Flow → Except Halt (Flow × List Char)
  | 0, cs, f => .error ((.unclosedCData, cs), f.events)
  | fuel + 1, cs, f => do
    match ← undelivered f.events (x.sectionPiece cs) with
    | (none, rest) => .ok (f.emit .cdataEnd, rest)
    | (some piece, rest) => sectionTold x fuel rest (f.emit (.characters piece))

/-- A section goes on behind each of its pieces. -/
theorem sectionBody_succ (x : Surroundings) (fuel : Nat) (cs : List Char) (f : Flow) :
  x.sectionBody (fuel + 1) cs f
    = (x.sectionPiece cs).bind fun (piece, rest) =>
        match piece with
        | none => .ok (f.emit .cdataEnd, rest)
        | some piece => x.sectionBody fuel rest (f.emit (.characters piece))
  := by
  unfold sectionPiece
  split
  · split <;> simp_all [sectionBody, Except.bind]
  · rfl
  · split_ifs <;> simp_all [sectionBody, Except.bind]
  · split_ifs
    · simp_all [sectionBody, Except.bind]
    · split
      · simp_all [sectionBody, Except.bind]
      · split_ifs <;> simp_all [sectionBody, Except.bind]
  · split_ifs <;> simp_all [sectionBody, Except.bind]

theorem forgetting_sectionTold (x : Surroundings) (fuel : Nat) (cs : List Char) (f : Flow) :
  forgetting (x.sectionTold fuel cs f) = x.sectionBody fuel cs f
  := by
  induction fuel generalizing cs f with
  | zero => rfl
  | succ fuel ih =>
      rw [sectionTold, sectionBody_succ]
      simp only [bind, forgetting_bind, forgetting_undelivered]
      congr 1
      funext ⟨piece, rest⟩
      cases piece with
      | none => rfl
      | some piece => exact ih rest _

/-! ### Content -/

/-- The entity that is replaced at a reference, whose ampersand has been read, and what follows
the reference. -/
def replaced? (x : Surroundings) (cs : List Char) : Option (List Char × List Char) :=
  match x.medium.reference cs with
  | .ok (.named name, rest) =>
    match predefined? name, x.declarations.entity? name with
    | none, some (.internal _) =>
      if x.manner.replacement = .none then none else some (name, rest)
    | _, _ => none
  | _ => none

/-- How the replacement of an entity is told. -/
abbrev Telling := List Char → List Char → Flow → Except Halt Flow

/-- A step through content, told with its events: a section and the replacement text of an entity
deliver some before they may fail. -/
def stepTold (x : Surroundings) (expand : Expanding) (tell : Telling) (c : Char)
    (more : List Char) (f : Flow) : Except Halt (Flow × List Char) :=
  match c, more with
  | '<', '!' :: '[' :: cs => do
    let (_, rest) ← undelivered f.events (scanned (c :: more) (x.medium.cdataOpening cs))
    x.sectionTold (rest.length + 1) rest (f.emit .cdataStart)
  | '&', cs =>
    match x.replaced? cs with
    | some (name, rest) => (tell name (c :: more) f).map (·, rest)
    | none => undelivered f.events (x.step expand c more f)
  | _, _ => undelivered f.events (x.step expand c more f)

/-- Content, told with its events. -/
def contentTold (x : Surroundings) (expand : Expanding) (tell : Telling) :
    Nat → List Char → Flow → Except Halt (Flow × List Char)
  | 0, cs, f => .error ((.noElement, cs), f.events)
  | _, [], f => undelivered f.events (x.finish f [])
  | fuel + 1, c :: more, f => do
    let (g, rest) ← x.stepTold expand tell c more f
    if g.opened.isEmpty then .ok (g, rest) else contentTold x expand tell fuel rest g

end Surroundings

/-- The replacement of a reference to an entity, told with its events. -/
def expandTold (x : Surroundings) : Nat → List (List Char) → Surroundings.Telling
  | 0, _, _, start, f => .error ((.recursiveEntity, start), f.events)
  | level + 1, opened, name, start, f =>
    match x.declarations.entity? name with
    | some (.internal text) =>
      if name ∈ opened then .error ((.recursiveEntity, start), f.events)
      else
        let direct := x.account (start.drop (name.length + 2))
        let spent := f.spent + octetCount text
        if isExcessive direct spent then .error ((.amplification, start), f.events)
        else
          let opened := name :: opened
          let inner := x.within direct opened f.opened.length
          match inner.contentTold (expandAt x level opened) (expandTold x level opened)
              (text.length + 1) text { f with spent := spent } with
          | .ok (g, _) => .ok g
          | .error ((cause, _), es) => .error ((cause, start), es)
    | _ => .error ((.undefinedEntity, start), f.events)

namespace Surroundings

variable {x : Surroundings} {expand : Expanding} {tell : Telling}

/-- A reference that is replaced is what its replacement gives. -/
theorem step_replaced {cs rest name : List Char} (h : x.replaced? cs = some (name, rest))
    (expand : Expanding) (f : Flow) :
  x.step expand '&' cs f = (expand name ('&' :: cs) f).map (·, rest)
  := by
  unfold replaced? at h
  split at h
  · rename_i name' rest' hreference
    split at h
    · rename_i text hpredefined hentity
      split_ifs at h with hmanner
      cases h
      have hnamed : x.named expand name ('&' :: cs) f = expand name ('&' :: cs) f := by
        simp only [named, hpredefined, hentity, hmanner, ite_false]
      simp only [step, reference, scanned, hreference, Except.mapError, bind, Except.bind, hnamed]
      cases expand name ('&' :: cs) f <;> rfl
    · cases h
  · cases h

theorem forgetting_stepTold
    (htell : ∀ name start f, forgetting (tell name start f) = expand name start f) (c : Char)
    (more : List Char) (f : Flow) :
  forgetting (x.stepTold expand tell c more f) = x.step expand c more f
  := by
  unfold stepTold
  split
  · simp only [bind, forgetting_bind, forgetting_undelivered, forgetting_sectionTold]
    rfl
  · split
    · rename_i name rest hreplaced
      rw [forgetting_map, htell, step_replaced hreplaced]
    · rw [forgetting_undelivered]
  · rw [forgetting_undelivered]

theorem forgetting_contentTold (x : Surroundings)
    (htell : ∀ name start f, forgetting (tell name start f) = expand name start f) (fuel : Nat)
    (cs : List Char) (f : Flow) :
  forgetting (x.contentTold expand tell fuel cs f) = x.content expand fuel cs f
  := by
  induction fuel generalizing cs f with
  | zero => rfl
  | succ fuel ih =>
      cases cs with
      | nil =>
          rw [contentTold, content]
          · simp
          · simp
          · simp
      | cons c more =>
          rw [contentTold, content]
          simp only [bind, forgetting_bind, forgetting_stepTold htell]
          congr 1
          funext ⟨g, rest⟩
          dsimp only
          split_ifs
          · rfl
          · exact ih rest g

end Surroundings

theorem forgetting_expandTold (x : Surroundings) (level : Nat) (opened : List (List Char))
    (name start : List Char) (f : Flow) :
  forgetting (expandTold x level opened name start f) = expandAt x level opened name start f
  := by
  induction level generalizing opened name start f with
  | zero => rfl
  | succ level ih =>
      rcases hentity : x.declarations.entity? name with _ | (text | _ | _)
      · simp only [expandTold, expandAt, hentity, forgetting_error]
      · simp only [expandTold, expandAt, hentity]
        split_ifs
        · rfl
        · rfl
        · let inner := x.within (x.account (start.drop (name.length + 2))) (name :: opened)
            f.opened.length
          have hinner := inner.forgetting_contentTold (ih (name :: opened)) (text.length + 1) text
            { f with spent := f.spent + octetCount text }
          rw [← hinner]
          cases inner.contentTold _ _ _ text _ <;> rfl
      · simp only [expandTold, expandAt, hentity, forgetting_error]
      · simp only [expandTold, expandAt, hentity, forgetting_error]

/-! ### Before, in and after the root -/

/-- What stands before the root element, told with its events. -/
def beforeRootTold (m : Medium) (account : Account) :
    Nat → List Char → Prolog → Except Halt (Prolog × List Char)
  | 0, cs, p => .error ((.noElement, cs), p.events)
  | _, [], p => .error (endFailure m .noElement, p.events)
  | fuel + 1, c :: more, p =>
    match m.token c more with
    | .error l => .error (failureOf l (c :: more), p.events)
    | .ok (.root, _) =>
      if p.stage.allowsRoot then .ok (p, c :: more)
      else .error ((.wrongSyntax, c :: more), p.events)
    | .ok (t, rest) => do
      let raw := (c :: more).take (more.length + 1 - rest.length)
      let isHalved := rest = [] && m.ending = .ragged && t.endsOpen
      let q ← undelivered p.events
        (p.step m account (if isHalved then t.halved else t) raw (c :: more))
      beforeRootTold (if isHalved then m.enclosed else m) account fuel rest q

/-- What stands after the root element, told with its events. -/
def afterRootTold (m : Medium) : Nat → List Char → List Event → Except Halt (List Event)
  | 0, _, events => .ok events
  | _, [], events =>
    if m.ending = .clean then .ok events else .error (endFailure m .noElement, events)
  | fuel + 1, c :: more, events =>
    match m.token c more with
    | .error l => .error (failureOf l (c :: more), events)
    | .ok (.blank, rest) =>
      if rest = [] && m.ending = .ragged && (c :: more).getLast? = some '\r' then .ok events
      else afterRootTold m fuel rest events
    | .ok (.comment text, rest) => afterRootTold m fuel rest (commentEvent text :: events)
    | .ok (.instruction target text, rest) =>
      let raw := (c :: more).take (more.length + 1 - rest.length)
      afterRootTold m fuel rest (instructionEvent raw target text :: events)
    | .ok _ => .error ((.junkAfterRoot, c :: more), events)

/-- The events of a document after its declaration, the latest first, told with those before a
failure. -/
def wholeTold (m : Medium) (manner : Manner) (account : Account) (p : Prolog) (cs : List Char) :
    Except Halt (List Event) := do
  let (p, rest) ← beforeRootTold m account (cs.length + 1) cs p
  let x : Surroundings := ⟨m, p.declarations, manner, account, 0, []⟩
  let level := x.declarations.entities.length + 1
  let (f, rest) ← x.contentTold (expandAt x level []) (expandTold x level []) (rest.length + 1)
    rest { events := p.events, spent := p.spent }
  afterRootTold m (rest.length + 1) rest f.events

theorem forgetting_beforeRootTold (m : Medium) (account : Account) (fuel : Nat)
    (cs : List Char) (p : Prolog) :
  forgetting (beforeRootTold m account fuel cs p) = beforeRoot m account fuel cs p
  := by
  fun_induction beforeRoot m account fuel cs p <;> simp_all +zetaDelta [beforeRootTold, bind]

theorem forgetting_afterRootTold (m : Medium) (fuel : Nat) (cs : List Char) (es : List Event) :
  forgetting (afterRootTold m fuel cs es) = afterRoot m fuel cs es
  := by
  fun_induction afterRoot m fuel cs es <;> grind [afterRootTold, forgetting_ok, forgetting_error]

/-- Told with the events before a failure, markup has the same events or the same failure. -/
theorem forgetting_wholeTold (m : Medium) (manner : Manner) (account : Account) (p : Prolog)
    (cs : List Char) :
  (forgetting (wholeTold m manner account p cs)).map List.reverse
    = wholeMarkup m manner account p cs
  := by
  have hcontent (x : Surroundings) (level fuel : Nat) (cs : List Char) (f : Flow) :
      forgetting (x.contentTold (expandAt x level []) (expandTold x level []) fuel cs f)
        = x.content (expandAt x level []) fuel cs f :=
    x.forgetting_contentTold (forgetting_expandTold x level []) fuel cs f
  simp only [wholeTold, wholeMarkup, bind, forgetting_bind, forgetting_beforeRootTold, hcontent,
    forgetting_afterRootTold]
  cases beforeRoot m account (cs.length + 1) cs p with
  | error e => rfl
  | ok found =>
      obtain ⟨q, rest⟩ := found
      simp only [Except.bind, Surroundings.rootElement]
      cases Surroundings.content _ _ _ rest _ with
      | error e => rfl
      | ok found =>
          simp only
          cases afterRoot m _ found.2 _ <;> rfl

/-- The events that are delivered when a text is read, in their order, whether it is read to its
end or not. -/
def delivered (t : String) : List Event :=
  match beginSource {} (.text t) with
  | .error _ => []
  | .ok b =>
    match wholeTold b.script.medium {} (b.script.medium.account (Source.text t).bytes.length)
        { b.prolog with types := none } b.rest with
    | .ok es => es.reverse
    | .error (_, es) => es.reverse

/-- A text that is read to its end delivers the events of which its document is made. -/
theorem delivered_of_events {t : String} {es : List Event} (h : events {} (.text t) = .ok es) :
  delivered t = es
  := by
  obtain ⟨b, hbegun, h⟩ := bind_ok h
  have hmarkup := mapError_ok h
  rw [← forgetting_wholeTold] at hmarkup
  obtain ⟨last, htold, rfl⟩ := map_ok hmarkup
  have hwhole := mapError_ok htold
  simp only [Bool.false_eq_true, ite_false] at hwhole
  simp only [delivered, hbegun, hwhole]

end Reading

end XmlDraft
