import XmlDraft.Proofs.Levels
import XmlDraft.Proofs.Phases
import XmlDraft.Proofs.Reporting

/-!
# What sources tell

Reading tells its events in the order of a well-formed document, step by step: a step through content
leads to another phase inside the root or behind it, a token before the root to another one before
it.  Main statement: the events of a source that is read are those of a well-formed document, and no
character data among them is empty.
-/

namespace XmlDraft

namespace Reading

/-- Events, the latest first, that lead to a phase; their character data is not empty. -/
structure Reaches (es : List Event) (p : Phase) : Prop where
  order : Proceeds .beginning es.reverse p
  data : HasData es

theorem Reaches.emit {es : List Event} {p q : Phase} {e : Event} (h : Reaches es p)
    (hfollows : Follows p e q) (hdata : ∀ cs, e = .characters cs → cs ≠ []) :
  Reaches (e :: es) q
  := by
  refine ⟨?_, hasData_cons.mpr ⟨hdata, h.data⟩⟩
  rw [List.reverse_cons]
  exact h.order.append (.single hfollows)

/-- A comment that is told breaks nothing, as it did where it is written. -/
theorem Reaches.comment {es : List Event} {p : Phase} (h : Reaches es p)
    (hp : p.begun.allowsAsides) {text : List Char} (whole : breaksComment text = false) :
  Reaches (commentEvent text :: es) p.begun
  := h.emit (.comment hp (Surroundings.comment_takes whole)) (by simp [commentEvent])

theorem Reaches.instruction {es : List Event} {p : Phase} (h : Reaches es p)
    (hp : p.begun.allowsAsides) (raw target text : List Char) :
  Reaches (instructionEvent raw target text :: es) p.begun
  := h.emit (.instruction raw _ _ hp) (by simp [instructionEvent])

/-! ### Content -/

/-- A state whose events lead inside as many elements as are open, or behind the root. -/
def Flow.IsPlaced (f : Flow) : Prop :=
  Reaches f.events (.within f.opened.length)

/-- A state inside the root, and inside so many elements of it. -/
structure Flow.IsAt (f : Flow) (depth : Nat) : Prop where
  opened : f.opened.length = depth + 1
  reaches : Reaches f.events (.content depth)

/-- A way to expand references that leads inside as many elements as are open. -/
def Places (expand : Expanding) : Prop :=
  ∀ name start f g depth, f.IsAt depth → expand name start f = .ok g → g.IsPlaced

namespace Flow

variable {f : Flow} {depth : Nat}

theorem IsPlaced.isAt (hf : f.IsPlaced) (hne : f.opened ≠ []) :
  ∃ depth, f.IsAt depth
  := by
  obtain ⟨depth, hdepth⟩ := Nat.exists_eq_succ_of_ne_zero (mt List.length_eq_zero_iff.mp hne)
  refine ⟨depth, hdepth, ?_⟩
  rwa [IsPlaced, hdepth] at hf

theorem IsAt.isPlaced (hf : f.IsAt depth) :
  f.IsPlaced
  := by
  rw [IsPlaced, hf.opened]
  exact hf.reaches

/-- An event that stays at its depth leaves the state there. -/
theorem IsAt.emit (hf : f.IsAt depth) {e : Event} (he : Follows (.content depth) e (.content depth))
    (hdata : ∀ cs, e = .characters cs → cs ≠ []) :
  (f.emit e).IsAt depth
  := ⟨hf.opened, hf.reaches.emit he hdata⟩

theorem IsAt.characters (hf : f.IsAt depth) (c : Char) (cs : List Char) :
  (f.emit (.characters (c :: cs))).IsAt depth
  := hf.emit (.characters depth _) (by simp)

end Flow

namespace Surroundings

variable {x : Surroundings} {expand : Expanding} {cs rest : List Char} {f g : Flow} {depth : Nat}

/-- A start tag leads inside its element, or behind it where the element is empty. -/
theorem Begins.placed (hx : x.IsUndivided) {p : Phase} (hf : Reaches f.events p)
    (hfollows : ∀ tag : Tag, tag.name.raw ≠ "" →
      Follows p (.start tag) (.content f.opened.length)) {start : List Char}
    (h : x.Begins start cs f g rest) :
  g.IsPlaced
  := by
  have hstarted {tag : Tag} (htag : tag.name.raw ≠ "") :
      Reaches (.start tag :: f.events) (.content f.opened.length) :=
    hf.emit (hfollows tag htag) (by simp)
  cases h with
  | opens found resolved => exact hstarted (startTag_named hx found resolved)
  | whole found resolved =>
      exact (hstarted (startTag_named hx found resolved)).emit (.finish _) (by simp)

theorem endTag_placed (hf : f.IsAt depth) {o : Opened} {others : List Opened} {scope : Scope}
    (hopened : f.opened = o :: others) :
  Flow.IsPlaced { f.emit .finish with opened := others, scope := scope }
  := by
  have hlength : others.length = depth := by simpa [hopened] using hf.opened
  rw [Flow.IsPlaced, hlength]
  exact hf.reaches.emit (.finish depth) (by simp)

/-- The pieces of a section are not empty. -/
theorem sectionPiece_ne {piece : List Char} (h : x.sectionPiece cs = .ok (some piece, rest)) :
  piece ≠ []
  := by
  unfold sectionPiece at h
  split at h
  · split at h <;> cases h
  · cases h
  · split_ifs at h
    cases h
    exact List.cons_ne_nil _ _
  · split_ifs at h
    · cases h
      exact List.cons_ne_nil _ _
    · split at h
      · cases h
        exact List.cons_ne_nil _ _
      · split_ifs at h
        cases h
        exact List.cons_ne_nil _ _
  · split_ifs at h
    cases h
    exact List.cons_ne_nil _ _

/-- A section leads back to where it began. -/
theorem sectionBody_placed {fuel : Nat} (hopened : f.opened.length = depth + 1)
    (hf : Reaches f.events (.cdata depth)) (h : x.sectionBody fuel cs f = .ok (g, rest)) :
  g.IsAt depth
  := by
  induction fuel generalizing cs f with
  | zero => cases h
  | succ fuel ih =>
      rw [sectionBody_succ] at h
      obtain ⟨⟨piece?, more⟩, hpiece, h⟩ := bind_ok h
      cases piece? with
      | none =>
          cases h
          exact ⟨hopened, hf.emit (.sectionEnd depth) (by simp)⟩
      | some piece =>
          refine ih (f := f.emit (.characters piece)) hopened ?_ h
          exact hf.emit (.sectionCharacters depth piece) (by simpa using sectionPiece_ne hpiece)

theorem Moves.placed (hx : x.IsUndivided) (hexpand : Places expand) (hf : f.IsAt depth)
    (h : x.Moves expand f cs g rest) :
  g.IsPlaced
  := by
  cases h with
  | startTag begins =>
      refine begins.placed hx hf.reaches fun tag named => ?_
      rw [hf.opened]
      exact .start depth named
  | endTag _ opened => exact endTag_placed hf opened
  | comment found =>
      obtain ⟨_, _, hbreaks⟩ := Medium.comment_ok found
      exact Flow.IsAt.isPlaced ⟨hf.opened, hf.reaches.comment rfl hbreaks⟩
  | cdata body =>
      have hstarted := hf.reaches.emit (.sectionStart depth) (by simp)
      exact (sectionBody_placed (f := f.emit .cdataStart) hf.opened hstarted body).isPlaced
  | instruction raw =>
      exact Flow.IsAt.isPlaced ⟨hf.opened, hf.reaches.instruction rfl raw _ _⟩
  | characters => exact (hf.characters _ _).isPlaced
  | kept => exact (hf.emit (.unresolved depth _) (by simp)).isPlaced
  | replaced _ expands => exact hexpand _ _ _ _ _ hf expands

/-- Content leads inside as many elements as are open at its end, or behind the root. -/
theorem content_placed (hx : x.IsUndivided) (hexpand : Places expand) {fuel : Nat}
    (hf : f.IsAt depth) (h : x.content expand fuel cs f = .ok (g, rest)) :
  g.IsPlaced
  := by
  have hends := content_leads (P := fun f => ∃ depth, f.IsAt depth) (Q := Flow.IsPlaced)
    (fun ⟨_, hat⟩ hmoves => hmoves.placed hx hexpand hat) Flow.IsPlaced.isAt ⟨depth, hf⟩ h
  rcases hends with ⟨⟨_, hat⟩, _⟩ | ⟨hplaced, _⟩
  · exact hat.isPlaced
  · exact hplaced

theorem expandAt_places (hx : x.IsUndivided) (level : Nat) (opened : List (List Char)) :
  Places (expandAt x level opened)
  := by
  induction level generalizing opened with
  | zero =>
      intro name start f g depth _ h
      cases h
  | succ level ih =>
      intro name start f g depth hf h
      obtain ⟨text, direct, rest, _, hcontent⟩ := expandAt_ok h
      have hinner : (x.within direct (name :: opened) f.opened.length).IsUndivided :=
        ⟨hx.divides, hx.separator⟩
      have hat : Flow.IsAt { f with spent := f.spent + octetCount text } depth :=
        ⟨hf.opened, hf.reaches⟩
      exact content_placed hinner (ih (name :: opened)) hat hcontent

/-- The root leads from before it to behind it. -/
theorem rootElement_placed (hx : x.IsUndivided) (hbase : x.base = 0)
    (hknown : 0x80 ≤ x.medium.alphabet.known) {es : List Event} {p : Phase} (hes : Reaches es p)
    {mayType : Bool} (hp : p.begun = .front mayType) {c : Char} {more cs : List Char}
    (hroot : x.medium.token c more = .ok (.root, cs))
    {spent : Nat} (h : x.rootElement (c :: more) { events := es, spent := spent } = .ok (g, rest)) :
  Reaches g.events .behind
  := by
  have hclosed : g.opened = [] := (content_goesOn (expandAt_goesOn x _ []) h).2 hbase
  have hplaces := expandAt_places hx (x.declarations.entities.length + 1) []
  have hplaced : g.IsPlaced := by
    obtain ⟨rfl, hhead⟩ := token_root_ok hx.divides hknown hroot
    obtain ⟨⟨next, rest'⟩, hstep, h⟩ := bind_ok h
    -- where the root begins no other markup than its start tag can stand
    have hnext : next.IsPlaced :=
      ((step_moves hstep).begins hhead).placed hx hes fun tag named => .root hp named
    dsimp only at h
    split_ifs at h with hopened
    · cases h
      exact hnext
    · obtain ⟨depth, hat⟩ := hnext.isAt (mt List.isEmpty_iff.mpr hopened)
      exact content_placed hx hplaces hat h
  rwa [Flow.IsPlaced, hclosed] at hplaced

end Surroundings

/-! ### Before the root -/

/-- Whether a stage comes before the internal subset and the end of the document type. -/
def Stage.isEarly : Stage → Bool
  | beginning => true
  | beforeDoctype => true
  | doctypeName => true
  | doctypeNamed => true
  | doctypePublic => true
  | doctypeSystem => true
  | doctypeIdentified => true
  | _ => false

theorem Stage.isInner_of_isEarly {stage : Stage} (h : stage.isEarly) :
  stage.isInner = false
  := by
  cases stage <;> first | rfl | cases h

theorem Stage.isEarly_of_isHead {stage : Stage} (h : stage.isHead) :
  stage.isEarly
  := by
  cases stage <;> first | rfl | cases h

namespace Prolog

/-- The phase of the document in a state before the root. -/
inductive Stands (p : Prolog) : Phase → Prop
  | early {q : Phase} (hstage : p.stage.isEarly) (houtside : p.inSubset = false)
      (hq : q.begun = .front true) : Stands p q
  | inside (hinside : p.IsInside) : Stands p (.doctype true)
  | tail (hstage : p.stage = .doctypeEnd) (houtside : p.inSubset = false) : Stands p (.doctype true)
  | after (hstage : p.stage = .afterDoctype) (houtside : p.inSubset = false) :
      Stands p (.front false)

/-- A state before the root whose events lead to its phase. -/
def IsPlaced (p : Prolog) : Prop :=
  ∃ phase, p.Stands phase ∧ Reaches p.events phase

variable {m : Medium} {account : Account} {p q : Prolog} {t : Token} {raw cs : List Char}
  {phase : Phase}

theorem Stands.allowsAsides (h : p.Stands phase) :
  phase.begun.allowsAsides
  := by
  cases h with
  | early _ _ hq => rw [hq]; rfl
  | _ => rfl

theorem Stands.leaveBeginning (h : p.Stands phase) :
  p.leaveBeginning.Stands phase
  := by
  unfold Prolog.leaveBeginning
  split_ifs with hstage
  · cases h with
    | early _ houtside hq => exact .early rfl houtside hq
    | inside hinside =>
        have hinner := hinside.inner
        rw [hstage] at hinner
        cases hinner
    | tail hend => rw [hstage] at hend; cases hend
    | after hafter => rw [hstage] at hafter; cases hafter
  · exact h

/-- The place of the declaration is left for a comment or an instruction. -/
theorem Stands.emit (h : p.Stands phase) (e : Event) :
  (p.emit e).Stands phase.begun
  := by
  cases h with
  | early hstage houtside hq => exact .early hstage houtside (by rw [hq]; rfl)
  | inside hinside => exact .inside ⟨hinside.inner, hinside.inSubset⟩
  | tail hstage houtside => exact .tail hstage houtside
  | after hstage houtside => exact .after hstage houtside

theorem leaveBeginning_events (p : Prolog) :
  p.leaveBeginning.events = p.events
  := by
  unfold Prolog.leaveBeginning
  split_ifs <;> rfl

theorem IsPlaced.leaveBeginning (h : p.IsPlaced) :
  p.leaveBeginning.IsPlaced
  := by
  obtain ⟨phase, hstands, hreaches⟩ := h
  exact ⟨phase, hstands.leaveBeginning, by rwa [leaveBeginning_events]⟩

/-- The text that a token leaves in the internal subset may come there. -/
theorem IsPlaced.keepText (h : p.IsPlaced) (raw : List Char) :
  (p.keepText raw).IsPlaced
  := by
  unfold Prolog.keepText
  split_ifs
  · obtain ⟨phase, hstands, hreaches⟩ := h
    exact ⟨phase.begun, hstands.emit _, hreaches.emit (.plain raw hstands.allowsAsides) (by simp)⟩
  · exact h

/-- A part of a document type leads to a state of the same phase, or of the next one. -/
theorem IsPlaced.part (hp : p.IsPlaced) (ht : ∀ value, t = .literal value → ∀ c ∈ value, isXmlChar c)
    (h : partStep m account p t cs = .ok q) :
  q.IsPlaced
  := by
  obtain ⟨phase, hstands, hreaches⟩ := hp
  cases hstands with
  | early hstage houtside hphase =>
      have hstarted (hasSubset : Bool) :
          Reaches (p.doctypeEvent hasSubset :: p.events) (.doctype hasSubset) :=
        hreaches.emit (.doctypeStart _ _ _ hasSubset hphase) (by simp [doctypeEvent])
      cases partStep_leads (Stage.isInner_of_isEarly hstage) h with
      | begins => exact ⟨phase, .early rfl houtside hphase, hreaches⟩
      | goesOn _ hhead events inSubset =>
          exact ⟨phase, .early (Stage.isEarly_of_isHead hhead) (inSubset.trans houtside) hphase,
            events ▸ hreaches⟩
      | opens => exact ⟨.doctype true, .inside ⟨rfl, rfl⟩, hstarted true⟩
      | ends =>
          exact ⟨.front false, .after rfl houtside, (hstarted false).emit (.doctypeEnd _) (by simp)⟩
      | closes hend =>
          rw [hend] at hstage
          cases hstage
  | inside hinside =>
      rcases partStep_inner hinside.inner ht h with ⟨_, _, rfl⟩ | hdeclares
      · exact ⟨.doctype true, .tail rfl rfl, hreaches⟩
      · refine ⟨.doctype true, .inside ⟨hdeclares.inner, ?_⟩, hdeclares.events ▸ hreaches⟩
        rw [hdeclares.inSubset]
        exact hinside.inSubset
  | tail hstage houtside =>
      obtain rfl := (partStep_leads (by rw [hstage]; rfl) h).eq_closed hstage
      exact ⟨.front false, .after rfl houtside, hreaches.emit (.doctypeEnd true) (by simp)⟩
  | after hstage houtside =>
      exact absurd hstage (partStep_leads (by rw [hstage]; rfl) h).stage_ne

/-- A token before the root leads to a state of its phase. -/
theorem IsPlaced.step (hp : p.IsPlaced)
    (hcomment : ∀ text, t = .comment text → breaksComment text = false)
    (ht : ∀ value, t = .literal value → ∀ c ∈ value, isXmlChar c)
    (h : p.step m account t raw cs = .ok q) :
  q.IsPlaced
  := by
  rcases step_ok h with ⟨_, rfl⟩ | ⟨text, htext, _, rfl⟩ | ⟨target, text, _, _, rfl⟩
    | ⟨next, _, hnext, rfl⟩
  · exact hp.leaveBeginning.keepText raw
  · obtain ⟨phase, hstands, hreaches⟩ := hp.leaveBeginning
    exact ⟨phase.begun, hstands.emit _, hreaches.comment hstands.allowsAsides (hcomment text htext)⟩
  · obtain ⟨phase, hstands, hreaches⟩ := hp.leaveBeginning
    exact ⟨phase.begun, hstands.emit _, hreaches.instruction hstands.allowsAsides raw target text⟩
  · have hplaced := hp.part ht hnext
    split_ifs
    · exact hplaced.keepText raw
    · exact hplaced

/-- The root may begin where a document type need not end first. -/
theorem Stands.mayBegin (h : p.Stands phase) (hroot : p.stage.allowsRoot) :
  ∃ mayType, phase.begun = .front mayType
  := by
  cases h with
  | early _ _ hq => exact ⟨true, hq⟩
  | inside hinside =>
      have hinner := hinside.inner
      cases hstage : p.stage <;> simp_all [Stage.allowsRoot, Stage.isInner]
  | tail hstage => rw [hstage] at hroot; cases hroot
  | after => exact ⟨false, rfl⟩

end Prolog

/-- Where the root begins, what stands before it leads to a state of its phase. -/
theorem beforeRoot_placed {m : Medium} (hm : m.alphabet.divides = false) {account : Account}
    {fuel : Nat} {cs rest : List Char} {p q : Prolog} (hp : p.IsPlaced)
    (h : beforeRoot m account fuel cs p = .ok (q, rest)) :
  q.IsPlaced ∧ q.stage.allowsRoot
    ∧ ∃ c more cs, rest = c :: more ∧ m.token c more = .ok (.root, cs)
  := by
  induction fuel generalizing cs p with
  | zero => cases h
  | succ fuel ih =>
      cases cs with
      | nil => exact absurd h (beforeRoot_nil _ _ _ _ _)
      | cons c more =>
          rcases beforeRoot_cons hm h with ⟨rfl, hroot, rfl, cs, htoken⟩
            | ⟨t, raw, cs, next, _, hspells, _, hstep, hrest⟩
          · exact ⟨hp, hroot, c, more, cs, rfl, htoken⟩
          · have hnext := hp.step (breaksComment_of_spells hspells) (isXmlChar_of_spells hspells)
              hstep
            exact ih hnext hrest

/-! ### Behind the root, and whole markup -/

/-- What stands behind the root stays behind it. -/
theorem afterRoot_placed {m : Medium} (hm : m.alphabet.divides = false) {fuel : Nat}
    {cs : List Char} {es last : List Event} (hes : Reaches es .behind)
    (h : afterRoot m fuel cs es = .ok last) :
  Reaches last .behind
  := by
  induction fuel generalizing cs es with
  | zero =>
      cases h
      exact hes
  | succ fuel ih =>
      cases cs with
      | nil =>
          rw [afterRoot] at h
          · split_ifs at h
            cases h
            exact hes
          · simp
      | cons c more =>
          rw [afterRoot] at h
          split at h
          · cases h
          · split_ifs at h
            · cases h
              exact hes
            · exact ih hes h
          · rename_i text rest htoken
            obtain ⟨raw, _, hspells⟩ := (Medium.token_ok hm htoken).resolve_left Token.noConfusion
            exact ih (hes.comment rfl (breaksComment_of_spells hspells text rfl)) h
          · exact ih (hes.instruction rfl _ _ _) h
          · cases h

theorem wholeMarkup_placed {m : Medium} (hm : m.IsUsual) {account : Account} {p : Prolog}
    {cs : List Char} {es : List Event} (hp : p.IsPlaced)
    (h : wholeMarkup m {} account p cs = .ok es) :
  IsWellFormed es ∧ HasData es
  := by
  obtain ⟨⟨q, _⟩, hbefore, h⟩ := bind_ok h
  obtain ⟨⟨f, rest⟩, hroot, h⟩ := bind_ok h
  obtain ⟨last, hafter, h⟩ := bind_ok h
  cases h
  obtain ⟨⟨phase, hstands, hreaches⟩, hallows, c, more, cs, rfl, htoken⟩ :=
    beforeRoot_placed hm.divides hp hbefore
  obtain ⟨mayType, hmay⟩ := hstands.mayBegin hallows
  have hx : Surroundings.IsUndivided ⟨m, q.declarations, {}, account, 0, []⟩ := ⟨hm.divides, rfl⟩
  have hbehind := Surroundings.rootElement_placed hx rfl hm.known hreaches hmay htoken hroot
  obtain ⟨horder, hdata⟩ := afterRoot_placed hm.divides hbehind hafter
  exact ⟨horder, fun cs hcs => hdata cs (List.mem_reverse.mp hcs)⟩

/-! ### Sources -/

theorem begin_placed {s : Script}
    {switch : List Char → List Char → List Char → Except Unreadable (Script × List Char)}
    {b : Begun} (h : begin s switch = .ok b) :
  ({ b.prolog with types := none } : Prolog).IsPlaced
  := by
  have hnil : Reaches [] .beginning := ⟨.nil _, by simp [HasData]⟩
  have hheading (h : Heading) : (afterHeading h).IsPlaced :=
    ⟨.front true, .early rfl rfl rfl, hnil.emit (.declaration _ _ _) (by simp)⟩
  rcases begin_cases h with ⟨_, hprolog⟩ | ⟨_, _, heading, _, hprolog, _⟩
  · rw [hprolog]
    exact ⟨.beginning, .early rfl rfl rfl, hnil⟩
  · rw [hprolog]
    exact hheading heading

/-- A source begins with the beginning of a script. -/
theorem beginSource_begins {source : Source} {b : Begun} (h : beginSource {} source = .ok b) :
  ∃ s switch, begin s switch = .ok b
  := by
  cases source with
  | text t =>
      obtain ⟨s, s', heq⟩ := beginSource_eq_begin t
      exact ⟨s, keepScript s', heq.symm.trans h⟩
  | octets os =>
      simp only [beginSource] at h
      split at h
      · exact ⟨_, _, h⟩
      · exact ⟨_, _, h⟩

/-- The events of a source that is read are those of a well-formed document, and their character
data is not empty. -/
theorem events_isWellFormed {source : Source} {es : List Event} (h : events {} source = .ok es) :
  IsWellFormed es ∧ HasData es
  := by
  obtain ⟨b, hbegun, h⟩ := bind_ok h
  obtain ⟨s, switch, hbegin⟩ := beginSource_begins hbegun
  exact wholeMarkup_placed (beginSource_ok hbegun).1 (begin_placed hbegin) (mapError_ok h)

end Reading

end XmlDraft
