import XmlDraft.Proofs.Accepting
import XmlDraft.Proofs.Accounts
import XmlDraft.Proofs.Spelling
import XmlDraft.Reading.Markup

/-!
# What stands before the root

The parts of a document type one after another: what stands before it, its head, the
declarations of its internal subset, and its end.
-/

namespace XmlDraft

namespace Reading

/-! ### Replacement texts -/

/-- The replacement text of an entity consists of characters of documents. -/
theorem replacementText_ok {m : Medium} {fuel : Nat} {cs text : List Char}
    (hcs : ∀ c ∈ cs, isXmlChar c) (h : replacementText m fuel cs = .ok text) :
  ∀ c ∈ text, isXmlChar c
  := by
  induction fuel generalizing cs text with
  | zero =>
      cases h
      simp
  | succ fuel ih =>
      cases cs with
      | nil =>
          cases h
          simp
      | cons c cs =>
          rw [List.forall_mem_cons] at hcs
          -- what follows some more characters is replaced by characters of documents
          have hrest {rest ds : List Char} (hsuffix : rest <:+ cs)
              (h : replacementText m fuel rest = .ok ds) : ∀ d ∈ ds, isXmlChar d :=
            ih (fun d hd => hcs.2 d (hsuffix.subset hd)) h
          unfold replacementText at h
          split at h
          · split at h
            · cases h
            · cases h
            · rename_i x rest hr
              obtain ⟨ds, hds, rfl⟩ := map_ok h
              exact List.forall_mem_cons.mpr
                ⟨Medium.reference_numbered hr, hrest (Medium.reference_suffix hr) hds⟩
            · rename_i name rest hr
              obtain ⟨ds, hds, rfl⟩ := map_ok h
              obtain ⟨hname, _⟩ := Medium.reference_name hr
              simp only [List.cons_append, List.forall_mem_cons, List.forall_mem_append]
              refine ⟨hcs.1, ?_, by decide, hrest (Medium.reference_suffix hr) hds⟩
              exact fun d hd => hcs.2 d (hname ▸ List.mem_append_left _ hd)
          · split at h
            · cases h
            · cases h
            · cases h
          · split at h
            · obtain ⟨ds, hds, rfl⟩ := map_ok h
              exact List.forall_mem_cons.mpr ⟨by decide, hrest (List.suffix_cons _ _) hds⟩
            · obtain ⟨ds, hds, rfl⟩ := map_ok h
              exact List.forall_mem_cons.mpr ⟨by decide, hrest List.suffix_rfl hds⟩
          · obtain ⟨ds, hds, rfl⟩ := map_ok h
            exact List.forall_mem_cons.mpr ⟨hcs.1, hrest List.suffix_rfl hds⟩

namespace Declarations

/-- One more entity of which the replacement text, if it has one, consists of characters of
documents. -/
theorem AreChars.declareEntity {d : Declarations} (h : d.AreChars) (name : List Char) {e : Entity}
    (he : ∀ text, e = .internal text → ∀ c ∈ text, isXmlChar c) :
  (d.declareEntity name e).AreChars
  := by
  unfold Declarations.declareEntity
  split_ifs
  · exact h
  · intro other text hother
    rw [entity?, List.lookup_append, Option.or_eq_some_iff] at hother
    rcases hother with hother | ⟨_, hother⟩
    · exact h other text hother
    · simp only [List.lookup_cons, List.lookup_nil] at hother
      split at hother
      · exact he text (Option.some.inj hother)
      · cases hother

theorem AreChars.declareAttribute {d : Declarations} (h : d.AreChars) (a : AttributeDeclaration)
    (isIdentifier : Bool) :
  (d.declareAttribute a isIdentifier).AreChars
  := by
  unfold Declarations.declareAttribute
  split_ifs
  · exact h
  · exact h

end Declarations

/-! ### Enclosed media -/

theorem Medium.enclosed_enclosed (m : Medium) :
  m.enclosed.enclosed = m.enclosed
  := rfl

/-- References are replaced in the same way wherever the characters of a source end. -/
theorem replaceAt_enclosed (m : Medium) (d : Declarations) (isPlain : Bool) (direct : Option Nat)
    (level : Nat) (opened : List (List Char)) :
  replaceAt m.enclosed d isPlain direct level opened = replaceAt m d isPlain direct level opened
  := by
  induction level generalizing opened with
  | zero => rfl
  | succ level ih =>
      funext name g
      simp only [replaceAt, ih]
      rfl

theorem attributeValue_enclosed (m : Medium) (d : Declarations) (opened : List (List Char))
    (isPlain : Bool) (direct : Option Nat) (spent : Nat) (raw : List Char) :
  attributeValue m.enclosed d opened isPlain direct spent raw
    = attributeValue m d opened isPlain direct spent raw
  := by
  simp only [attributeValue, replaceAt_enclosed, Medium.enclosed_enclosed]

/-! ### The internal subset -/

/-- Whether a stage lies inside the internal subset. -/
def Stage.isInner : Stage → Bool
  | beginning => false
  | beforeDoctype => false
  | afterDoctype => false
  | doctypeName => false
  | doctypeNamed => false
  | doctypePublic => false
  | doctypeSystem => false
  | doctypeIdentified => false
  | doctypeEnd => false
  | _ => true

/-- Whether a stage lies in the head of a document type. -/
def Stage.isHead : Stage → Bool
  | doctypeName => true
  | doctypeNamed => true
  | doctypePublic => true
  | doctypeSystem => true
  | doctypeIdentified => true
  | _ => false

/-- Whether a token is neither a blank nor a comment nor an instruction. -/
def Token.isPart : Token → Bool
  | blank => false
  | comment _ => false
  | instruction _ _ => false
  | _ => true

namespace Prolog

variable {m : Medium} {account : Account} {p q : Prolog} {t : Token} {cs : List Char}

/-- The state with other events and another public identifier. -/
def withEvents (p : Prolog) (es : List Event) (publicId : Option (List Char)) : Prolog :=
  { p with events := es, publicId := publicId }

/-- A step inside the internal subset: it adds no event, what it declares consists of characters of
documents, and it can be taken whatever the events so far and the public identifier are. -/
structure Declares (step : Prolog → List Char → Except Failure Prolog) (p q : Prolog) : Prop where
  events : q.events = p.events
  inSubset : q.inSubset = p.inSubset
  inner : q.stage.isInner
  chars : p.declarations.AreChars → q.declarations.AreChars
  again (es : List Event) (publicId : Option (List Char)) (cs : List Char) :
    step (p.withEvents es publicId) cs = .ok (q.withEvents es publicId)

/-- A step that is taken in the same way as another one. -/
theorem Declares.of_eq {step other : Prolog → List Char → Except Failure Prolog}
    (h : Declares step p q)
    (heq : ∀ (es : List Event) (publicId : Option (List Char)) (cs : List Char),
      other (p.withEvents es publicId) cs = step (p.withEvents es publicId) cs) :
  Declares other p q
  := ⟨h.events, h.inSubset, h.inner, h.chars, fun es publicId cs =>
    (heq es publicId cs).trans (h.again es publicId cs)⟩

/-- A token that is refused leads nowhere. -/
@[grind =]
theorem refuse_eq_ok {α : Type} {a : α} :
  ((refuse t cs : Except Failure α) = .ok a) = False
  := by
  unfold refuse
  split <;> simp

/-- The check of a public identifier does not look at its place. -/
theorem checkPublicId_ok {value : List Char} {u : Unit} (h : checkPublicId value cs = .ok u) :
  (∀ c ∈ value, isPublicChar c) ∧ ∀ cs, checkPublicId value cs = .ok ()
  := by
  unfold checkPublicId at h ⊢
  dsimp only at h ⊢
  split_ifs at h with hlength
  have hall : value.takeWhile isPublicChar = value :=
    (List.takeWhile_prefix _).eq_of_length_le (Nat.le_of_not_lt hlength)
  exact ⟨List.takeWhile_eq_self_iff.mp hall, fun cs => if_neg hlength⟩

theorem formatStep_ok (h : p.formatStep t cs = .ok q) :
  Declares (fun p => p.formatStep t) p q
  := by
  unfold formatStep at h
  split at h
  case h_3 stage t value hstage =>
    obtain ⟨_, hcheck, h⟩ := bind_ok h
    obtain ⟨_, hagain⟩ := checkPublicId_ok hcheck
    cases h
    refine ⟨rfl, rfl, rfl, id, fun es publicId cs => ?_⟩
    simp [formatStep, withEvents, goTo, hstage, hagain, bind, Except.bind]
  all_goals constructor <;> grind [formatStep, withEvents, goTo, Stage.isInner]

theorem elementStep_ok (h : p.elementStep t cs = .ok q) :
  Declares (fun p => p.elementStep t) p q
  := by
  unfold elementStep at h
  split at h
  all_goals
    constructor <;> grind [elementStep, withEvents, goTo, openGroup, closeGroup, closeContent,
      connect, Stage.isInner]

/-! ### Entities -/

theorem declare_ok {e : Entity} (he : ∀ text, e = .internal text → ∀ c ∈ text, isXmlChar c)
    (stage : Stage) (hstage : stage.isInner) :
  Declares (fun p _ => .ok { p.declare e with stage := stage }) p
    { p.declare e with stage := stage }
  := by
  unfold declare
  cases hentity : p.entity with
  | none => exact ⟨rfl, rfl, hstage, id, fun es publicId cs => by simp [withEvents, hentity]⟩
  | some name =>
      refine ⟨rfl, rfl, hstage, fun h => h.declareEntity name he, fun es publicId cs => ?_⟩
      simp [withEvents, hentity]

theorem declareText_ok {value : List Char} (hvalue : ∀ c ∈ value, isXmlChar c)
    (h : declareText m p value cs = .ok q) :
  Declares (fun p => declareText m.enclosed p value) p q
  := by
  unfold declareText at h
  split_ifs at h with hreads hhalved
  · split at h
    · rename_i text htext
      cases h
      have hdeclares := declare_ok (p := p)
        (fun _ heq => Entity.internal.inj heq ▸ replacementText_ok hvalue htext) .ending rfl
      refine ⟨hdeclares.events, hdeclares.inSubset, hdeclares.inner,
        hdeclares.chars, fun es publicId cs => ?_⟩
      have hagain := hdeclares.again es publicId cs
      have hreads' : (p.withEvents es publicId).declarations.keepsReading := hreads
      have hhalved' : isHalved m.enclosed value cs = false := by simp [isHalved, Medium.enclosed]
      unfold declareText
      rw [if_pos hreads', hhalved', Medium.enclosed_enclosed, htext]
      exact hagain
    · cases h
  · cases h
    refine ⟨rfl, rfl, rfl, id, fun es publicId cs => ?_⟩
    unfold declareText
    exact if_neg hreads

theorem entityStep_ok (ht : ∀ value, t = .literal value → ∀ c ∈ value, isXmlChar c)
    (h : entityStep m p t cs = .ok q) :
  Declares (fun p => entityStep m.enclosed p t) p q
  := by
  unfold entityStep at h
  split at h
  case h_5 stage t value hstage =>
    exact (declareText_ok (ht value rfl) h).of_eq (by simp [entityStep, withEvents, hstage])
  case h_12 stage t value hstage =>
    exact (declareText_ok (ht value rfl) h).of_eq (by simp [entityStep, withEvents, hstage])
  case h_6 stage t value hstage =>
    obtain ⟨_, hcheck, h⟩ := bind_ok h
    obtain ⟨_, hagain⟩ := checkPublicId_ok hcheck
    cases h
    refine ⟨rfl, rfl, rfl, id, fun es publicId cs => ?_⟩
    simp [entityStep, withEvents, goTo, hstage, hagain, bind, Except.bind]
  case h_13 stage t value hstage =>
    obtain ⟨_, hcheck, h⟩ := bind_ok h
    obtain ⟨_, hagain⟩ := checkPublicId_ok hcheck
    cases h
    refine ⟨rfl, rfl, rfl, id, fun es publicId cs => ?_⟩
    simp [entityStep, withEvents, goTo, hstage, hagain, bind, Except.bind]
  case h_8 stage t hstage =>
    cases h
    exact (declare_ok (by simp) _ rfl).of_eq (by simp [entityStep, withEvents, hstage])
  case h_10 stage t n hstage =>
    cases h
    exact (declare_ok (by simp) _ rfl).of_eq (by simp [entityStep, withEvents, hstage])
  all_goals constructor <;> grind [entityStep, withEvents, goTo, Stage.isInner, countedEntity]

/-! ### Attributes -/

theorem declareAttribute_ok (value : Option (List Char)) :
  Declares (fun p _ => .ok { p.declareAttribute value with stage := .attributeName }) p
    { p.declareAttribute value with stage := .attributeName }
  := by
  unfold declareAttribute
  by_cases hreads : p.declarations.keepsReading
  · simp only [hreads, ite_true]
    refine ⟨rfl, rfl, rfl, fun h => h.declareAttribute _ _, fun es publicId cs => ?_⟩
    simp [withEvents, hreads]
  · simp only [hreads, Bool.false_eq_true, ite_false]
    refine ⟨rfl, rfl, rfl, id, fun es publicId cs => ?_⟩
    simp [withEvents, hreads]

/-- A default value that was read under an account can be read again without one. -/
theorem declareDefault_ok {value : List Char} (h : declareDefault m account p value cs = .ok q) :
  Declares (fun p => declareDefault m.enclosed .unlimited p value) p q
  := by
  unfold declareDefault at h
  split_ifs at h with hreads hhalved
  · split at h
    · rename_i text spent htext
      cases h
      have hagrees := attributeValue_agrees m p.declarations [] p.isPlain
        (account (cs.drop (value.length + 2))) p.spent value
      rw [htext] at hagrees
      have hdeclares := declareAttribute_ok (p := p) (some text)
      refine ⟨hdeclares.events, hdeclares.inSubset, hdeclares.inner,
        hdeclares.chars, fun es publicId cs => ?_⟩
      have hagain := hdeclares.again es publicId cs
      have hreads' : (p.withEvents es publicId).declarations.keepsReading := hreads
      have hhalved' : isHalved m.enclosed value cs = false := by simp [isHalved, Medium.enclosed]
      have htext' : attributeValue m.enclosed (p.withEvents es publicId).declarations []
          (p.withEvents es publicId).isPlain none (p.withEvents es publicId).spent value
          = .ok (text, spent) := (attributeValue_enclosed ..).trans hagrees.free
      unfold declareDefault
      rw [if_pos hreads', hhalved', Account.unlimited, htext']
      exact congrArg (fun q : Prolog => Except.ok { q with spent := spent }) (Except.ok.inj hagain)
    · cases h
  · cases h
    refine ⟨rfl, rfl, rfl, id, fun es publicId cs => ?_⟩
    unfold declareDefault
    exact if_neg hreads

theorem attributeStep_ok (h : attributeStep m account p t cs = .ok q) :
  Declares (fun p => attributeStep m.enclosed .unlimited p t) p q
  := by
  unfold attributeStep at h
  split at h
  case h_17 stage t n hstage =>
    split_ifs at h with hnone hfixed
    · cases h
      exact (declareAttribute_ok none).of_eq (by simp [attributeStep, withEvents, hstage, hnone])
    · constructor <;> grind [attributeStep, withEvents, goTo, Stage.isInner]
    · exact absurd h (by simp [refuse_eq_ok])
  case h_18 stage t value hstage =>
    exact (declareDefault_ok h).of_eq (by simp [attributeStep, withEvents, hstage])
  case h_19 stage t value hstage =>
    exact (declareDefault_ok h).of_eq (by simp [attributeStep, withEvents, hstage])
  all_goals constructor <;> grind [attributeStep, withEvents, goTo, Stage.isInner]

/-! ### Steps inside the subset -/

theorem subsetStep_ok (hstage : p.stage = .subset) (h : p.subsetStep t cs = .ok q) :
  (t = .closeBracket ∧ q = { p with stage := .doctypeEnd, inSubset := false })
    ∨ Declares (fun p => p.subsetStep t) p q
  := by
  unfold subsetStep at h
  split at h
  case h_2 =>
    cases h
    exact .inr ⟨rfl, rfl, hstage ▸ rfl, id, fun es publicId cs => rfl⟩
  case h_3 =>
    cases h
    exact .inl ⟨rfl, rfl⟩
  all_goals
    right
    constructor <;> grind [subsetStep, withEvents, goTo, Stage.isInner]

/-- A part of the internal subset is its end, or a step in one of its declarations. -/
theorem partStep_inner (hinner : p.stage.isInner)
    (ht : ∀ value, t = .literal value → ∀ c ∈ value, isXmlChar c)
    (h : partStep m account p t cs = .ok q) :
  (p.stage = .subset ∧ t = .closeBracket ∧ q = { p with stage := .doctypeEnd, inSubset := false })
    ∨ Declares (fun p => partStep m.enclosed .unlimited p t) p q
  := by
  unfold partStep at h
  split at h
  case h_10 hstage =>
    rcases subsetStep_ok hstage h with ⟨ht, hq⟩ | hdeclares
    · exact .inl ⟨hstage, ht, hq⟩
    · exact .inr (hdeclares.of_eq (by simp [partStep, withEvents, hstage]))
  case h_34 hstage =>
    split at h
    · cases h
      refine .inr ⟨rfl, rfl, rfl, id, fun es publicId cs => ?_⟩
      simp [partStep, withEvents, goTo, hstage]
    · rw [refuse_eq_ok] at h
      exact h.elim
  case h_35 =>
    refine .inr ((entityStep_ok ht h).of_eq fun es publicId cs => ?_)
    simp_all [partStep, withEvents]
  all_goals rename_i hstage
  all_goals first
    | exact absurd hinner (by rw [hstage]; decide)
    | exact .inr ((formatStep_ok h).of_eq (by simp [partStep, withEvents, hstage]))
    | exact .inr ((attributeStep_ok h).of_eq (by simp [partStep, withEvents, hstage]))
    | exact .inr ((elementStep_ok h).of_eq (by simp [partStep, withEvents, hstage]))

/-! ### Outside the subset -/

/-- What a part of a document type outside its internal subset leads to. -/
inductive Leads (p : Prolog) : Prolog → Prop
  /-- A document type begins. -/
  | begins (hp : p.stage = .beginning ∨ p.stage = .beforeDoctype) :
      Leads p { p with stage := .doctypeName }
  /-- Its head goes on. -/
  | goesOn {q : Prolog} (hp : p.stage.isHead) (hq : q.stage.isHead) (events : q.events = p.events)
      (inSubset : q.inSubset = p.inSubset) : Leads p q
  /-- Its subset begins. -/
  | opens (hp : p.stage.isHead) :
      Leads p { p.emit (p.doctypeEvent true) with stage := .subset, inSubset := true }
  /-- It ends without a subset. -/
  | ends (hp : p.stage.isHead) :
      Leads p { (p.emit (p.doctypeEvent false)).emit .doctypeEnd with stage := .afterDoctype }
  /-- It ends behind its subset. -/
  | closes (hp : p.stage = .doctypeEnd) :
      Leads p { p.emit .doctypeEnd with stage := .afterDoctype }

theorem outerStep_leads
    (hp : p.stage = .beginning ∨ p.stage = .beforeDoctype ∨ p.stage = .afterDoctype)
    (h : p.outerStep t cs = .ok q) :
  p.Leads q
  := by
  unfold outerStep at h
  split at h
  · rw [refuse_eq_ok] at h
    exact h.elim
  · split_ifs at h
    · rename_i hstage _
      cases h
      exact .begins (hp.imp_right fun hp => hp.resolve_right hstage)
    · rw [refuse_eq_ok] at h
      exact h.elim
  · rw [refuse_eq_ok] at h
    exact h.elim

theorem doctypeStep_leads (h : p.doctypeStep t cs = .ok q) :
  p.Leads q
  := by
  unfold doctypeStep at h
  split at h
  case h_5 hstage =>
    have hhead : p.stage.isHead := by rw [hstage]; rfl
    split_ifs at h
    · cases h
      exact .goesOn hhead rfl rfl rfl
    · cases h
      exact .goesOn hhead rfl rfl rfl
    · rw [refuse_eq_ok] at h
      exact h.elim
  case h_6 hstage =>
    obtain ⟨_, _, h⟩ := bind_ok h
    cases h
    exact .goesOn (by rw [hstage]; rfl) rfl rfl rfl
  case h_10 hstage =>
    cases h
    exact .closes hstage
  case h_11 =>
    rw [refuse_eq_ok] at h
    exact h.elim
  all_goals
    rename_i hstage
    have hhead : p.stage.isHead := by rw [hstage]; rfl
    cases h
    first
      | exact .goesOn hhead rfl rfl rfl
      | exact .opens hhead
      | exact .ends hhead

/-- Outside the internal subset a part of a document type does one thing. -/
theorem partStep_leads (houter : p.stage.isInner = false) (h : partStep m account p t cs = .ok q) :
  p.Leads q
  := by
  unfold partStep at h
  split at h
  all_goals first
    | exact outerStep_leads (by simp_all) h
    | exact doctypeStep_leads h
    | simp_all [Stage.isInner]

namespace Leads

variable (h : p.Leads q)

include h

theorem stage_ne :
  p.stage ≠ .afterDoctype
  := by
  intro hstage
  cases h <;> simp_all [Stage.isHead]

/-- A document type begins where none has begun. -/
theorem eq_begun (hp : p.stage = .beginning ∨ p.stage = .beforeDoctype) :
  q = { p with stage := .doctypeName }
  := by
  cases h with
  | begins => rfl
  | _ => rcases hp with hp | hp <;> simp_all [Stage.isHead]

/-- Behind the subset nothing but the end of the document type is taken. -/
theorem eq_closed (hp : p.stage = .doctypeEnd) :
  q = { p.emit .doctypeEnd with stage := .afterDoctype }
  := by
  cases h with
  | closes => rfl
  | _ => simp_all [Stage.isHead]

end Leads

/-! ### The head of a document type -/

/-- The state before the internal subset, where only the parts of the head are known. -/
def headed (standalone : Bool) (es : List Event) (n : List Char)
    (publicId systemId : Option (List Char)) (stage : Stage) : Prolog where
  stage := stage
  declarations := { standalone := standalone, isPartial := publicId.isSome || systemId.isSome }
  events := es
  name := n
  publicId := publicId
  systemId := systemId

/-- The parts of the head of a document type: its name, and its identifiers, of which the public
one does not stand alone. -/
structure AreParts (a : Alphabet) (n : List Char) (publicId systemId : Option (List Char)) :
    Prop where
  plain : IsPlainName a n
  publicChars : ∀ value ∈ publicId, ∀ c ∈ value, isPublicChar c
  systemChars : ∀ value ∈ systemId, ∀ c ∈ value, isXmlChar c
  both : publicId.isSome → systemId.isSome

/-- A state inside the head of a document type. -/
inductive IsHead (a : Alphabet) (standalone : Bool) (es : List Event) : Prolog → Prop
  | start : IsHead a standalone es (headed standalone es [] none none .doctypeName)
  | named {n : List Char} (hn : IsPlainName a n) :
      IsHead a standalone es (headed standalone es n none none .doctypeNamed)
  | beforePublic {n : List Char} (hn : IsPlainName a n) :
      IsHead a standalone es (headed standalone es n none none .doctypePublic)
  | beforeSystem {n : List Char} {publicId : Option (List Char)} (hn : IsPlainName a n)
      (hpublic : ∀ value ∈ publicId, ∀ c ∈ value, isPublicChar c) :
      IsHead a standalone es (headed standalone es n publicId none .doctypeSystem)
  | identified {n value : List Char} {publicId : Option (List Char)}
      (hparts : AreParts a n publicId (some value)) :
      IsHead a standalone es (headed standalone es n publicId (some value) .doctypeIdentified)

/-- The event at which a document type with given parts starts. -/
def startEvent (n : List Char) (publicId systemId : Option (List Char)) (hasSubset : Bool) :
    Event :=
  .doctypeStart (String.ofList n) (systemId.map String.ofList) (publicId.map String.ofList)
    hasSubset

/-- The state at the start of the internal subset. -/
def opened (standalone : Bool) (es : List Event) (n : List Char)
    (publicId systemId : Option (List Char)) : Prolog :=
  { headed standalone (startEvent n publicId systemId true :: es) n publicId systemId .subset with
    inSubset := true }

/-- The state behind a document type without an internal subset. -/
def closed (standalone : Bool) (es : List Event) (n : List Char)
    (publicId systemId : Option (List Char)) : Prolog :=
  headed standalone (.doctypeEnd :: startEvent n publicId systemId false :: es) n publicId systemId
    .afterDoctype

/-- A part of the head leads on inside it, into the internal subset, or to its end. -/
theorem partStep_head {a : Alphabet} {standalone : Bool} {es : List Event}
    (hp : IsHead a standalone es p) {raw : List Char} {next : Option Char}
    (ht : Spells a t raw next) (h : partStep m account p t cs = .ok q) :
  IsHead a standalone es q
    ∨ ∃ n publicId systemId, AreParts a n publicId systemId
      ∧ (q = opened standalone es n publicId systemId
        ∨ q = closed standalone es n publicId systemId)
  := by
  cases hp with
  | start =>
      cases ht with
      | name hn hnext =>
          cases h
          exact .inl (.named hn)
      | _ => cases h
  | @named n hn =>
      have hparts : AreParts a n none none := ⟨hn, by simp, by simp, by simp⟩
      cases ht with
      | openBracket =>
          cases h
          exact .inr ⟨n, none, none, hparts, .inl rfl⟩
      | closing =>
          cases h
          exact .inr ⟨n, none, none, hparts, .inr rfl⟩
      | name hword hnext =>
          change (if isWord raw "SYSTEM" then _ else if isWord raw "PUBLIC" then _ else _) = _ at h
          split_ifs at h
          · cases h
            exact .inl (.beforeSystem hn (by simp))
          · cases h
            exact .inl (.beforePublic hn)
          · rw [refuse_eq_ok] at h
            exact h.elim
      | _ => cases h
  | @beforePublic n hn =>
      cases ht with
      | @literal quote value _ hquote hvalue hchars hnext =>
          obtain ⟨_, hcheck, h⟩ := bind_ok h
          obtain ⟨hpublic, _⟩ := checkPublicId_ok hcheck
          cases h
          exact .inl (.beforeSystem hn
            (show ∀ v ∈ some value, ∀ c ∈ v, isPublicChar c by simpa using hpublic))
      | _ => cases h
  | @beforeSystem n publicId hn hpublic =>
      cases ht with
      | @literal quote value _ hquote hvalue hchars hnext =>
          have hparts : AreParts a n publicId (some value) :=
            ⟨hn, hpublic, by simpa using hchars, by simp⟩
          have hq : q = headed standalone es n publicId (some value) .doctypeIdentified := by
            cases h
            simp [headed, partly]
          exact .inl (hq ▸ .identified hparts)
      | _ => cases h
  | @identified n value publicId hparts =>
      cases ht with
      | openBracket =>
          cases h
          exact .inr ⟨n, publicId, some value, hparts, .inl rfl⟩
      | closing =>
          cases h
          exact .inr ⟨n, publicId, some value, hparts, .inr rfl⟩
      | _ => cases h

/-! ### Steps -/

/-- References to parameters stand between the declarations of the internal subset only. -/
theorem partStep_parameter {n : List Char} (h : partStep m account p (.parameter n) cs = .ok q) :
  p.stage = .subset
  := by
  unfold partStep at h
  split at h
  all_goals
    grind [outerStep, doctypeStep, subsetStep, formatStep, attributeStep, elementStep, entityStep]

/-- The opening of a declaration leads into it. -/
theorem partStep_opening {word : List Char} (h : partStep m account p (.opening word) cs = .ok q) :
  q.stage ≠ .subset
  := by
  unfold partStep at h
  split at h
  all_goals
    grind [outerStep, doctypeStep, subsetStep, formatStep, attributeStep, elementStep, entityStep,
      goTo]

/-- A closing bracket ends the internal subset. -/
theorem partStep_closeBracket (h : partStep m account p .closeBracket cs = .ok q) :
  p.stage = .subset ∧ q = { p with stage := .doctypeEnd, inSubset := false }
  := by
  unfold partStep at h
  split at h
  all_goals
    grind [outerStep, doctypeStep, subsetStep, formatStep, attributeStep, elementStep, entityStep]

theorem step_part (ht : t.isPart) (raw : List Char) :
  p.step m account t raw cs
    = (partStep m account p t cs).map fun next =>
        if next.inSubset && p.inSubset then next.keepText raw else next
  := by
  cases t with
  | blank => cases ht
  | comment text => cases ht
  | instruction target text => cases ht
  | _ =>
      unfold step
      cases partStep m account p _ cs <;> rfl

/-- A step is taken for a blank, for a comment or an instruction where they may stand, or for a
part of a document type. -/
theorem step_ok {raw : List Char} (h : p.step m account t raw cs = .ok q) :
  (t = .blank ∧ q = p.leaveBeginning.keepText raw)
    ∨ (∃ text, t = .comment text ∧ allowsAsides p.stage
      ∧ q = p.leaveBeginning.emit (commentEvent text))
    ∨ (∃ target text, t = .instruction target text ∧ allowsAsides p.stage
      ∧ q = p.leaveBeginning.emit (instructionEvent raw target text))
    ∨ ∃ next, t.isPart ∧ partStep m account p t cs = .ok next
      ∧ q = if next.inSubset && p.inSubset then next.keepText raw else next
  := by
  cases hpart : t.isPart with
  | true =>
      rw [step_part hpart] at h
      obtain ⟨next, hnext, rfl⟩ := map_ok h
      exact .inr (.inr (.inr ⟨next, rfl, hnext, rfl⟩))
  | false =>
      cases t with
      | blank =>
          cases h
          exact .inl ⟨rfl, rfl⟩
      | comment text =>
          rw [step] at h
          split_ifs at h with hasides
          · cases h
            exact .inr (.inl ⟨text, rfl, hasides, rfl⟩)
          · rw [refuse_eq_ok] at h
            exact h.elim
      | instruction target text =>
          rw [step] at h
          split_ifs at h with hasides
          · cases h
            exact .inr (.inr (.inl ⟨target, text, rfl, hasides, rfl⟩))
          · rw [refuse_eq_ok] at h
            exact h.elim
      | _ => cases hpart

end Prolog

end Reading

end XmlDraft
