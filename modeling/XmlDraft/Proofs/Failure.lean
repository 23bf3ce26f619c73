import XmlDraft.Proofs.Landing
import XmlDraft.Proofs.Merging
import XmlDraft.Proofs.Reaching

/-!
# Calls that fail

A call can fail before its element is added, and then it does to the document what a call does
that was never made; the bodies of its fragments do not matter.  It can fail in its fragment, and
then the element stays, with its text, its attributes and its namespace, and with what the fragment
added.  Between the two one thing can go wrong, where names are not checked: an attribute whose name
is no text cannot be set on the element, which stays with the attributes in front of that one.
Main statement: nothing else can happen in a state that a session comes to.
-/

namespace XmlDraft

/-! ### Reachable states -/

/-- The states that a session comes to: those of a builder of any document, and further ones
after a step, after a report, after the markup was written, and inside the fragment of a new
element. -/
inductive Run.Reachable : Run → Prop
  | start (d : Document) (settings : Settings) (records : List Log.Record) :
      Reachable ⟨Builder.ofDocument d settings records, []⟩
  | step {r : Run} (frame : Option Frame) (p : Step) :
      Reachable r → Reachable (Run.step r frame p).1
  | report {r : Run} (e : Entry) : Reachable r → Reachable (r.report e)
  | render {r : Run} : Reachable r → Reachable ⟨(r.builder.render false).1, []⟩
  | enter {r inner : Run} {v : Value} {given : List Value} {named : List (String × Value)}
      {b : Builder} {place : Place} {takesBuilder : Bool} :
      Reachable r → r.builder.startElement v given named = (b, .ok (place, .fragment takesBuilder)) →
      Run.enter { r with builder := b } place = .ok inner → Reachable inner

namespace Site

/-- What a call does once its element is begun, said at the site of the fragment. -/
theorem Fits.startElement_ok {s : Site} {opened : List Place} (fits : s.Fits opened) {h : Sheet}
    {v : Value} {given : List Value} {named : List (String × Value)} {b : Builder}
    {place : Place} {sequel : Builder.Sequel}
    (hs : (s.run opened h).builder.startElement v given named = (b, .ok (place, sequel))) :
  ∃ name records element, Builder.tagName s.settings v = .ok name
    ∧ Builder.elementOf s.settings name given named = .ok (element, sequel)
    ∧ place = opened.headD [] ++ [h.children.length]
    ∧ { s.run opened h with builder := b }
        = s.run opened { h with records := records, children := h.children ++ [element] }
  := by
  obtain ⟨records, element, hsite, hplace, hb⟩ := fits.startElement_begun hs
  obtain ⟨name, _, hname, helement, _⟩ := Site.startElement_ok hsite
  exact ⟨name, records, element, hname, helement, hplace, hb⟩

end Site

/-- The states that a session comes to are those that a builder of a document leads to. -/
theorem Run.reachable_iff_leadsTo {r : Run} :
  Run.Reachable r
    ↔ ∃ d settings records, Run.LeadsTo ⟨Builder.ofDocument d settings records, []⟩ r
  := by
  constructor
  · intro h
    induction h with
    | start d settings records => exact ⟨d, settings, records, .refl⟩
    | step frame p _ ih =>
        obtain ⟨d, settings, records, ih⟩ := ih
        exact ⟨d, settings, records, ih.step frame p⟩
    | report e _ ih =>
        obtain ⟨d, settings, records, ih⟩ := ih
        exact ⟨d, settings, records, ih.report e⟩
    | render _ ih =>
        obtain ⟨d, settings, records, ih⟩ := ih
        exact ⟨d, settings, records, ih.render⟩
    | enter _ hs henter ih =>
        obtain ⟨d, settings, records, ih⟩ := ih
        exact ⟨d, settings, records, ih.enter hs henter⟩
  · rintro ⟨d, settings, records, h⟩
    induction h with
    | refl => exact .start d settings records
    | step frame p _ ih => exact ih.step frame p
    | report e _ ih => exact ih.report e
    | render _ ih => exact ih.render
    | enter _ hs henter ih => exact ih.enter hs henter

/-- In a reachable state the open elements fit a site. -/
theorem Run.Reachable.fits {r : Run} (h : Run.Reachable r) :
  ∃ s opened sheet, Site.Fits s opened ∧ r = s.run opened sheet
  := by
  obtain ⟨d, settings, records, h⟩ := Run.reachable_iff_leadsTo.mp h
  have hstart : Site.Holds (fun _ _ _ => True) ⟨Builder.ofDocument d settings records, []⟩ :=
    ⟨Site.top settings, [], ⟨d.declaration, d.children, records, []⟩, Site.top_fits settings, rfl,
      trivial⟩
  obtain ⟨s, opened, sheet, fits, hr, _⟩ := Site.lasts_trivial.holds hstart h
  exact ⟨s, opened, sheet, fits, hr⟩

/-! ### Other bodies -/

namespace Value

/-- The value with another body, if it has one. -/
def withBody (body : List Step) : Value → Value
  | function ps _ => function ps body
  | bound ps given _ => bound ps given body
  | callable ps fields _ isText => callable ps fields body isText
  | v => v

variable (body : List Step) (v : Value)

theorem requireText_withBody (argument : String) :
  (v.withBody body).requireText argument = v.requireText argument
  := by
  cases v with
  | callable ps fields given isText => cases isText <;> rfl
  | _ => rfl

theorem role_withBody :
  (v.withBody body).role = v.role
  := by
  cases v <;> rfl

theorem mention_withBody :
  (v.withBody body).mention = v.mention
  := by
  cases v with
  | callable ps fields given isText => cases isText <;> rfl
  | _ => rfl

theorem fields_withBody :
  (v.withBody body).fields = v.fields
  := by
  cases v <;> rfl

theorem markup_withBody :
  (v.withBody body).markup = v.markup
  := by
  cases v with
  | callable ps fields given isText => cases isText <;> rfl
  | _ => rfl

theorem fieldOf_withBody :
  Builder.fieldOf (v.withBody body) = Builder.fieldOf v
  := by
  cases v with
  | callable ps fields given isText => cases isText <;> rfl
  | _ => rfl

theorem standaloneOf_withBody :
  Builder.standaloneOf (v.withBody body) = Builder.standaloneOf v
  := by
  cases v with
  | callable ps fields given isText => cases isText <;> rfl
  | _ => rfl

end Value

/-- Named values with another body in each. -/
def withBodies (body : List Step) (named : List (String × Value)) : List (String × Value) :=
  named.map (Prod.map id (Value.withBody body))

namespace Arguments

variable (body : List Step)

theorem add_withBody (c : Arguments) (v : Value) :
  c.add (v.withBody body) = c.add v
  := by
  simp only [add, Value.role_withBody, Value.markup_withBody, Value.fields_withBody]

theorem classifyFrom_withBody (c : Arguments) (given : List Value) :
  classifyFrom c (given.map (Value.withBody body)) = classifyFrom c given
  := by
  induction given generalizing c with
  | nil => rfl
  | cons v vs ih =>
      simp only [List.map_cons, classifyFrom, add_withBody, ih]

theorem warnings_withBody (given : List Value) :
  warnings (given.map (Value.withBody body)) = warnings given
  := by
  induction given with
  | nil => rfl
  | cons v vs ih =>
      simp only [List.map_cons, warnings, add_withBody, Value.role_withBody,
        Value.mention_withBody, ih]

end Arguments

theorem Prepared.ofFields_withBodies (body : List Step) (checked : Bool)
    (fields : List (String × Value)) :
  ofFields checked (FieldName.ofTexts (withBodies body fields))
    = ofFields checked (FieldName.ofTexts fields)
  := by
  have hone (name : FieldName) (v : Value) :
      one checked name (v.withBody body) = one checked name v := by
    cases v with
    | callable ps fields given isText => cases isText <;> rfl
    | _ => rfl
  induction fields with
  | nil => rfl
  | cons field rest ih =>
      simp only [FieldName.ofTexts, withBodies, List.map_cons, Prod.map, id, ofFields, hone] at ih ⊢
      rw [ih]

namespace Builder

variable (body : List Step)

theorem elementOf_withBody (settings : Settings) (name : Wording) (given : List Value)
    (named : List (String × Value)) :
  elementOf settings name (given.map (Value.withBody body)) (withBodies body named)
    = elementOf settings name given named
  := by
  simp only [elementOf, Arguments.classify, Arguments.classifyFrom_withBody]
  cases Arguments.classifyFrom {} given with
  | error f => rfl
  | ok c =>
      cases named with
      | nil => rfl
      | cons field rest =>
          have h := Prepared.ofFields_withBodies body settings.checkNames.counts (field :: rest)
          simp only [withBodies, List.map_cons] at h ⊢
          simp only [Except.map, bind, Except.bind, Arguments.withNamed, List.isEmpty_cons,
            Bool.false_eq_true, ite_false, Option.getD_some, h]

theorem startElement_withBody (b : Builder) (v : Value) (given : List Value)
    (named : List (String × Value)) :
  b.startElement (v.withBody body) (given.map (Value.withBody body)) (withBodies body named)
    = b.startElement v given named
  := by
  simp only [startElement, tagName, Value.requireText_withBody, Arguments.warnings_withBody,
    elementOf_withBody]

theorem elementCall?_withBody (b : Builder) (name : String) (arguments : List Value) :
  b.elementCall? name (arguments.map (Value.withBody body))
    = (b.elementCall? name arguments).map
        (Prod.map (Value.withBody body) (List.map (Value.withBody body)))
  := by
  unfold elementCall?
  cases Member.ofName name with
  | operation o =>
      cases o with
      | tag => cases arguments <;> rfl
      | _ => rfl
  | encoding => dsimp only; split_ifs <;> rfl
  | _ => rfl

end Builder

theorem Operation.bind_withBody (body : List Step) (o : Operation) (arguments : List Value)
    (named : List (String × Value)) :
  o.bind (arguments.map (Value.withBody body)) (withBodies body named)
    = (o.bind arguments named).map (List.map (Value.withBody body))
  := by
  have hlookup (p : String) :
      (withBodies body named).lookup p = (named.lookup p).map (Value.withBody body) := by
    induction named with
    | nil => rfl
    | cons field rest ih =>
        obtain ⟨name, v⟩ := field
        simp only [withBodies, List.map_cons, Prod.map, id, List.lookup_cons] at ih ⊢
        cases p == name <;> simp [ih]
  have hdefault : (fun p => ((withBodies body named).lookup p).getD .none)
      = fun p => Value.withBody body ((named.lookup p).getD .none) := by
    funext p
    rw [hlookup]
    cases named.lookup p <;> rfl
  have hnone (p : String) :
      ((withBodies body named).lookup p).isNone = (named.lookup p).isNone := by
    rw [hlookup, Option.isNone_map]
  have hany (f : String → Bool) : (withBodies body named).any (fun a => f a.1)
      = named.any (fun a => f a.1) := List.any_map
  simp only [bind, List.length_map, hnone, hdefault]
  rw [hany fun a => decide (a ∈ o.places.take arguments.length) || decide (a ∉ o.places)]
  split_ifs
  · rfl
  · rfl
  · rfl
  · simp only [Except.map, List.map_append, List.map_map]
    rfl

theorem Run.operate_withBody (body : List Step) (r : Run) (o : Operation) (values : List Value) :
  r.operate o (values.map (Value.withBody body)) = r.operate o values
  := by
  cases o with
  | tag => rfl
  | comment =>
      rcases values with _ | ⟨v, _ | ⟨w, rest⟩⟩
      · rfl
      · simp only [List.map_cons, List.map_nil, operate, Builder.addComment,
          Value.requireText_withBody]
      · rfl
  | cdata =>
      rcases values with _ | ⟨v, _ | ⟨w, rest⟩⟩
      · rfl
      · simp only [List.map_cons, List.map_nil, operate, Builder.addCData,
          Value.requireText_withBody]
      · rfl
  | text =>
      rcases values with _ | ⟨v, _ | ⟨w, rest⟩⟩
      · rfl
      · simp only [List.map_cons, List.map_nil, operate, Builder.addText,
          Value.requireText_withBody]
      · rfl
  | declaration =>
      rcases values with _ | ⟨version, _ | ⟨encoding, _ | ⟨standalone, _ | ⟨v, rest⟩⟩⟩⟩
      · rfl
      · rfl
      · rfl
      · simp only [List.map_cons, List.map_nil, operate, Builder.setDeclaration,
          Value.fieldOf_withBody, Value.standaloneOf_withBody]
      · rfl
  | doctype =>
      rcases values with _ | ⟨name, _ | ⟨publicId, _ | ⟨systemId, _ | ⟨subset, _ | ⟨v, rest⟩⟩⟩⟩⟩
      · rfl
      · rfl
      · rfl
      · rfl
      · simp only [List.map_cons, List.map_nil, operate, Builder.addDoctype,
          Value.requireText_withBody, Value.fieldOf_withBody]
      · rfl

theorem Run.callOther_withBody (body : List Step) (r : Run) (name : String)
    (arguments : List Value) (named : List (String × Value)) :
  r.callOther name (arguments.map (Value.withBody body)) (withBodies body named)
    = r.callOther name arguments named
  := by
  unfold callOther
  cases Member.ofName name with
  | operation o =>
      simp only [Operation.bind_withBody]
      cases o.bind arguments named with
      | error f => rfl
      | ok values => exact operate_withBody body r o values
  | _ => rfl

/-! ### Failures -/

namespace Run

theorem change_error {r : Run} {b : Except Fault Builder} {f : Fault}
    (h : (r.change b).2 = .error f) :
  (r.change b).1 = r
  := by
  cases b with
  | error g => rfl
  | ok b => cases h

theorem operate_error {r : Run} {o : Operation} {values : List Value} {f : Fault}
    (h : (r.operate o values).2 = .error f) :
  (r.operate o values).1 = r
  := by
  revert h
  unfold operate
  split
  · exact change_error
  · exact change_error
  · exact change_error
  · exact change_error
  · exact change_error
  · exact fun _ => rfl

theorem callOther_error {r : Run} {name : String} {arguments : List Value}
    {named : List (String × Value)} {f : Fault}
    (h : (r.callOther name arguments named).2 = .error f) :
  (r.callOther name arguments named).1 = r
  := by
  revert h
  unfold callOther
  split
  · split
    · exact operate_error
    · exact fun _ => rfl
  · exact fun _ => rfl
  · exact fun _ => rfl

/-- A call that failed before any fragment ran: the document and the open elements are those of
before, nothing was reported, and all would have been the same with other bodies. -/
structure FailsBefore (r : Run) (frame : Option Frame) (name : String) (arguments : List Value)
    (named : List (String × Value)) : Prop where
  draft : (step r frame (.call name arguments named)).1.builder.draft = r.builder.draft
  entries : (step r frame (.call name arguments named)).1.entries = r.entries
  bodies : ∀ body,
    step r frame (.call name (arguments.map (Value.withBody body)) (withBodies body named))
      = step r frame (.call name arguments named)

/-- An element of a tag with a text, unless it is empty, on which a bag of attributes landed. -/
def IsMadeOf (element : Node) (tag : Wording) (text : Option String)
    (bag : List (FieldName × Value)) : Prop :=
  ∃ q name attributes, q.localPart = tag.text ∧ q.member = tag.member ∧ q.space = none
    ∧ Lands bag q (name, attributes)
    ∧ element = .element name attributes ((text.filter fun t => t ≠ "").toList.map Node.text)

/-- The element that a call adds: it has the tag of the call, the text that the arguments behind the
tag say, and of the bag that they say what was copied of it. -/
def Adds (r : Run) (name : String) (arguments : List Value) (named : List (String × Value))
    (given : List Value) (bag copied : List (FieldName × Value)) (element : Node) : Prop :=
  ∃ v tag text, r.builder.elementCall? name arguments = some (v, given)
    ∧ Builder.tagName r.builder.settings v = .ok tag
    ∧ Arguments.Say given named text bag ∧ IsMadeOf element tag text copied

/-- Whether an attribute can be set: one without a value is passed over, and the name of any other
must be a text. -/
def canBeSet (field : FieldName × Value) : Bool :=
  !Value.hasValue field || field.1.text?.isSome

/-- A call that failed on an attribute that cannot be set, which can be only where names are not
checked: its element was added with the attributes in front of that one; nothing else became
different, nothing was reported, and all would have been the same with other bodies. -/
structure FailsCopying (r : Run) (frame : Option Frame) (name : String) (arguments : List Value)
    (named : List (String × Value)) (f : Fault) (element : Node) : Prop where
  built : ∃ given before field after,
    r.Adds name arguments named given (before ++ field :: after) before element
      ∧ before.all canBeSet ∧ canBeSet field = false
  unchecked : r.builder.settings.checkNames.counts = false
  cause : f = .attributeNotText
  document : (step r frame (.call name arguments named)).1.builder.draft.document
    = { r.builder.draft.document with
        children := Node.appendAt element r.builder.draft.current r.builder.draft.document.children }
  opened : (step r frame (.call name arguments named)).1.builder.draft.opened
    = r.builder.draft.opened
  entries : (step r frame (.call name arguments named)).1.entries = r.entries
  bodies : ∀ body,
    step r frame (.call name (arguments.map (Value.withBody body)) (withBodies body named))
      = step r frame (.call name arguments named)

/-- A call whose fragment failed: an element with all its attributes was attached and opened before
the fragment ran, the last one among the arguments, which took the state `inner` to the state
`ended`; after the call the element is closed, and the document is the one of before with the
element, behind whose own children stands what the fragment added. -/
structure FailsInside (r : Run) (frame : Option Frame) (name : String) (arguments : List Value)
    (named : List (String × Value)) (f : Fault) (element : Node) (inner ended : Run)
    (added : List Node) : Prop where
  built : ∃ given bag fragment takesBuilder, r.Adds name arguments named given bag bag element
    ∧ bag.all canBeSet
    ∧ lastFragment? given = some (fragment, takesBuilder)
    ∧ invoke inner takesBuilder fragment = (ended, .error f)
  attached : inner.builder.draft.document = { r.builder.draft.document with
    children := Node.appendAt element r.builder.draft.current r.builder.draft.document.children }
  entered : inner.builder.draft.opened = r.builder.draft.nextPlace :: r.builder.draft.opened
  grown : ended.builder.draft.document.children
    = Node.appendAt (element.withChildren (element.children ++ added)) r.builder.draft.current
        r.builder.draft.document.children
  document : (step r frame (.call name arguments named)).1.builder.draft.document
    = ended.builder.draft.document
  opened : (step r frame (.call name arguments named)).1.builder.draft.opened
    = r.builder.draft.opened

/-! ### Failed calls -/

/-- Attributes that can be set are set one after another. -/
theorem copy_of_canBeSet {bag : List (FieldName × Value)} (h : bag.all canBeSet)
    (e : QName × Attributes) :
  Prepared.copy (bag.map Prepared.ofField) e.1 e.2
    = ((bag.map Prepared.ofField).foldl Prepared.applied e, .ok ())
  := by
  apply Prepared.copy_eq
  intro p hp hvalue
  obtain ⟨field, hfield, rfl⟩ := List.mem_map.mp hp
  have hset := List.all_eq_true.mp h field hfield
  rw [canBeSet, Bool.or_eq_true, Bool.not_eq_true'] at hset
  refine hset.resolve_left fun hnone => ?_
  simp [Prepared.ofField, hnone] at hvalue

theorem isMadeOf_newElement {tag : Wording} {q : QName}
    (hq : QName.of? tag.text none tag.member = some q) (text : Option String)
    {bag : List (FieldName × Value)}
    (htexts : ∀ field ∈ bag, Value.hasValue field → field.2.markup.isOk) {ps : Prepared}
    (hps : ps.apply q [] = (bag.map Prepared.ofField).foldl Prepared.applied (q, [])) :
  IsMadeOf (Builder.newElement q text ps) tag text bag
  := by
  unfold QName.of? at hq
  split_ifs at hq with hne
  cases hq
  refine ⟨⟨tag.text, none, hne, tag.member⟩, _, _, rfl, rfl, rfl,
    Prepared.lands_applied htexts rfl, ?_⟩
  rw [Builder.newElement, hps, Option.toList_map]
  rfl

/-- What the arguments of a call make: the whole element, and then its fragment is to be run, if
there is one; or the element up to an attribute that cannot be set. -/
theorem elementOf_cases {settings : Settings} {tag : Wording} {given : List Value}
    {named : List (String × Value)} {element : Node} {sequel : Builder.Sequel}
    (h : Builder.elementOf settings tag given named = .ok (element, sequel)) :
  ∃ text bag, Arguments.Say given named text bag
    ∧ ((bag.all canBeSet ∧ IsMadeOf element tag text bag
        ∧ sequel = .of (.ok ()) ((lastFragment? given).map Prod.snd))
      ∨ (settings.checkNames.counts = false ∧ sequel = .failure .attributeNotText
        ∧ ∃ before field after, bag = before ++ field :: after ∧ before.all canBeSet
          ∧ canBeSet field = false ∧ IsMadeOf element tag text before))
  := by
  obtain ⟨classified, prepared, q, hclassified, hprepared, hq, rfl, rfl⟩ := Builder.elementOf_ok h
  obtain ⟨rfl, htexts, hnames⟩ := Prepared.ofFields_ok hprepared
  refine ⟨classified.content, _, Arguments.classify_say hclassified, ?_⟩
  generalize classified.attributes.getD [] = bag at htexts hnames
  rw [← Arguments.fragment_classify hclassified]
  cases hfind : bag.find? fun field => !canBeSet field with
  | none =>
      have hset : bag.all canBeSet := by
        rw [List.find?_eq_none] at hfind
        simpa using hfind
      have hcopy := copy_of_canBeSet hset (q, [])
      refine .inl ⟨hset, isMadeOf_newElement hq _ htexts (by rw [Prepared.apply, hcopy]), ?_⟩
      rw [hcopy]
  | some field =>
      obtain ⟨hfield, before, after, rfl, hbefore⟩ := List.find?_eq_some_iff_append.mp hfind
      have hset : before.all canBeSet := by simpa using hbefore
      have hnot : canBeSet field = false := by simpa using hfield
      obtain ⟨hvalue, hname⟩ : Value.hasValue field ∧ field.1.text? = none := by
        simpa [canBeSet] using hnot
      rw [List.forall_mem_append, List.forall_mem_cons] at htexts
      obtain ⟨s, hs⟩ := Reading.exists_of_isOk (htexts.2.1 hvalue)
      have hcopy : Prepared.copy ((before ++ field :: after).map Prepared.ofField) q []
          = ((before.map Prepared.ofField).foldl Prepared.applied (q, []),
            .error .attributeNotText) := by
        rw [List.map_append, List.map_cons, Prepared.copy_append (copy_of_canBeSet hset (q, []))]
        refine Prepared.copy_error ?_ hname _ _
        simp [Prepared.ofField, hvalue, hs, Except.toOption]
      refine .inr ⟨?_, by rw [hcopy]; rfl, before, field, after, rfl, hset, hnot,
        isMadeOf_newElement hq _ htexts.1 (by rw [Prepared.apply, hcopy])⟩
      cases hchecks : settings.checkNames.counts with
      | false => rfl
      | true =>
          have hchecked := hnames hchecks field (by simp)
          simp [hname] at hchecked

/-- The fragment that a call runs stands behind what names its element. -/
theorem lastFragment?_of_elementCall? {b : Builder} {name : String} {arguments given : List Value}
    {v : Value} (h : b.elementCall? name arguments = some (v, given)) {found : Value × Bool}
    (hfound : lastFragment? given = some found) :
  lastFragment? arguments = some found
  := by
  unfold Builder.elementCall? at h
  split at h
  · cases h
    exact hfound
  · split_ifs at h
    cases h
    exact hfound
  · cases arguments with
    | nil => cases h
    | cons w rest =>
        cases h
        rw [lastFragment?_cons, hfound, Option.some_or]
  · cases h

section

open Site

variable {s : Site} {opened : List Place} (fits : s.Fits opened) {h : Sheet}
    {frame : Option Frame} {name : String} {arguments : List Value}
    {named : List (String × Value)} {v : Value} {given : List Value}
    {b : Builder} {f g : Fault}

/-- A fragment that is to be run behind a new element is the last one among the arguments. -/
theorem exists_lastFragment {takesBuilder : Bool}
    (h : Builder.Sequel.fragment takesBuilder
      = .of (.ok ()) ((lastFragment? given).map Prod.snd)) :
  ∃ last, lastFragment? given = some (last, takesBuilder)
  := by
  cases hlast : lastFragment? given with
  | none => simp [hlast, Builder.Sequel.of] at h
  | some found =>
      obtain ⟨last, called⟩ := found
      obtain rfl : takesBuilder = called := by simpa [hlast, Builder.Sequel.of] using h
      exact ⟨last, rfl⟩

/-- A call that builds an element does what is to be done once the element was started. -/
theorem step_element {r : Run} {started : Builder × Except Fault (Place × Builder.Sequel)}
    (hcall : r.builder.elementCall? name arguments = some (v, given))
    (hs : r.builder.startElement v given named = started) :
  step r frame (.call name arguments named) = r.callElement arguments started
  := by
  rw [step_call, hcall, ← hs]

/-- With other bodies of its fragments it starts the element in the same way. -/
theorem step_element_withBody {r : Run} {started : Builder × Except Fault (Place × Builder.Sequel)}
    (hcall : r.builder.elementCall? name arguments = some (v, given))
    (hs : r.builder.startElement v given named = started) (body : List Step) :
  step r frame (.call name (arguments.map (Value.withBody body)) (withBodies body named))
    = r.callElement (arguments.map (Value.withBody body)) started
  := by
  refine step_element ?_ ((r.builder.startElement_withBody body v given named).trans hs)
  rw [Builder.elementCall?_withBody, hcall]
  rfl

theorem failsBefore_of_callOther {r : Run} (hcall : r.builder.elementCall? name arguments = none)
    (hf : (step r frame (.call name arguments named)).2 = .error f) :
  r.FailsBefore frame name arguments named
  := by
  rw [step_call, hcall] at hf
  have hsame := callOther_error hf
  constructor
  · rw [step_call, hcall, hsame]
  · rw [step_call, hcall, hsame]
  · intro body
    rw [step_call, step_call, Builder.elementCall?_withBody, hcall]
    exact callOther_withBody body r name arguments named

include fits

theorem failsBefore_of_startElement
    (hcall : (s.run opened h).builder.elementCall? name arguments = some (v, given))
    (hs : (s.run opened h).builder.startElement v given named = (b, .error g)) :
  (s.run opened h).FailsBefore frame name arguments named
  := by
  have hb := fits.startElement_fails hs
  constructor
  · rw [step_element hcall hs, callElement, hb]
  · rw [step_element hcall hs, callElement]
  · intro body
    rw [step_element hcall hs, step_element_withBody hcall hs, callElement, callElement]

theorem failsCopying_of_failure {place : Place}
    (hcall : (s.run opened h).builder.elementCall? name arguments = some (v, given))
    (hs : (s.run opened h).builder.startElement v given named = (b, .ok (place, .failure g)))
    (hf : (step (s.run opened h) frame (.call name arguments named)).2 = .error f) :
  ∃ element, (s.run opened h).FailsCopying frame name arguments named f element
  := by
  obtain ⟨tag, records, element, htag, helement, rfl, hb⟩ := fits.startElement_ok hs
  obtain ⟨text, bag, hsay, ⟨-, -, hsequel⟩ | ⟨hchecks, hsequel, before, field, after, rfl, hset, hnot,
    hmade⟩⟩ := elementOf_cases helement
  · cases hlast : lastFragment? given <;> simp [hlast, Builder.Sequel.of] at hsequel
  · have hstep : step (s.run opened h) frame (.call name arguments named)
        = ({ s.run opened h with builder := b }, .error g) := by
      rw [step_element hcall hs, callElement]
    rw [hstep] at hf
    cases hf
    cases hsequel
    refine ⟨element, ⟨given, before, field, after, ⟨v, tag, text, hcall, htag, hsay, hmade⟩, hset,
      hnot⟩, hchecks, rfl, ?_, ?_, ?_, ?_⟩
    · have hat := fits.appendAt element h.children
      rw [hstep, hb]
      exact congrArg (Document.mk h.declaration) hat.symm
    · rw [hstep, hb]
      rfl
    · rw [hstep]
    · intro body
      rw [step_element hcall hs, step_element_withBody hcall hs, callElement, callElement]

theorem failsInside_of_fragment {place : Place} {takesBuilder : Bool}
    (hcall : (s.run opened h).builder.elementCall? name arguments = some (v, given))
    (hs : (s.run opened h).builder.startElement v given named
      = (b, .ok (place, .fragment takesBuilder)))
    (hf : (step (s.run opened h) frame (.call name arguments named)).2 = .error f) :
  ∃ element inner ended added,
    (s.run opened h).FailsInside frame name arguments named f element inner ended added
  := by
  obtain ⟨tag, records, element, htag, helement, rfl, hb⟩ := fits.startElement_ok hs
  have he := Builder.isElement_of_elementOf helement
  obtain ⟨text, bag, hsay, ⟨hset, hmade, hsequel⟩ | ⟨-, hsequel, -⟩⟩ := elementOf_cases helement
  · obtain ⟨last, hlast⟩ := exists_lastFragment hsequel
    let start : Sheet := { h with records := records, children := element.children }
    let fragment := (s.inside h.children element).runLast start takesBuilder arguments
    let inner := (s.inside h.children element).run
      ((opened.headD [] ++ [h.children.length]) :: opened) start
    let ended := (s.inside h.children element).run
      ((opened.headD [] ++ [h.children.length]) :: opened) fragment.1
    have henter : enter { s.run opened h with builder := b }
        (opened.headD [] ++ [h.children.length]) = .ok inner := by
      rw [hb]
      exact enter_run s opened { h with records := records } element
    have hrun : runLast inner takesBuilder arguments = (ended, fragment.2) :=
      (fits.inside h.children he).runLast start takesBuilder arguments
    have hstep : step (s.run opened h) frame (.call name arguments named)
        = (ended.leave, fragment.2) := by
      rw [step_element hcall hs]
      simp only [callElement, henter, hrun]
    obtain ⟨added, hadded⟩ := kept_growth.runLast (s.inside h.children element) start
      takesBuilder arguments
    rw [hstep] at hf
    refine ⟨element, inner, ended, added, ?_⟩
    constructor
    · refine ⟨given, bag, last, takesBuilder, ⟨v, tag, text, hcall, htag, hsay, hmade⟩, hset, hlast,
        ?_⟩
      rw [← runLast_eq (lastFragment?_of_elementCall? hcall hlast) inner takesBuilder, hrun]
      exact congrArg (Prod.mk ended) hf
    · have hat := fits.appendAt element h.children
      have hwhole : inner.builder.draft.document
          = ⟨h.declaration, s.around (h.children ++ [element.withChildren element.children])⟩ :=
        rfl
      rw [hwhole, Node.withChildren_children, ← hat]
      rfl
    · exact congrArg (· :: opened) (fits.nextPlace h).symm
    · have hat := fits.appendAt (element.withChildren (element.children ++ added)) h.children
      exact (congrArg (fun children => s.around (h.children ++ [element.withChildren children]))
        hadded.symm).trans hat.symm
    · rw [hstep]
      rfl
    · rw [hstep]
      rfl
  · cases hsequel

end

end Run

open Run Site in
/-- What a call that fails leaves behind.  In every state that a session comes to, it failed before
its element was added and then did nothing, or its fragment failed inside the new element, which had
been added with its text and all its attributes; or, where names are not checked, it failed on an
attribute whose name is no text, and the element stays with its text and the attributes in front of
that one. -/
theorem failed_calls (r : Run) (hr : r.Reachable) (frame : Option Frame) (name : String)
    (arguments : List Value) (named : List (String × Value)) (f : Fault)
    (hf : (step r frame (.call name arguments named)).2 = .error f) :
  r.FailsBefore frame name arguments named
    ∨ (∃ element, r.FailsCopying frame name arguments named f element)
    ∨ ∃ element inner ended added,
        r.FailsInside frame name arguments named f element inner ended added
  := by
  obtain ⟨s, opened, h, fits, rfl⟩ := hr.fits
  cases hcall : (s.run opened h).builder.elementCall? name arguments with
  | none => exact .inl (failsBefore_of_callOther hcall hf)
  | some found =>
      obtain ⟨v, given⟩ := found
      rcases hs : (s.run opened h).builder.startElement v given named
        with ⟨b, g | ⟨place, _ | takesBuilder | g⟩⟩
      · exact .inl (failsBefore_of_startElement fits hcall hs)
      · rw [step_element hcall hs, callElement] at hf
        cases hf
      · exact .inr (.inr (failsInside_of_fragment fits hcall hs hf))
      · exact .inr (.inl (failsCopying_of_failure fits hcall hs hf))

/-- A fragment that adds a comment and then raises, in an element with a text and an attribute. -/
theorem failed_call_of_raise :
  let r : Run := ⟨Builder.ofDocument {} {} [], []⟩
  let fragment : Value := .function [] [.call "Comment" [.str "begun"] [], .raise "no more"]
  let arguments : List Value := [.str "a", .str "text", .mapping [(.str "x", .int 1)], fragment]
  ∃ f, (Run.step r none (.call "Tag" arguments [])).2 = .error f
    ∧ (r.FailsBefore none "Tag" arguments []
      ∨ (∃ element, r.FailsCopying none "Tag" arguments [] f element)
      ∨ ∃ element inner ended added,
          r.FailsInside none "Tag" arguments [] f element inner ended added)
  := by
  intro r fragment arguments
  have hfails : (Run.step r none (.call "Tag" arguments [])).2.toOption.isNone := by
    decide +kernel
  cases hf : (Run.step r none (.call "Tag" arguments [])).2 with
  | ok u =>
      rw [hf] at hfails
      cases hfails
  | error f => exact ⟨f, rfl, failed_calls r (.start {} {} []) none "Tag" arguments [] f hf⟩

/-- A tag whose bag has a name that is no text, between two others, where names are not checked: the
call fails, no fragment has run, and the element is there with the first attribute. -/
theorem failed_call_leaves_element :
  let r : Run := ⟨Builder.ofDocument {} { checkNames := .bool false } [], []⟩
  let bag : Value := .row [(.text "x", .str "1"), (.other none, .str "2"), (.text "y", .str "3")]
  let arguments : List Value := [.str "a", bag, .function [] [.call "Comment" [.str "begun"] []]]
  let after := Run.step r none (.call "Tag" arguments [])
  after.2 = .error .attributeNotText
    ∧ after.1.builder.draft.document
      = ⟨none, [.element ⟨"a", none, by decide, none⟩ [("x", "1")] []]⟩
    ∧ after.1.builder.draft.document.children ≠ r.builder.draft.document.children
  := ⟨rfl, rfl, nofun⟩

end XmlDraft
