import XmlDraft.Proofs.Calling
import XmlDraft.Proofs.Legible
import XmlDraft.Proofs.Lexical

/-!
# What every step keeps

A relation between what stands at a site before and after steps holds across all steps if it
holds across the operations, across the new elements, and across a fragment when it holds
across the steps in it.  Main statement: so it does, and steps only add to the children at
their site.
-/

namespace XmlDraft

namespace Site

/-- What the beginning of an element says when it succeeds. -/
theorem startElement_ok {s : Site} {h h' : Sheet} {v : Value} {given : List Value}
    {named : List (String × Value)} {element : Node} {sequel : Builder.Sequel}
    (hs : s.startElement h v given named = (h', .ok (element, sequel))) :
  ∃ name records, Builder.tagName s.settings v = .ok name
    ∧ Builder.elementOf s.settings name given named = .ok (element, sequel)
    ∧ s.misplacement? h element = none ∧ h' = { h with records := records }
  := by
  unfold startElement at hs
  split at hs
  · cases hs
  · rename_i name hname
    dsimp only at hs
    split at hs
    · cases hs
    · rename_i found helement
      split at hs
      · cases hs
      · rename_i hm
        cases hs
        exact ⟨name, _, hname, helement, hm, rfl⟩

/-- An element that cannot begin leaves records at most, and is not recorded as created. -/
theorem startElement_error {s : Site} {h h' : Sheet} {v : Value} {given : List Value}
    {named : List (String × Value)} {f : Fault}
    (hs : s.startElement h v given named = (h', .error f)) :
  ∃ records, h' = { h with records := records } ∧ Log.creations records = Log.creations h.records
  := by
  have hwarn := (s.builder h).warn_creations (Arguments.warnings given)
  unfold startElement at hs
  split at hs
  · cases hs
    exact ⟨_, rfl, rfl⟩
  · dsimp only at hs
    split at hs
    · cases hs
      exact ⟨_, rfl, hwarn⟩
    · split at hs
      · cases hs
        exact ⟨_, rfl, hwarn⟩
      · cases hs

/-- A relation that holds across the steps at a site, given what the steps consist of. -/
structure Kept (R : Site → Sheet → Sheet → Prop) : Prop where
  same {s : Site} {h after : Sheet} : after.children = h.children →
    after.declaration = h.declaration →
    Log.creations after.records = Log.creations h.records → R s h after
  trans {s : Site} {h between after : Sheet} : R s h between → R s between after → R s h after
  operate (s : Site) (h : Sheet) (o : Operation) (values : List Value) :
    R s h (s.operate h o values).1
  element {s : Site} {h : Sheet} {records : List Log.Record} {v : Value} {given : List Value}
    {named : List (String × Value)} {element : Node} {sequel : Builder.Sequel} :
    s.startElement h v given named = ({ h with records := records }, .ok (element, sequel)) →
    R s h { h with records := records, children := h.children ++ [element] }
  fragment {s : Site} {h inner : Sheet} {records : List Log.Record} {v : Value}
    {given : List Value} {named : List (String × Value)} {element : Node} {takesBuilder : Bool} :
    s.startElement h v given named
      = ({ h with records := records }, .ok (element, .fragment takesBuilder)) →
    R (s.inside h.children element) { h with records := records, children := element.children }
      inner →
    R s h { inner with children := h.children ++ [element.withChildren inner.children] }

namespace Kept

variable {R : Site → Sheet → Sheet → Prop} (kept : Kept R)

include kept

theorem refl (s : Site) (h : Sheet) :
  R s h h
  := kept.same rfl rfl rfl

theorem operateNamed (s : Site) (h : Sheet) (name : String) (arguments : List Value)
    (named : List (String × Value)) :
  R s h (s.operateNamed h name arguments named).1
  := by
  unfold Site.operateNamed
  split
  · split
    · apply kept.operate
    · exact kept.refl s h
  · exact kept.refl s h
  · exact kept.refl s h

theorem guarded {s : Site} {h : Sheet} {after : Sheet × Except Fault Unit} {p : Prop}
    [Decidable p] (ha : R s h after.1) :
  R s h (if p then after else (h, .error .badCall)).1
  := by
  split_ifs
  · exact ha
  · exact kept.refl s h

end Kept

mutual

theorem Kept.step {R : Site → Sheet → Sheet → Prop} (kept : Kept R) (s : Site) (h : Sheet)
    (frame : Option Frame) (p : Step) :
  R s h (s.step h frame p).1
  := by
  cases p with
  | call name arguments named =>
      rw [Site.step]
      cases (s.builder h).elementCall? name arguments with
      | none => exact kept.operateNamed s h name arguments named
      | some found =>
          obtain ⟨v, given⟩ := found
          dsimp only
          rcases hs : s.startElement h v given named with ⟨h', f | ⟨element, sequel⟩⟩
          · obtain ⟨records, rfl, hcreations⟩ := startElement_error hs
            exact kept.same rfl rfl hcreations
          · obtain ⟨_, records, _, _, _, rfl⟩ := startElement_ok hs
            cases sequel with
            | fragment takesBuilder =>
                exact kept.fragment hs (kept.runLast _ _ takesBuilder arguments)
            | _ => exact kept.element hs
  | has name => exact kept.same rfl rfl rfl
  | view name => exact kept.same rfl rfl (Run.look_creations ⟨s.builder h, []⟩ name)
  | depth => exact kept.same rfl rfl rfl
  | attempt steps => exact kept.attempt s h frame steps
  | raise message => exact kept.refl s h
  | interrupt => exact kept.refl s h
  | arguments =>
      cases frame with
      | none => exact kept.refl s h
      | some f => exact kept.same rfl rfl rfl

theorem Kept.steps {R : Site → Sheet → Sheet → Prop} (kept : Kept R) (s : Site) (h : Sheet)
    (frame : Option Frame) (ps : List Step) :
  R s h (s.steps h frame ps).1
  := by
  cases ps with
  | nil => exact kept.refl s h
  | cons p ps =>
      have hp := kept.step s h frame p
      rw [Site.steps]
      rcases hs : s.step h frame p with ⟨after, f | u⟩ <;> rw [hs] at hp
      · exact hp
      · exact kept.trans hp (kept.steps s after frame ps)

theorem Kept.attempt {R : Site → Sheet → Sheet → Prop} (kept : Kept R) (s : Site) (h : Sheet)
    (frame : Option Frame) (ps : List Step) :
  R s h (s.attempt h frame ps)
  := by
  cases ps with
  | nil => exact kept.refl s h
  | cons p ps =>
      have hp := kept.step s h frame p
      rw [Site.attempt]
      rcases hs : s.step h frame p with ⟨after, f | u⟩ <;> rw [hs] at hp
      · have hreport : R s after (after.report (.fault f)) := kept.same rfl rfl rfl
        exact kept.trans (kept.trans hp hreport) (kept.attempt s (after.report (.fault f)) frame ps)
      · exact kept.trans hp (kept.attempt s after frame ps)

theorem Kept.runLast {R : Site → Sheet → Sheet → Prop} (kept : Kept R) (s : Site) (h : Sheet)
    (takesBuilder : Bool) (vs : List Value) :
  R s h (s.runLast h takesBuilder vs).1
  := by
  cases vs with
  | nil => exact kept.refl s h
  | cons v vs =>
      rw [Site.runLast]
      split_ifs
      · exact kept.runLast s h takesBuilder vs
      · exact kept.invoke s h takesBuilder v

theorem Kept.invoke {R : Site → Sheet → Sheet → Prop} (kept : Kept R) (s : Site) (h : Sheet)
    (takesBuilder : Bool) (v : Value) :
  R s h (s.invoke h takesBuilder v).1
  := by
  cases v with
  | function ps body => exact kept.guarded (kept.steps s h _ body)
  | bound ps given body => exact kept.guarded (kept.steps s h _ body)
  | callable ps fields body isText => exact kept.guarded (kept.steps s h _ body)
  | _ => exact kept.refl s h

end

/-- A relation that holds across every step holds across a session. -/
theorem Kept.session {R : Site → Sheet → Sheet → Prop} (kept : Kept R) (s : Site) (h : Sheet)
    (ps : List Step) :
  R s h (s.session h ps).1
  := by
  induction ps generalizing h with
  | nil => exact kept.refl s h
  | cons p ps ih =>
      have hbefore : R s h { h with entries := [] } := kept.same rfl rfl rfl
      have hstep := kept.step s { h with entries := [] } none p
      let after := (s.step { h with entries := [] } none p).1
      let written := { after with records := ((s.builder after).render false).1.records }
      have hwritten : R s after written :=
        kept.same rfl rfl ((Builder.looks_render false).creations (s.builder after))
      have hrest : R s written (s.session h (p :: ps)).1 := ih written
      exact kept.trans hbefore (kept.trans hstep (kept.trans hwritten hrest))

/-! ### Operations -/

theorem change_cases (h : Sheet) (r : Except Fault Sheet) :
  (h.change r).1 = h ∨ r = .ok (h.change r).1
  := by
  cases r with
  | error f => exact .inl rfl
  | ok after => exact .inr rfl

theorem requireText_ne {v : Value} {argument : String} {w : Wording}
    (h : v.requireText argument = .ok w) :
  w.text ≠ ""
  := by
  unfold Value.requireText at h
  split at h
  · cases h
  · split_ifs at h with hs
    cases h
    exact hs
  · cases h

theorem check_ok {name checked : Wording} {argument : String}
    (h : Name.check name argument = .ok checked) :
  Name.isName name.text ∧ checked = name
  := by
  unfold Name.check at h
  split_ifs at h with hname
  cases h
  exact ⟨hname, rfl⟩

/-- The name of a document type is one, if names are checked. -/
theorem doctypeOf_named {settings : Settings} {name publicId systemId subset : Value} {d : Doctype}
    (h : Builder.doctypeOf settings name publicId systemId subset = .ok d)
    (hchecks : settings.checkNames.counts) :
  (Node.doctype d).isNamed
  := by
  simp only [Builder.doctypeOf, bind, Except.bind, hchecks, ite_true] at h
  split at h
  · cases h
  · split at h
    · cases h
    · rename_i hcheck
      cases h
      exact (check_ok hcheck).1

/-- An operation changes nothing, or it sets the declaration, or it adds a node of a form that
calls give to nodes, or at the top level a document type with a name that was checked, if names
are. -/
theorem operate_cases (s : Site) (h : Sheet) (o : Operation) (values : List Value) :
  (s.operate h o values).1 = h
    ∨ (∃ d, (s.operate h o values).1 = { h with declaration := some d })
    ∨ ∃ n, s.add h n = .ok (s.operate h o values).1 ∧ n.isElement = false
      ∧ (n.IsMade s.settings.checkNames.counts
        ∨ s.depth = 0 ∧ n.isDoctype ∧ (s.settings.checkNames.counts → n.isNamed))
  := by
  have hmade {n : Node} (hsound : n.IsSound) (hname : n.name? = none) (hnamed : n.isNamed) :
      n.IsMade s.settings.checkNames.counts :=
    ⟨hsound, by simp [hname], fun _ => hnamed⟩
  unfold operate
  split
  · rename_i v
    refine (change_cases h _).imp_right fun hr => .inr ?_
    cases ht : v.requireText "text" with
    | error f => simp [ht, bind, Except.bind] at hr
    | ok t =>
        cases hbreaks : breaksComment t.text.toList with
        | true => simp [ht, Builder.commentOf, hbreaks, bind, Except.bind] at hr
        | false =>
            refine ⟨.comment t, ?_, rfl, .inl (hmade hbreaks rfl rfl)⟩
            simpa [ht, Builder.commentOf, hbreaks, bind, Except.bind] using hr
  · rename_i v
    refine (change_cases h _).imp_right fun hr => .inr ?_
    cases ht : v.requireText "text" with
    | error f => simp [ht, bind, Except.bind] at hr
    | ok t =>
        refine ⟨.cdata t.text, ?_, rfl, .inl (hmade (requireText_ne ht) rfl rfl)⟩
        simpa [ht, bind, Except.bind] using hr
  · rename_i v
    refine (change_cases h _).imp_right fun hr => .inr ?_
    cases ht : v.requireText "text" with
    | error f => simp [ht, bind, Except.bind] at hr
    | ok t =>
        refine ⟨.text t.text, ?_, rfl, .inl (hmade (requireText_ne ht) rfl rfl)⟩
        simpa [ht, bind, Except.bind] using hr
  · exact .inr (.inl ⟨_, rfl⟩)
  · rename_i name publicId systemId subset
    refine (change_cases h _).imp_right fun hr => .inr ?_
    cases hd : Builder.doctypeOf s.settings name publicId systemId subset with
    | error f => simp [hd, bind, Except.bind] at hr
    | ok d =>
        by_cases hdepth : s.depth = 0
        · refine ⟨.doctype d, ?_, rfl, .inr ⟨hdepth, rfl, doctypeOf_named hd⟩⟩
          simpa [hd, bind, Except.bind, addDoctype, hdepth] using hr
        · simp only [hd, bind, Except.bind, addDoctype, hdepth, ite_false] at hr
          split_ifs at hr
  · exact .inl rfl

/-! ### Growth -/

theorem add_ok {s : Site} {h after : Sheet} {n : Node} (ha : s.add h n = .ok after) :
  s.misplacement? h n = none ∧ after = { h with children := h.children ++ [n] }
  := by
  unfold add at ha
  split at ha
  · cases ha
  · rename_i hm
    cases ha
    exact ⟨hm, rfl⟩

theorem operate_grows (s : Site) (h : Sheet) (o : Operation) (values : List Value) :
  h.children <+: (s.operate h o values).1.children
  := by
  rcases operate_cases s h o values with heq | ⟨d, heq⟩ | ⟨n, ha, _⟩
  · simp only [heq, List.prefix_refl]
  · simp only [heq, List.prefix_refl]
  · rw [(add_ok ha).2]
    exact List.prefix_append h.children [n]

/-- Steps only add to the children at their site. -/
theorem kept_growth :
  Kept fun _ h after => h.children <+: after.children
  where
    same hc _ _ := hc ▸ List.prefix_rfl
    trans := List.IsPrefix.trans
    operate := operate_grows
    element _ := List.prefix_append _ _
    fragment _ _ := List.prefix_append _ _

end Site

end XmlDraft
